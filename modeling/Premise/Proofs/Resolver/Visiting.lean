import Premise.Proofs.Reasoning.Selection
import Premise.Proofs.Table

/-!
The files that resolvers come from. They are visited in the order of their paths, and leaving some
out does not change the order of the others. What all of them and the given resolvers offer makes one
table. Main statements: `ResolverPath.filter_visited` and `Resolver.merged_discovered`.
-/
namespace Premise

/-! ### Sorting -/

section
variable {α : Type} {le : α → α → Bool}

/-- A list in two parts, with a property and without, can be split in one way only. -/
theorem append_split {q : α → Bool} {l l' m m' : List α} (same : l ++ l' = m ++ m')
    (front : ∀ x ∈ l, q x = true) (front' : ∀ x ∈ m, q x = true)
    (back : ∀ x ∈ l', q x = false) (back' : ∀ x ∈ m', q x = false) : l = m ∧ l' = m' := by
  have first := congrArg (List.filter q) same
  rw [List.filter_append, List.filter_append, List.filter_eq_self.mpr front,
    List.filter_eq_self.mpr front', List.filter_eq_nil_iff.mpr (by simpa using back),
    List.filter_eq_nil_iff.mpr (by simpa using back'), List.append_nil, List.append_nil] at first
  subst first
  exact ⟨rfl, List.append_cancel_left same⟩

/-- What is left out before sorting can be left out afterwards. -/
theorem filter_mergeSort (trans : ∀ a b c, le a b = true → le b c = true → le a c = true)
    (total : ∀ a b, (le a b || le b a) = true) (p : α → Bool) (l : List α) :
    (l.filter p).mergeSort le = (l.mergeSort le).filter p := by
  induction l with
  | nil => simp
  | cons a l ih =>
    obtain ⟨early, late, sorted, rest, smaller⟩ := List.mergeSort_cons trans total a l
    by_cases passes : p a = true
    · obtain ⟨early', late', sorted', rest', smaller'⟩ :=
        List.mergeSort_cons trans total a (l.filter p)
      have behind : ∀ x ∈ late, le a x = true := by
        have ordered := List.pairwise_mergeSort trans total (a :: l)
        rw [sorted] at ordered
        exact (List.pairwise_cons.mp (List.pairwise_append.mp ordered).2.1).1
      have behind' : ∀ x ∈ late', le a x = true := by
        have ordered := List.pairwise_mergeSort trans total (a :: l.filter p)
        rw [sorted'] at ordered
        exact (List.pairwise_cons.mp (List.pairwise_append.mp ordered).2.1).1
      rw [ih, rest, List.filter_append] at rest'
      obtain ⟨same, same'⟩ := append_split (q := fun x => !le a x) rest'
        (fun x member => smaller x (List.mem_of_mem_filter member)) smaller'
        (fun x member => by simp [behind x (List.mem_of_mem_filter member)])
        (fun x member => by simp [behind' x member])
      rw [List.filter_cons_of_pos passes, sorted', sorted, List.filter_append,
        List.filter_cons_of_pos passes, same, same']
    · rw [List.filter_cons_of_neg passes, ih, sorted, rest, List.filter_append,
        List.filter_append, List.filter_cons_of_neg passes]

end

namespace Text

theorem pathLe_total (a b : List String) : (pathLe a b || pathLe b a) = true := by
  induction a generalizing b with
  | nil => rfl
  | cons x a ih =>
    cases b with
    | nil => rfl
    | cons y b =>
      unfold pathLe
      by_cases same : x = y
      · subst same
        simpa using ih b
      · simpa [same, Ne.symm same] using String.le_total x y

theorem pathLe_trans (a b c : List String) (first : pathLe a b = true)
    (second : pathLe b c = true) : pathLe a c = true := by
  induction a generalizing b c with
  | nil => rfl
  | cons x a ih =>
    cases b with
    | nil => cases first
    | cons y b =>
      cases c with
      | nil => cases second
      | cons z c =>
        unfold pathLe at first second ⊢
        by_cases same : x = y
        · subst same
          rw [if_pos rfl] at first
          by_cases same' : x = z
          · rw [if_pos same'] at second ⊢
            exact ih b c first second
          · rwa [if_neg same'] at second ⊢
        · rw [if_neg same, decide_eq_true_eq] at first
          by_cases same' : y = z
          · subst same'
            rwa [if_neg same, decide_eq_true_eq]
          · rw [if_neg same', decide_eq_true_eq] at second
            have differs : x ≠ z := by
              rintro rfl
              exact same (String.le_antisymm first second)
            rw [if_neg differs, decide_eq_true_eq]
            exact String.le_trans first second

end Text

namespace ModuleFile

theorem before_trans (f g h : ModuleFile) (first : f.before g = true) (second : g.before h = true) :
    f.before h = true :=
  Text.pathLe_trans f.names g.names h.names first second

theorem before_total (f g : ModuleFile) : (f.before g || g.before f) = true :=
  Text.pathLe_total f.names g.names

/-- What a file offers, in order. One that cannot be loaded offers nothing. -/
def offers (f : ModuleFile) : List (String × Resolver) :=
  match f.content with
  | .ok m => m.names.flatMap m.offersOf
  | .error _ => []

def Offers (f : ModuleFile) (name : String) : Prop :=
  ∃ e ∈ f.offers, e.1 = name

/-- The file where those that `fails` picks out cannot be loaded. -/
def breaking (fails : ModuleFile → Bool) (why : String) (f : ModuleFile) : ModuleFile :=
  if fails f then { f with content := .error why } else f

theorem breaking_names (fails : ModuleFile → Bool) (why : String) (f : ModuleFile) :
    (f.breaking fails why).names = f.names := by
  unfold breaking
  split <;> rfl

end ModuleFile

namespace ResolverPath

/-- The path where these are the files below it. -/
def holding (p : ResolverPath) (files : List ModuleFile) : ResolverPath :=
  { p with files? := some files }

theorem visited_perm (files : List ModuleFile) :
    (visited files).Perm (files.filter (·.isVisible)) :=
  List.mergeSort_perm _ _

theorem visited_pairwise (files : List ModuleFile) :
    (visited files).Pairwise fun f f' => Text.pathLe f.names f'.names = true :=
  List.pairwise_mergeSort ModuleFile.before_trans ModuleFile.before_total _

theorem filter_visited (p : ModuleFile → Bool) (files : List ModuleFile) :
    visited (files.filter p) = (visited files).filter p := by
  unfold visited
  rw [← filter_mergeSort ModuleFile.before_trans ModuleFile.before_total, List.filter_filter,
    List.filter_filter]
  simp only [Bool.and_comm]

theorem visited_map {φ : ModuleFile → ModuleFile} (same : ∀ f, (φ f).names = f.names)
    (files : List ModuleFile) : visited (files.map φ) = (visited files).map φ := by
  unfold visited
  rw [List.map_mergeSort (s := ModuleFile.before), List.filter_map]
  · congr 2
    refine List.filter_congr fun f _ => ?_
    simp [ModuleFile.isVisible, ModuleFile.fileName, same]
  · intro f _ g _
    simp [ModuleFile.before, same]

theorem visit_resolvers (p : ResolverPath) {d : Discovery}
    (distinct : (Table.keys d.resolvers).Nodup) (f : ModuleFile) :
    (p.visit d f).resolvers = Table.putAll d.resolvers f.offers := by
  have entered (m : ResolverModule) : Table.putAll d.resolvers m.offers =
      Table.putAll d.resolvers (m.names.flatMap m.offersOf) := Table.putAll_ofList distinct
  unfold visit ModuleFile.offers
  cases f.content with
  | error why => rfl
  | ok m =>
    dsimp only
    rw [← entered]
    split
    · rename_i none
      rw [List.isEmpty_iff.mp none]
      rfl
    · rfl

theorem visits_resolvers (p : ResolverPath) {d : Discovery}
    (distinct : (Table.keys d.resolvers).Nodup) (files : List ModuleFile) :
    (files.foldl p.visit d).resolvers = Table.putAll d.resolvers (files.flatMap (·.offers)) := by
  induction files generalizing d with
  | nil => rfl
  | cons f files ih =>
    have first := p.visit_resolvers distinct f
    have distinct' : (Table.keys (p.visit d f).resolvers).Nodup := by
      rw [first]
      exact Table.putAll_distinct distinct
    rw [List.foldl_cons, ih distinct', first, List.flatMap_cons]
    exact List.foldl_append.symm

end ResolverPath

namespace Resolver

/-- The files that are visited, in that order. -/
def sources (place : Option ResolverPath) : List ModuleFile :=
  match place with
  | some p => if p.path = "" then [] else ResolverPath.visited (p.files?.getD [])
  | none => []

theorem sources_map {p : ResolverPath} {files : List ModuleFile} (listed : p.files? = some files)
    {φ : ModuleFile → ModuleFile} (same : ∀ f, (φ f).names = f.names) :
    sources (some (p.holding (files.map φ))) = (sources (some p)).map φ := by
  unfold sources ResolverPath.holding
  dsimp only
  split
  · rfl
  · rw [listed, Option.getD_some, Option.getD_some, ResolverPath.visited_map same]

theorem sources_filter {p : ResolverPath} {files : List ModuleFile} (listed : p.files? = some files)
    (q : ModuleFile → Bool) :
    sources (some (p.holding (files.filter q))) = (sources (some p)).filter q := by
  unfold sources ResolverPath.holding
  dsimp only
  split
  · rfl
  · rw [listed, Option.getD_some, Option.getD_some, ResolverPath.filter_visited]

theorem mem_sources {p : ResolverPath} {files : List ModuleFile} (listed : p.files? = some files)
    {f : ModuleFile} (visited : f ∈ sources (some p)) : f ∈ files := by
  unfold sources at visited
  dsimp only at visited
  split at visited
  · cases visited
  · rw [listed] at visited
    exact List.mem_of_mem_filter ((ResolverPath.visited_perm files).mem_iff.mp visited)

/-- All that the files offer, and then what is given. -/
def onOffer (place : Option ResolverPath) (custom : List (String × Resolver)) :
    List (String × Resolver) :=
  (sources place).flatMap (·.offers) ++ custom

theorem discovered_resolvers (place : Option ResolverPath) :
    (discovered place).resolvers = .ofList ((sources place).flatMap (·.offers)) := by
  unfold discovered sources
  cases place with
  | none => rfl
  | some p =>
    dsimp only
    split
    · rfl
    · cases p.files? with
      | none => simp [ResolverPath.visited, Table.ofList, Table.putAll]
      | some files =>
        dsimp only [Option.getD_some]
        split
        · rename_i none
          rw [List.isEmpty_iff.mp none]
          rfl
        · have empty : (Table.keys ({} : Discovery).resolvers).Nodup := List.nodup_nil
          exact p.visits_resolvers empty _

theorem merged_discovered (place : Option ResolverPath) (custom : List (String × Resolver)) :
    merged (discovered place) custom = .ofList (onOffer place custom) := by
  rw [merged, discovered_resolvers, onOffer, Table.ofList_append]

end Resolver

end Premise
