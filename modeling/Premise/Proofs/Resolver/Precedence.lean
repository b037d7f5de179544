import Premise.Proofs.Resolver.Visiting

/-!
Which resolver decides about a name where several go by it, and that files and resolvers of other
names do not matter to that, whether they fail or not. Main statement:
`Resolver.facts_gathered_by_precedence`.
-/
namespace Premise.Resolver

variable {place place' : Option ResolverPath} {custom custom' : List (String × Resolver)}
  {required : Option (List String)} {name : String} {r : Resolver}

/-! ### The deciding resolver -/

/-- A given resolver decides, the last of the name. Where none is given it is, in the last file that
offers the name and under the last member there that does, the last one of the name. -/
inductive Decides (files : List ModuleFile) (custom : List (String × Resolver)) (name : String) :
    Resolver → Prop where
  | given {r : Resolver} : Last (·.1 = name) custom (name, r) → Decides files custom name r
  | found {f : ModuleFile} {m : ResolverModule} {member : String} {r : Resolver} :
      (∀ e ∈ custom, e.1 ≠ name) → Last (·.Offers name) files f → f.content = .ok m →
      Last (fun x => ∃ e ∈ m.offersOf x, e.1 = name) m.names member →
      Last (·.1 = name) (m.offersOf member) (name, r) → Decides files custom name r

theorem last_offered {f : ModuleFile} {m : ResolverModule} (loaded : f.content = .ok m) :
    Last (·.1 = name) f.offers (name, r) ↔
      ∃ member, Last (fun x => ∃ e ∈ m.offersOf x, e.1 = name) m.names member ∧
        Last (·.1 = name) (m.offersOf member) (name, r) := by
  rw [ModuleFile.offers, loaded]
  exact last_flatMap

theorem decides_iff :
    Decides (sources place) custom name r ↔ Last (·.1 = name) (onOffer place custom) (name, r) := by
  rw [onOffer, last_append, last_flatMap]
  constructor
  · rintro (last | ⟨none, file, loaded, inside, last⟩)
    · exact Or.inl last
    · exact Or.inr ⟨⟨_, file, (last_offered loaded).mpr ⟨_, inside, last⟩⟩, none⟩
  · rintro (last | ⟨⟨f, file, last⟩, none⟩)
    · exact .given last
    · cases loaded : f.content with
      | error why =>
        have empty : f.offers = [] := by rw [ModuleFile.offers, loaded]
        rw [empty] at last
        exact absurd last not_last_nil
      | ok m =>
        obtain ⟨member, inside, last⟩ := (last_offered loaded).mp last
        exact .found none file loaded inside last

/-! ### The table of answers -/

/-- Whether a resolver of the name is asked, if there is one. -/
def isAsked (required : Option (List String)) (name : String) : Bool :=
  isFactName name && required.all (·.contains name)

theorem isAsked_iff : isAsked required name = true ↔
    isFactName name = true ∧ ∀ names ∈ required, name ∈ names := by
  cases required <;> simp [isAsked]

theorem asked_eq (required : Option (List String)) (t : Table Resolver) :
    asked required t = t.filter (isAsked required ·.1) := by
  unfold asked isAsked
  rw [List.filter_filter]
  simp only [Bool.and_comm]

theorem keys_asked (t : Table Resolver) : Table.keys (resolutions (asked required t)) =
    (Table.keys t).filter (isAsked required) := by
  unfold resolutions Table.keys
  rw [asked_eq, List.map_map, List.filter_map]
  rfl

theorem lookup_asked (t : Table Resolver) : (resolutions (asked required t)).lookup name =
    if isAsked required name then (t.lookup name).map holds else none := by
  unfold resolutions
  rw [asked_eq, Table.lookup_map, Table.lookup_filter]
  split <;> rfl

/-- What the table of answers holds. -/
structure ByPrecedence (place : Option ResolverPath) (custom : List (String × Resolver))
    (required : Option (List String)) (t : Table Bool) : Prop where
  named : ∀ name, name ∈ Table.keys t ↔
    isFactName name = true ∧ (∀ names ∈ required, name ∈ names) ∧
      ((∃ f ∈ sources place, f.Offers name) ∨ ∃ r, (name, r) ∈ custom)
  once : (Table.keys t).Nodup
  order : Table.keys t =
    ((onOffer place custom).map (·.1)).eraseDups.filter (isAsked required)
  value : ∀ name holds, t.lookup name = some holds ↔
    isFactName name = true ∧ (∀ names ∈ required, name ∈ names) ∧
      ∃ r, Decides (sources place) custom name r ∧ r.holds = holds

theorem gather_offered (speaker : Speaker) (place : Option ResolverPath)
    (custom : List (String × Resolver)) (required : Option (List String)) :
    ∃ g, (gather speaker place custom required).result = .ok g ∧
      g.resolutions = resolutions (asked required (.ofList (onOffer place custom))) := by
  rw [gather_result, merged_discovered]
  exact ⟨_, rfl, rfl⟩

theorem mem_onOffer : name ∈ Table.keys (onOffer place custom) ↔
    (∃ f ∈ sources place, f.Offers name) ∨ ∃ r, (name, r) ∈ custom := by
  unfold Table.keys onOffer ModuleFile.Offers
  simp only [List.mem_map, List.mem_append, List.mem_flatMap]
  constructor
  · rintro ⟨e, ⟨f, visited, offered⟩ | given, rfl⟩
    · exact Or.inl ⟨f, visited, e, offered, rfl⟩
    · exact Or.inr ⟨e.2, given⟩
  · rintro (⟨f, visited, e, offered, rfl⟩ | ⟨r, given⟩)
    · exact ⟨e, Or.inl ⟨f, visited, offered⟩, rfl⟩
    · exact ⟨(name, r), Or.inr given, rfl⟩

theorem answers_by_precedence (place : Option ResolverPath) (custom : List (String × Resolver))
    (required : Option (List String)) : ByPrecedence place custom required
      (resolutions (asked required (.ofList (onOffer place custom)))) where
  named := by
    intro name
    rw [keys_asked, List.mem_filter, isAsked_iff, Table.keys_ofList, List.mem_eraseDups, mem_onOffer,
      and_comm, and_assoc]
  once := by
    rw [keys_asked]
    exact Table.ofList_distinct.filter _
  order := by
    rw [keys_asked, Table.keys_ofList]
    rfl
  value := by
    intro name holds
    rw [lookup_asked, ← and_assoc, ← isAsked_iff]
    by_cases asked : isAsked required name = true
    · simp only [asked, if_true, true_and, Option.map_eq_some_iff, Table.lookup_ofList, decides_iff]
    · simp [asked]

/-! ### Failing files -/

section
variable {p : ResolverPath} {files : List ModuleFile}

/-- Where files fail, what there is under a name that none of them offers stays the same. -/
theorem onOffer_breaking (listed : p.files? = some files) {fails : ModuleFile → Bool}
    (why : String) (apart : ∀ f ∈ files, fails f = true → ¬ f.Offers name) :
    (onOffer (some (p.holding (files.map (·.breaking fails why)))) custom).filter (·.1 == name) =
      (onOffer (some p) custom).filter (·.1 == name) := by
  unfold onOffer
  rw [sources_map listed (ModuleFile.breaking_names fails why), List.filter_append,
    List.filter_append, List.flatMap_map, List.filter_flatMap, List.filter_flatMap]
  congr 1
  refine List.flatMap_congr fun f visited => ?_
  unfold ModuleFile.breaking
  split
  · rename_i broken
    have none := apart f (mem_sources listed visited) broken
    symm
    exact List.filter_eq_nil_iff.mpr fun e offered same => none ⟨e, offered, beq_iff_eq.mp same⟩
  · rfl

/-- Files that fail can be left out. -/
theorem onOffer_loaded (listed : p.files? = some files) :
    onOffer (some (p.holding (files.filter (·.content.isOk)))) custom =
      onOffer (some p) custom := by
  unfold onOffer
  rw [sources_filter listed]
  congr 1
  induction sources (some p) with
  | nil => rfl
  | cons f files ih =>
    rw [List.filter_cons, List.flatMap_cons]
    split
    · rw [List.flatMap_cons, ih]
    · rename_i broken
      have none : f.offers = [] := by
        unfold ModuleFile.offers
        cases loaded : f.content with
        | error why => rfl
        | ok m =>
          rw [loaded] at broken
          exact absurd rfl broken
      rw [none, ih]
      rfl

end

/-! ### Failing resolvers -/

/-- Of the name the offers may differ, otherwise they are the same, one for one. -/
def DifferAt (name : String) (xs ys : List (String × Resolver)) : Prop :=
  List.Forall₂ (fun x y => x.1 = y.1 ∧ (x.1 = name ∨ x.2 = y.2)) xs ys

theorem DifferAt.keys {xs ys : List (String × Resolver)} (differ : DifferAt name xs ys) :
    Table.keys xs = Table.keys ys := by
  induction differ with
  | nil => rfl
  | cons first _ ih => exact congrArg₂ List.cons first.1 ih

theorem DifferAt.filter {xs ys : List (String × Resolver)} {other : String}
    (differ : DifferAt name xs ys) (apart : other ≠ name) :
    xs.filter (·.1 == other) = ys.filter (·.1 == other) := by
  induction differ with
  | nil => rfl
  | @cons x y xs ys first _ ih =>
    obtain ⟨named, same⟩ := first
    rw [List.filter_cons, List.filter_cons, ih, named]
    split
    · rename_i here
      rw [beq_iff_eq] at here
      have other := same.resolve_left fun named' => apart (here.symm.trans (named.symm.trans named'))
      rw [show x = y from Prod.ext named other]
    · rfl

/-! ### Gathering -/

theorem gathered_keys (same : Table.keys (onOffer place custom) = Table.keys (onOffer place' custom')) :
    Table.keys (resolutions (asked required (.ofList (onOffer place custom)))) =
      Table.keys (resolutions (asked required (.ofList (onOffer place' custom')))) := by
  rw [keys_asked, keys_asked, Table.keys_ofList, Table.keys_ofList, same]

theorem gathered_lookup (same : (onOffer place custom).filter (·.1 == name) =
      (onOffer place' custom').filter (·.1 == name)) :
    (resolutions (asked required (.ofList (onOffer place custom)))).lookup name =
      (resolutions (asked required (.ofList (onOffer place' custom')))).lookup name := by
  rw [lookup_asked, lookup_asked, Table.lookup_ofList_congr same]

/-- The answers that are gathered are those of the deciding resolvers, under the names that are asked
for, where files are visited in the order of their paths. Files that fail change nothing under names
that they would not have offered, and are as good as absent. A deciding resolver that fails counts as
not holding, and whatever the resolvers of one name do, all other names keep their places and
answers. -/
theorem facts_gathered_by_precedence (speaker : Speaker) (place : Option ResolverPath)
    (custom : List (String × Resolver)) (required : Option (List String)) :
    ∃ g, (gather speaker place custom required).result = .ok g ∧
      ByPrecedence place custom required g.resolutions ∧
      (∀ p files, place = some p → p.path ≠ "" → p.files? = some files →
        (sources place).Perm (files.filter (·.isVisible)) ∧
        (sources place).Pairwise fun f f' => Text.pathLe f.names f'.names = true) ∧
      (∀ p files, place = some p → p.files? = some files →
        (∀ fails why, ∃ g',
          (gather speaker (some (p.holding (files.map (·.breaking fails why)))) custom
            required).result = .ok g' ∧
          ∀ name, (∀ f ∈ files, fails f = true → ¬ f.Offers name) →
            g'.resolutions.lookup name = g.resolutions.lookup name) ∧
        ∃ g', (gather speaker (some (p.holding (files.filter (·.content.isOk)))) custom
          required).result = .ok g' ∧ g'.resolutions = g.resolutions) ∧
      (∀ name message, Decides (sources place) custom name (.failure message) →
        g.resolutions.lookup name ≠ some true) ∧
      ∀ place' custom' name, DifferAt name (onOffer place custom) (onOffer place' custom') →
        ∃ g', (gather speaker place' custom' required).result = .ok g' ∧
          Table.keys g'.resolutions = Table.keys g.resolutions ∧
          ∀ other, other ≠ name → g'.resolutions.lookup other = g.resolutions.lookup other := by
  obtain ⟨g, answer, resolved⟩ := gather_offered speaker place custom required
  have precedence := answers_by_precedence place custom required
  rw [← resolved] at precedence
  refine ⟨g, answer, precedence, ?_, ?_, ?_, ?_⟩
  · rintro p files rfl path listed
    rw [sources, if_neg path, listed]
    exact ⟨ResolverPath.visited_perm files, ResolverPath.visited_pairwise files⟩
  · rintro p files rfl listed
    constructor
    · intro fails why
      obtain ⟨g', answer', resolved'⟩ := gather_offered speaker
        (some (p.holding (files.map (·.breaking fails why)))) custom required
      refine ⟨g', answer', fun name apart => ?_⟩
      rw [resolved', resolved, gathered_lookup (onOffer_breaking listed why apart)]
    · obtain ⟨g', answer', resolved'⟩ := gather_offered speaker
        (some (p.holding (files.filter (·.content.isOk)))) custom required
      exact ⟨g', answer', by rw [resolved', resolved, onOffer_loaded listed]⟩
  · intro name message decides
    rw [resolved, lookup_asked, Table.lookup_ofList.mpr (decides_iff.mp decides)]
    split
    · simp [holds]
    · simp
  · intro place' custom' name differ
    obtain ⟨g', answer', resolved'⟩ := gather_offered speaker place' custom' required
    refine ⟨g', answer', ?_, fun other apart => ?_⟩
    · rw [resolved', resolved, gathered_keys differ.keys]
    · rw [resolved', resolved, gathered_lookup (differ.filter apart)]

/-- The resolver of one name fails. -/
def earlierFile : ModuleFile where
  names := ["a.py"]
  content := .ok { members := [("A", .function true (.failure "offline")),
    ("B", .function true (.value (.bool true)))] }

def laterFile : ModuleFile where
  names := ["b.py"]
  content := .ok { members := [("A", .function true (.value (.bool true)))] }

def sharedFiles : List ModuleFile :=
  [laterFile, ⟨["c.py"], .error "invalid syntax"⟩, earlierFile]

def sharedPath : ResolverPath :=
  ⟨"resolvers", some sharedFiles⟩

/-- The file that comes later decides. Where it fails itself, or the given resolver does not, the
answers under other names stay as they are. -/
theorem later_file_decides : ∃ g broken less changed,
    (gather .reasoning (some sharedPath) [("C", .failure "offline")] none).result = .ok g ∧
    g.resolutions = [("A", true), ("B", true), ("C", false)] ∧
    (sources (some sharedPath)).Pairwise (fun f f' => Text.pathLe f.names f'.names = true) ∧
    (gather .reasoning (some (sharedPath.holding (sharedFiles.map
      (·.breaking (·.names == ["b.py"]) "offline")))) [("C", .failure "offline")] none).result =
        .ok broken ∧ broken.resolutions.lookup "B" = some true ∧
    (gather .reasoning (some (sharedPath.holding (sharedFiles.filter (·.content.isOk))))
      [("C", .failure "offline")] none).result = .ok less ∧ less.resolutions = g.resolutions ∧
    (gather .reasoning (some sharedPath) [("C", .value (.bool true))] none).result = .ok changed ∧
    changed.resolutions.lookup "A" = some true ∧ g.resolutions.lookup "C" ≠ some true := by
  obtain ⟨g, answer, -, path, files, failure, differing⟩ := facts_gathered_by_precedence .reasoning
    (some sharedPath) [("C", .failure "offline")] none
  have all : g.resolutions = [("A", true), ("B", true), ("C", false)] := by
    obtain ⟨g', answer', resolved⟩ := gather_offered .reasoning (some sharedPath)
      [("C", .failure "offline")] none
    cases answer.symm.trans answer'
    have offered : onOffer (some sharedPath) [("C", .failure "offline")] =
        [("A", .failure "offline"), ("B", .value (.bool true)), ("A", .value (.bool true)),
          ("C", .failure "offline")] := by cbv
    rw [resolved, offered]
    decide
  obtain ⟨breaks, leavesOut⟩ := files sharedPath sharedFiles rfl rfl
  obtain ⟨broken, fails, kept⟩ := breaks (·.names == ["b.py"]) "offline"
  obtain ⟨less, loads, same⟩ := leavesOut
  have differ : DifferAt "C" (onOffer (some sharedPath) [("C", .failure "offline")])
      (onOffer (some sharedPath) [("C", .value (.bool true))]) :=
    List.rel_append (List.forall₂_same.mpr fun e _ => ⟨rfl, Or.inr rfl⟩)
      (.cons ⟨rfl, Or.inl rfl⟩ .nil)
  obtain ⟨changed, gives, -, others⟩ := differing _ _ "C" differ
  have given : Decides (sources (some sharedPath)) [("C", .failure "offline")] "C"
      (.failure "offline") := .given ⟨[], [], rfl, rfl, by simp⟩
  have apart : ∀ f ∈ sharedFiles, (f.names == ["b.py"]) = true → ¬ f.Offers "B" := by
    unfold ModuleFile.Offers
    decide
  refine ⟨g, broken, less, changed, answer, all, ?_, fails, ?_, loads, same, gives, ?_, ?_⟩
  · exact (path sharedPath sharedFiles rfl (by decide) rfl).2
  · rw [kept "B" apart, all]
    rfl
  · rw [others "A" (by decide), all]
    rfl
  · exact failure "C" "offline" given

end Premise.Resolver
