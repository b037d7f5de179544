import Premise.Proofs.Search.Exploration
import Premise.Reasoning

/-!
Searches side by side. If what a search asks of a state is answered alike for the image of the state,
then the search from the image takes the same course, and what it finds is the image of what was
found. Main statement: `search_image`.
-/
namespace Premise

variable {φ : Derivation → Derivation} {inside : Derivation → Prop} {s u v : Derivation}
  {target : String} {limits : Limits} {maxSteps : Int}

/-- The same result, but for the state that it shows. -/
def SearchResult.image (r : SearchResult) (φ : Derivation → Derivation) : SearchResult :=
  { r with state := r.state.map φ }

namespace Derivation

def Node.image (m : Node) (φ : Derivation → Derivation) : Node :=
  { m with state := φ m.state }

/-- On the states that are `inside`, which no round leaves, the image answers all that a search asks
as the state does: whether it proves the target, what its successors are, and which states share a
signature. -/
structure Mirrored (φ : Derivation → Derivation) (inside : Derivation → Prop) (target : String)
    (maxSteps : Int) : Prop where
  closed : ∀ u, inside u → ∀ c ∈ u.expand maxSteps, inside c
  proves : ∀ u, inside u → (φ u).proves? target = u.proves? target
  expand : ∀ u, inside u → (φ u).expand maxSteps = (u.expand maxSteps).map φ
  signature : ∀ u v, inside u → inside v →
    ((φ u).signature = (φ v).signature ↔ u.signature = v.signature)

/-! ### Successors -/

theorem flatMap_eq_map {α β γ : Type} {l : List α} {g : α → List γ} {h : α → List β} {k : β → γ}
    (each : ∀ x ∈ l, g x = (h x).map k) : l.flatMap g = (l.flatMap h).map k := by
  rw [List.map_flatMap, List.flatMap_def, List.flatMap_def, List.map_congr_left each]

/-- An image of the same steps has the images of all successors, if each inference has the image of
its own. -/
theorem expand_image (steps : (φ s).steps = s.steps)
    (each : ∀ inputs i, (∀ x ∈ inputs, x ∈ s.steps) → (φ s).successor? (φ s).known inputs i =
      (s.successor? s.known inputs i).map φ) :
    (φ s).expand maxSteps = (s.expand maxSteps).map φ := by
  unfold expand
  rw [steps]
  split
  · rfl
  · have tried (list : List Inference) (inputs : List Step) (within : ∀ x ∈ inputs, x ∈ s.steps) :
        list.filterMap ((φ s).successor? (φ s).known inputs) =
          (list.filterMap (s.successor? s.known inputs)).map φ := by
      rw [List.map_filterMap]
      exact congrFun (congrArg List.filterMap (funext fun i => each inputs i within)) list
    have pairs (a : Step) (first : a ∈ s.steps) := flatMap_eq_map fun b (second : b ∈ s.steps) =>
      tried pairInferences [a, b] (by simp [first, second])
    have soles := flatMap_eq_map fun a (only : a ∈ s.steps) =>
      tried soleInferences [a] (by simp [only])
    dsimp only
    rw [flatMap_eq_map pairs, soles, List.map_append]

/-! ### The loop -/

/-- Of the states that are `inside`, those are seen whose images are seen on the other side. -/
def SeenAlike (φ : Derivation → Derivation) (inside : Derivation → Prop)
    (seen seen' : Std.HashSet String) : Prop :=
  ∀ u, inside u → ((φ u).signature ∈ seen' ↔ u.signature ∈ seen)

/-- Two looks through successors came to the same. -/
inductive SameRound (φ : Derivation → Derivation) (inside : Derivation → Prop) :
    Except FormulaError Round → Except FormulaError Round → Prop where
  | failed (e : FormulaError) : SameRound φ inside (.error e) (.error e)
  | found (child : Derivation) :
      SameRound φ inside (.ok (.found child)) (.ok (.found (φ child)))
  | added {nodes : List Node} {seen seen' : Std.HashSet String} : SeenAlike φ inside seen seen' →
      SameRound φ inside (.ok (.added nodes seen)) (.ok (.added (nodes.map (·.image φ)) seen'))

namespace Mirrored

variable {node : Node} {nodes waiting : List Node} {seen seen' : Std.HashSet String} {cut : Bool}
  {budget taken : Nat}

theorem insert_seen (mirrored : Mirrored φ inside target maxSteps)
    (alike : SeenAlike φ inside seen seen') (within : inside v) :
    SeenAlike φ inside (seen.insert v.signature) (seen'.insert (φ v).signature) := by
  intro u within'
  simp only [Std.HashSet.mem_insert, beq_iff_eq]
  rw [alike u within', mirrored.signature v u within within']

theorem start_seen (mirrored : Mirrored φ inside target maxSteps) (within : inside s) :
    SeenAlike φ inside (Std.HashSet.ofList [s.signature])
      (Std.HashSet.ofList [(φ s).signature]) := by
  intro u within'
  simpa [Std.HashSet.mem_ofList] using mirrored.signature s u within within'

theorem round {children : List Derivation} (mirrored : Mirrored φ inside target maxSteps)
    (within : ∀ c ∈ children, inside c) (alike : SeenAlike φ inside seen seen') :
    SameRound φ inside (round target node children nodes seen)
      (round target (node.image φ) (children.map φ) (nodes.map (·.image φ)) seen') := by
  induction children generalizing nodes seen seen' with
  | nil =>
    rw [Derivation.round, List.map_nil, Derivation.round, ← List.map_reverse]
    exact .added alike
  | cons child rest ih =>
    obtain ⟨first, later⟩ := List.forall_mem_cons.mp within
    have proof := mirrored.proves child first
    rw [List.map_cons]
    cases decided : child.proves? target with
    | error e =>
      rw [decided] at proof
      rw [Derivation.round, Derivation.round, decided, proof]
      exact .failed e
    | ok b =>
      rw [decided] at proof
      cases b with
      | true =>
        rw [round_proved decided, round_proved proof]
        exact .found child
      | false =>
        rw [round_unproved decided, round_unproved proof]
        -- Both have seen the child before, or neither has.
        have seenBefore : seen'.contains (φ child).signature = seen.contains child.signature := by
          rw [Bool.eq_iff_iff, Std.HashSet.contains_iff_mem, Std.HashSet.contains_iff_mem,
            alike child first]
        rw [seenBefore]
        split
        · exact ih later alike
        · exact ih later (mirrored.insert_seen alike first)

theorem explore (mirrored : Mirrored φ inside target limits.maxSteps)
    (within : ∀ m ∈ waiting, inside m.state) (alike : SeenAlike φ inside seen seen') :
    explore limits target budget taken (waiting.map (·.image φ)) seen' cut =
      (explore limits target budget taken waiting seen cut).map (·.image φ) := by
  induction budget generalizing taken waiting seen seen' cut with
  | zero =>
    cases waiting with
    | nil => rfl
    | cons node waiting => rfl
  | succ budget ih =>
    cases waiting with
    | nil => rfl
    | cons node waiting =>
      obtain ⟨first, later⟩ := List.forall_mem_cons.mp within
      have children := mirrored.closed node.state first
      have looked : SameRound φ inside
          (Derivation.round target node (node.state.expand limits.maxSteps) [] seen)
          (Derivation.round target (node.image φ)
            ((node.state.expand limits.maxSteps).map φ) [] seen') :=
        mirrored.round children alike
      rw [← mirrored.expand node.state first] at looked
      rw [List.map_cons, Derivation.explore, Derivation.explore, List.length_map]
      split
      · rfl
      · rw [show (node.image φ).state = φ node.state from rfl,
          mirrored.proves node.state first]
        cases decided : node.state.proves? target with
        | error e => rfl
        | ok b =>
          cases b with
          | true => rfl
          | false =>
            change (if limits.maxDepth ≤ node.depth then _ else _) = Except.map _
              (if limits.maxDepth ≤ node.depth then _ else _)
            split
            · exact ih later alike
            · generalize before : Derivation.round target node _ [] seen = outcome at looked ⊢
              generalize Derivation.round target (node.image φ) _ [] seen' = outcome'
                at looked ⊢
              -- Whatever a round comes to, it comes to on the other side as well.
              cases looked with
              | failed e => rfl
              | found child => rfl
              | @added nodes seen₁ seen₂ alike' =>
                have within' : ∀ m ∈ waiting ++ nodes, inside m.state := by
                  refine List.forall_mem_append.mpr ⟨later, fun m member => ?_⟩
                  obtain ⟨c, child, rfl⟩ := (added_of_round before).placed m member
                  exact children c child
                change Derivation.explore _ _ _ _ (_ ++ _) _ _ =
                  Except.map _ (Derivation.explore _ _ _ _ _ _ _)
                rw [← List.map_append]
                exact ih within' alike'

end Mirrored

/-! ### Searches -/

theorem settled?_image (proves : (φ s).proves? target = s.proves? target)
    (unresolved : (φ s).unresolved target = s.unresolved target) :
    (φ s).settled? target = (s.settled? target).map (Option.map (·.image φ)) := by
  unfold settled?
  rw [proves, unresolved]
  cases s.proves? target with
  | error e => rfl
  | ok b =>
    cases b with
    | true => rfl
    | false =>
      cases s.unresolved target with
      | error e => rfl
      | ok names => cases names <;> rfl

theorem search_image (mirrored : Mirrored φ inside target limits.maxSteps) (within : inside s)
    (unresolved : (φ s).unresolved target = s.unresolved target) :
    (φ s).search target limits = (s.search target limits).map (·.image φ) := by
  unfold search
  rw [settled?_image (mirrored.proves s within) unresolved]
  cases s.settled? target with
  | error e => rfl
  | ok settled =>
    cases settled with
    | some result => rfl
    | none =>
      have first : ∀ m ∈ [(⟨s, 0, []⟩ : Node)], inside m.state := by
        intro m member
        rw [List.mem_singleton.mp member]
        exact within
      exact mirrored.explore first (mirrored.start_seen within)

theorem searchUnder_image (config : Config)
    (mirrored : ∀ maxSteps, Mirrored φ inside target maxSteps) (within : inside s)
    (unresolved : (φ s).unresolved target = s.unresolved target) :
    (φ s).searchUnder config target = (s.searchUnder config target).map (·.image φ) := by
  unfold searchUnder
  cases config.limits with
  | ok limits =>
    simp only [search_image (mirrored limits.maxSteps) within unresolved]
    cases s.search target limits <;> rfl
  | error setting =>
    simp only [settled?_image ((mirrored 0).proves s within) unresolved]
    cases s.settled? target with
    | error e => rfl
    | ok settled => cases settled <;> rfl

end Derivation

end Premise
