import Premise.Proofs.Scenario.Fate
import Premise.Reasoning

/-!
Where the antecedents of steps stand. A rule records steps of the arena that it extends, so that in
every state that is loaded and searched, lineage leads to earlier steps. Main statement:
`Reachable.grounded`.
-/
namespace Premise.Derivation

variable {s t : Derivation} {x y : Step} {i j : Nat}

/-- Steps know their place in the arena. -/
def Indexed (s : Derivation) : Prop :=
  ∀ (i : Nat) (x : Step), s.steps[i]? = some x → x.index = some i

/-- Steps refer to steps that are there. -/
structure Linked (s : Derivation) : Prop where
  indexed : s.Indexed
  within : ∀ x ∈ s.steps, ∀ j : Nat, Ref.step j ∈ x.antecedents → j < s.steps.length

/-- Steps refer to earlier steps. -/
structure Grounded (s : Derivation) : Prop where
  indexed : s.Indexed
  earlier : ∀ (i : Nat) (x : Step), s.steps[i]? = some x →
    ∀ j : Nat, Ref.step j ∈ x.antecedents → j < i

theorem Grounded.linked (grounded : s.Grounded) : s.Linked := by
  refine ⟨grounded.indexed, fun x member j cited => ?_⟩
  obtain ⟨i, here⟩ := List.mem_iff_getElem?.mp member
  have inside := (List.getElem?_eq_some_iff.mp here).1
  exact Nat.lt_trans (grounded.earlier i x here j cited) inside

/-! ### Pushing -/

theorem push_getElem? (h : (s.push x).steps[i]? = some y) :
    s.steps[i]? = some y ∨ i = s.steps.length ∧ y = s.number x := by
  rw [push_steps] at h
  rcases Nat.lt_trichotomy i s.steps.length with before | rfl | after
  · rw [List.getElem?_append_left before] at h
    exact Or.inl h
  · rw [List.getElem?_concat_length] at h
    exact Or.inr ⟨rfl, (Option.some.inj h).symm⟩
  · have outside : (s.steps ++ [s.number x]).length ≤ i := by
      rw [List.length_append, List.length_singleton]
      omega
    rw [List.getElem?_eq_none outside] at h
    cases h

theorem Citable.lineage (citable : s.Citable x) (indexed : s.Indexed)
    (cited : x.lineage? = some (.step j)) : j < s.steps.length := by
  rcases citable with member | ⟨f, -, rfl⟩
  · obtain ⟨i, here⟩ := List.mem_iff_getElem?.mp member
    rw [Step.lineage?, indexed i x here] at cited
    cases cited
    exact (List.getElem?_eq_some_iff.mp here).1
  · cases cited

theorem applied_lineage {rule : Rule} {subtype : Value} {inputs : List Step} (indexed : s.Indexed)
    (citable : ∀ y ∈ inputs, s.Citable y) (applied : rule.apply s.limit inputs subtype = .ok x)
    (cited : Ref.step j ∈ x.antecedents) : j < s.steps.length := by
  obtain ⟨i, derived⟩ := Rule.apply_derives applied
  obtain ⟨fs, f, -, -, rfl⟩ := Inference.derive_ok_iff.mp derived
  obtain ⟨y, input, recorded⟩ := List.mem_filterMap.mp cited
  exact (citable y input).lineage indexed recorded

theorem Indexed.push (indexed : s.Indexed) (x : Step) : (s.push x).Indexed := by
  intro i y here
  rcases push_getElem? here with old | ⟨rfl, rfl⟩
  · exact indexed i y old
  · rfl

theorem Linked.apply {rule : Rule} {subtype : Value} {inputs : List Step} (linked : s.Linked)
    (citable : ∀ y ∈ inputs, s.Citable y) (applied : rule.apply s.limit inputs subtype = .ok x) :
    (s.push x).Linked := by
  refine ⟨linked.indexed.push x, fun y member j cited => ?_⟩
  rw [push_steps, List.length_append]
  apply Nat.lt_add_right
  rcases List.mem_append.mp member with old | fresh
  · exact linked.within y old j cited
  · rw [List.mem_singleton.mp fresh] at cited
    exact applied_lineage linked.indexed citable applied cited

theorem Grounded.push (grounded : s.Grounded)
    (earlier : ∀ j : Nat, Ref.step j ∈ x.antecedents → j < s.steps.length) :
    (s.push x).Grounded := by
  refine ⟨grounded.indexed.push x, fun i y here j cited => ?_⟩
  rcases push_getElem? here with old | ⟨rfl, rfl⟩
  · exact grounded.earlier i y old j cited
  · exact earlier j cited

theorem Grounded.apply {rule : Rule} {subtype : Value} {inputs : List Step} (grounded : s.Grounded)
    (citable : ∀ y ∈ inputs, s.Citable y) (applied : rule.apply s.limit inputs subtype = .ok x) :
    (s.push x).Grounded :=
  grounded.push fun _ => applied_lineage grounded.indexed citable applied

theorem Run.linked (run : Run s t) (linked : s.Linked) : t.Linked := by
  induction run with
  | start => exact linked
  | apply _ _ _ citable applied ih => exact ih.apply citable applied

theorem Run.grounded (run : Run s t) (grounded : s.Grounded) : t.Grounded := by
  induction run with
  | start => exact grounded
  | apply _ _ _ citable applied ih => exact ih.apply citable applied

theorem Grounded.framed (grounded : s.Grounded) (same : t.steps = s.steps) : t.Grounded := by
  constructor
  · unfold Indexed
    rw [same]
    exact grounded.indexed
  · rw [same]
    exact grounded.earlier

/-! ### Loading and searching -/

theorem start_grounded (limit : Option Nat) (resolutions : List (String × Bool))
    (propositions : List String) : (Scenario.start limit resolutions propositions).Grounded := by
  have premise : ∀ i x, (Scenario.start limit resolutions propositions).steps[i]? = some x →
      ∃ p, x = { Step.proposition p with index := some i } := by
    intro i x here
    rw [Scenario.start_steps, List.getElem?_map, List.getElem?_zipIdx] at here
    obtain ⟨e, numbered, rfl⟩ := Option.map_eq_some_iff.mp here
    obtain ⟨p, -, rfl⟩ := Option.map_eq_some_iff.mp numbered
    rw [Nat.zero_add]
    exact ⟨p, rfl⟩
  constructor
  · intro i x here
    obtain ⟨p, rfl⟩ := premise i x here
    rfl
  · intro i x here j cited
    obtain ⟨p, rfl⟩ := premise i x here
    cases cited

/-- States that a loaded scenario comes to by evaluating its targets, and the states that their
searches end in. -/
inductive Reachable : Derivation → Prop where
  | loaded (speaker : Speaker) (limit : Option Nat) (path : String) (source : Source)
      (resolutions : List (String × Bool)) {c : Scenario} :
      (Scenario.load speaker limit path source resolutions).result = .ok c → Reachable c.derivation
  | evaluated {s : Derivation} (config : Config) (target : String) :
      Reachable s → Reachable (s.evaluateTarget config target).1
  | searched {s t : Derivation} {target : String} {limits : Limits} {r : SearchResult} :
      Reachable s → s.search target limits = .ok r → r.state = some t → Reachable t

theorem evaluateTarget_steps (s : Derivation) (config : Config) (target : String) :
    (s.evaluateTarget config target).1.steps = s.steps := by
  unfold evaluateTarget
  cases s.searchUnder config target with
  | error e => rfl
  | ok result =>
    obtain ⟨new, tracked, -⟩ := trackAll_eq s result.missing
    dsimp only
    rw [tracked]

theorem Reachable.grounded (reachable : Reachable s) : s.Grounded := by
  induction reachable with
  | loaded speaker limit path source resolutions loaded =>
    obtain ⟨document, -, loaded⟩ := Scenario.load_ok_iff.mp loaded
    obtain ⟨referenced, propositions, entries, targets, -, -, -, -, -, rfl⟩ :=
      Scenario.ofDocument_ok_iff.mp loaded
    refine takeEntries_keeps ?_ ?_ (start_grounded limit resolutions propositions)
    · exact fun s t _ same grounded => grounded.framed same
    · exact fun s rule subtype inputs step grounded citable made => grounded.apply citable made
  | evaluated config target _ ih => exact ih.framed (evaluateTarget_steps _ config target)
  | searched _ found ends ih => exact (search_proven found ends).1.run.grounded ih

end Premise.Derivation
