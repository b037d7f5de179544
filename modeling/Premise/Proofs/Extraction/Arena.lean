import Premise.Proofs.Extraction.Lineage

/-!
The arena as a log. Whatever a derivation goes through, from nothing known, it only grows, and each
step holds one formula and was made from earlier steps and from known facts. Main statements:
`Built.orderly` and `Moves.grows`.
-/
namespace Premise.Derivation

variable {s t : Derivation} {x : Step} {rule : Rule} {inputs : List Step} {subtype : Value}
  {f : String}

/-- What applying a rule answers, and the derivation that it leaves. -/
def applyRule (s : Derivation) (rule : Rule) (inputs : List Step) (subtype : Value) :
    Except ApplyError Step × Derivation :=
  match rule.apply s.limit inputs subtype with
  | .ok step => (.ok (s.number step), s.push step)
  | .error e => (.error e, s)

/-- One operation on a derivation: adding a fact or a premise, applying a rule, whether it succeeds
or not, taking the step entries of a scenario as far as they go, or one round of a search. -/
inductive Moves (s : Derivation) : Derivation → Prop where
  | fact (f : String) : Moves s (s.addFact f)
  | premise (p : String) : Moves s (s.push (Step.proposition p))
  | rule (r : Rule) {inputs : List Step} (subtype : Value) :
      (∀ y ∈ inputs, s.Citable y) → Moves s (s.applyRule r inputs subtype).2
  | entries (speaker : Speaker) (number : Nat) (entries : List Value) :
      Moves s (s.takeEntries speaker number entries).1
  | round {t : Derivation} (maxSteps : Int) : t ∈ s.expand maxSteps → Moves s t

/-- Built from nothing by such operations. -/
inductive Built (limit : Option Nat) : Derivation → Prop where
  | empty : Built limit { limit := limit }
  | move {s t : Derivation} : Built limit s → Moves s t → Built limit t

/-! ### Applying a rule -/

theorem applyRule_fails {e : ApplyError} (failed : (s.applyRule rule inputs subtype).1 = .error e) :
    (s.applyRule rule inputs subtype).2 = s := by
  unfold applyRule at failed ⊢
  cases applied : rule.apply s.limit inputs subtype with
  | error why => rfl
  | ok step =>
    rw [applied] at failed
    cases failed

theorem applyRule_appends (answered : (s.applyRule rule inputs subtype).1 = .ok x) :
    (s.applyRule rule inputs subtype).2 = { s with steps := s.steps ++ [x] } := by
  unfold applyRule at answered ⊢
  cases applied : rule.apply s.limit inputs subtype with
  | error why =>
    rw [applied] at answered
    cases answered
  | ok step =>
    rw [applied] at answered
    cases answered
    rfl

theorem applyRule_run (citable : ∀ y ∈ inputs, s.Citable y) :
    Run s (s.applyRule rule inputs subtype).2 := by
  unfold applyRule
  cases applied : rule.apply s.limit inputs subtype with
  | error why => exact .start
  | ok step => exact .apply rule subtype .start citable applied

theorem expand_run {maxSteps : Int} (member : t ∈ s.expand maxSteps) : Run s t :=
  (Chain.start.next member).run

/-! ### What is kept -/

/-- Steps hold one formula each and were made from earlier steps and from known facts; no fact is
listed twice. -/
structure Orderly (s : Derivation) : Prop where
  grounded : s.Grounded
  supported : ∀ x ∈ s.steps, ∀ f, Ref.fact f ∈ x.antecedents → f ∈ s.facts
  single : ∀ x ∈ s.steps, ∃ f, x.formulas = [f]
  distinct : s.facts.Nodup

theorem Citable.known (citable : s.Citable x) (indexed : s.Indexed)
    (cited : x.lineage? = some (.fact f)) : f ∈ s.facts := by
  rcases citable with member | ⟨g, known, rfl⟩
  · obtain ⟨i, here⟩ := List.mem_iff_getElem?.mp member
    rw [Step.lineage?, indexed i x here] at cited
    cases cited
  · cases cited
    exact known

namespace Orderly

theorem push (orderly : s.Orderly)
    (earlier : ∀ j : Nat, Ref.step j ∈ x.antecedents → j < s.steps.length)
    (supported : ∀ f, Ref.fact f ∈ x.antecedents → f ∈ s.facts)
    (single : ∃ f, x.formulas = [f]) : (s.push x).Orderly where
  grounded := orderly.grounded.push earlier
  supported := by
    intro y member
    rcases List.mem_append.mp member with old | fresh
    · exact orderly.supported y old
    · rw [List.mem_singleton.mp fresh]
      exact supported
  single := by
    intro y member
    rcases List.mem_append.mp member with old | fresh
    · exact orderly.single y old
    · rw [List.mem_singleton.mp fresh]
      exact single
  distinct := orderly.distinct

theorem apply (orderly : s.Orderly) (citable : ∀ y ∈ inputs, s.Citable y)
    (applied : rule.apply s.limit inputs subtype = .ok x) : (s.push x).Orderly := by
  have indexed := orderly.grounded.indexed
  refine orderly.push (fun j => applied_lineage indexed citable applied) ?_ ?_
  · intro f cited
    obtain ⟨i, derived⟩ := Rule.apply_derives applied
    obtain ⟨fs, g, -, -, rfl⟩ := Inference.derive_ok_iff.mp derived
    obtain ⟨y, input, recorded⟩ := List.mem_filterMap.mp cited
    exact (citable y input).known indexed recorded
  · obtain ⟨i, derived⟩ := Rule.apply_derives applied
    obtain ⟨fs, g, -, -, rfl⟩ := Inference.derive_ok_iff.mp derived
    exact ⟨g, rfl⟩

theorem run (orderly : s.Orderly) (run : Run s t) : t.Orderly := by
  induction run with
  | start => exact orderly
  | apply rule subtype _ citable applied ih => exact ih.apply citable applied

theorem framed (orderly : s.Orderly) (frame : s.SameFrame t) (same : t.steps = s.steps) :
    t.Orderly where
  grounded := orderly.grounded.framed same
  supported := by
    rw [same, frame.1]
    exact orderly.supported
  single := by
    rw [same]
    exact orderly.single
  distinct := by
    rw [frame.1]
    exact orderly.distinct

theorem addFact (orderly : s.Orderly) (f : String) : (s.addFact f).Orderly where
  grounded := orderly.grounded.framed rfl
  supported x member g cited := Text.mem_adjoin.mpr (Or.inl (orderly.supported x member g cited))
  single := orderly.single
  distinct := by
    change (Text.adjoin s.facts f).Nodup
    unfold Text.adjoin
    split
    · exact orderly.distinct
    · rename_i new
      have unknown : f ∉ s.facts := by simpa using new
      exact List.nodup_append.mpr ⟨orderly.distinct, by simp, by
        rintro a known b single rfl
        rw [List.mem_singleton.mp single] at known
        exact unknown known⟩

theorem move (orderly : s.Orderly) (move : Moves s t) : t.Orderly := by
  cases move with
  | fact f => exact orderly.addFact f
  | premise p => exact orderly.push (by rintro j ⟨⟩) (by rintro f ⟨⟩) ⟨p, rfl⟩
  | rule r subtype citable => exact orderly.run (applyRule_run citable)
  | entries speaker number entries =>
    refine takeEntries_keeps ?_ ?_ orderly
    · exact fun s t frame same orderly => orderly.framed frame same
    · exact fun s rule subtype inputs step orderly citable made => orderly.apply citable made
  | round maxSteps member => exact orderly.run (expand_run member)

end Orderly

theorem Built.orderly {limit : Option Nat} (built : Built limit s) : s.Orderly := by
  induction built with
  | empty =>
    refine ⟨⟨?_, ?_⟩, ?_, ?_, List.nodup_nil⟩
    · rintro i x ⟨⟩
    · rintro i x ⟨⟩
    · rintro x ⟨⟩
    · rintro x ⟨⟩
  | move _ move ih => exact ih.move move

/-! ### What is added -/

/-- All steps and facts are still there, the steps in their places. -/
structure Grows (s t : Derivation) : Prop where
  steps : s.steps <+: t.steps
  facts : s.facts ⊆ t.facts

theorem Extends.grows (extends_ : Extends s t) : Grows s t :=
  ⟨extends_.steps, by rw [extends_.frame.1]; exact fun _ => id⟩

theorem Run.grows (run : Run s t) : Grows s t := by
  induction run with
  | start => exact ⟨List.prefix_rfl, fun _ => id⟩
  | apply _ _ _ _ _ ih => exact ⟨ih.steps.trans (List.prefix_append _ _), ih.facts⟩

theorem Moves.grows (move : Moves s t) : Grows s t := by
  cases move with
  | fact f => exact ⟨List.prefix_rfl, fun _ known => Text.mem_adjoin.mpr (Or.inl known)⟩
  | premise p => exact ⟨List.prefix_append _ _, fun _ => id⟩
  | rule r subtype citable => exact (applyRule_run citable).grows
  | entries speaker number entries => exact takeEntries_extends.grows
  | round maxSteps member => exact (expand_run member).grows

/-! ### Scenarios -/

theorem Built.start (limit : Option Nat) (resolutions : List (String × Bool))
    (propositions : List String) : Built limit (Scenario.start limit resolutions propositions) := by
  have facts : ∀ (known : List String) {s : Derivation}, Built limit s →
      Built limit (known.foldl addFact s) := by
    intro known
    induction known with
    | nil => exact fun built => built
    | cons f known ih => exact fun built => ih (built.move (.fact f))
  have premises : ∀ (ps : List String) {s : Derivation}, Built limit s →
      Built limit (ps.foldl (fun s p => s.push (Step.proposition p)) s) := by
    intro ps
    induction ps with
    | nil => exact fun built => built
    | cons p ps ih => exact fun built => ih (built.move (.premise p))
  exact premises propositions (facts (Scenario.factsOf resolutions) .empty)

theorem Built.loaded {limit : Option Nat} {speaker : Speaker} {path : String} {source : Source}
    {resolutions : List (String × Bool)} {c : Scenario}
    (loaded : (Scenario.load speaker limit path source resolutions).result = .ok c) :
    Built limit c.derivation := by
  obtain ⟨document, -, loaded⟩ := Scenario.load_ok_iff.mp loaded
  obtain ⟨referenced, propositions, entries, targets, -, -, -, -, -, rfl⟩ :=
    Scenario.ofDocument_ok_iff.mp loaded
  exact (Built.start limit resolutions propositions).move (.entries speaker 1 entries)

end Premise.Derivation
