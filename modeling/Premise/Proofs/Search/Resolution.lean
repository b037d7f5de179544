import Premise.Proofs.Rule.Standing
import Premise.Proofs.Search.Soundness

/-!
Names that are proved and names that are missing. What is proved goes by canonical forms, what is
missing by the texts as they are written, so that a name can be both. Main statement:
`runs_miss_nothing_proved_iff`, that rules lead there exactly from derivations that hold some name in
another spelling alone.
-/
namespace Premise.Derivation

variable {s t : Derivation} {f g name text target : String}

/-- A fact or a step, whatever its provenance, means the text. -/
def Means (s : Derivation) (text : String) : Prop :=
  ∃ f ∈ s.formulas, Formula.canonical s.limit f = .ok text

/-- Each name that is held up to canonical form, or whose negation is, is settled: one of the two is
held as it is written. -/
def Settles (s : Derivation) : Prop :=
  ∀ name text, Literal name text → s.Means text → name ∈ s.formulas ∨ "~" ++ name ∈ s.formulas

/-- No name that is proved, or whose negation is, is reported missing, whatever formula is looked at
and whatever is searched for. -/
def MissesNothingProved (s : Derivation) : Prop :=
  ∀ name text, Literal name text → s.proves? text = .ok true → s.resolvable name = true ∧
    (∀ f names, s.unresolved f = .ok names → name ∉ names) ∧
    ∀ target limits r, s.search target limits = .ok r → name ∉ r.missing

theorem settles_of_written (written : ∀ f ∈ s.formulas, ∀ name text, Literal name text →
    Formula.canonical s.limit f = .ok text → f = text) : s.Settles := by
  rintro name text literal ⟨f, held, means⟩
  cases written f held name text literal means
  rcases literal.2 with rfl | rfl
  · exact Or.inl held
  · exact Or.inr held

/-! ### Missing names -/

/-- A name that is missing for a formula is an atom of it that is not settled. -/
theorem mem_unresolved {names : List String} (missing : s.unresolved f = .ok names)
    (member : name ∈ names) : ∃ atoms, Formula.atomsOf s.limit f = .ok atoms ∧ name ∈ atoms ∧
      s.resolvable name = false := by
  obtain ⟨atoms, mentioned, rfl⟩ := unresolved_eq_ok.mp missing
  obtain ⟨atom, unsettled⟩ := List.mem_filter.mp member
  exact ⟨atoms, mentioned, atom, by simpa using unsettled⟩

theorem search_missing {limits : Limits} {r : SearchResult} (found : s.search target limits = .ok r)
    (member : name ∈ r.missing) : ∃ names, s.unresolved target = .ok names ∧ name ∈ names := by
  rcases search_ends found with ⟨-, rfl⟩ | ⟨names, -, missing, -, rfl⟩ | ⟨-, -, ends, -⟩
  · cases member
  · exact ⟨names, missing, member⟩
  · cases ends <;> cases member

/-- What is reported missing is never more than what cannot be resolved. -/
theorem missesNothingProved_iff : s.MissesNothingProved ↔ ∀ name text, Literal name text →
    s.proves? text = .ok true → s.resolvable name = true := by
  refine ⟨fun never name text literal proved => (never name text literal proved).1, ?_⟩
  intro resolves name text literal proved
  have settled := resolves name text literal proved
  have listed : ∀ f names, s.unresolved f = .ok names → name ∉ names := by
    intro f names missing member
    obtain ⟨-, -, -, unsettled⟩ := mem_unresolved missing member
    cases settled.symm.trans unsettled
  refine ⟨settled, listed, fun target limits r found member => ?_⟩
  obtain ⟨names, missing, inside⟩ := search_missing found member
  exact listed target names missing inside

theorem Settles.missesNothingProved (settles : s.Settles) : s.MissesNothingProved := by
  refine missesNothingProved_iff.mpr fun name text literal proved => ?_
  obtain ⟨f, established, c, means, read⟩ := exists_of_proves? proved
  cases literal.canonical.symm.trans read
  rw [resolvable_iff literal.1]
  exact settles name text literal ⟨f, mem_formulas_of_established established, means⟩

/-! ### Rules -/

/-- A conclusion that means a literal means what an input means, so that a rule leaves no name
unsettled. -/
theorem Settles.apply {rule : Rule} {subtype : Value} {inputs : List Step} {step : Step}
    (settles : s.Settles) (citable : ∀ x ∈ inputs, s.Citable x)
    (applied : rule.apply s.limit inputs subtype = .ok step) : (s.push step).Settles := by
  obtain ⟨i, derived⟩ := Rule.apply_derives applied
  obtain ⟨fs, f, same, concluded, rfl⟩ := Inference.derive_ok_iff.mp derived
  rintro name text literal ⟨g, held, means⟩
  have before : s.Means text := by
    rw [push_formulas] at held
    rcases List.mem_append.mp held with old | fresh
    · exact ⟨g, old, means⟩
    · cases List.mem_singleton.mp fresh
      rcases Inference.conclude_meaning concluded with ⟨op, a, b, rfl⟩ | ⟨a, -, rfl, keeps⟩
      · exact absurd means literal.not_joined
      · obtain ⟨x, input, holds⟩ := Inference.exists_input same (List.mem_singleton_self a)
        exact ⟨a, (citable x input).held (by simp [holds]), (keeps text).mp means⟩
  rw [push_formulas]
  exact (settles name text literal before).imp (List.mem_append_left _) (List.mem_append_left _)

theorem Run.settles (run : Run s t) (settles : s.Settles) : t.Settles := by
  induction run with
  | start => exact settles
  | apply _ _ _ citable applied ih => exact ih.apply citable applied

/-! ### Premises that are established -/

theorem doubled_front (f : String) : ∃ rest, (Inference.doubled f).toList = '~' :: '~' :: rest := by
  unfold Inference.doubled
  split
  · rename_i rest chars
    exact ⟨rest, chars⟩
  · exact ⟨f.toList, Formula.doubled_toList f⟩

theorem doubled_not_literal (literal : Literal name text) : Inference.doubled f ≠ text := by
  rintro rfl
  obtain ⟨rest, front⟩ := doubled_front f
  obtain ⟨named, same | same⟩ := literal
  · rw [same] at front
    exact identifier_unsigned named _ front
  · rw [same, String.toList_append] at front
    exact identifier_unsigned named _ (List.cons.inj front).2

theorem proves?_of_established (unlimited : s.limit = none)
    (readable : ∀ f ∈ s.formulas, Formula.Reads f) (established : f ∈ s.established)
    (means : Formula.canonical none f = .ok text) (own : Formula.canonical none text = .ok text) :
    s.proves? text = .ok true := by
  obtain ⟨b, decided⟩ := proves?_total unlimited (.of_canonical own) readable
  cases b with
  | true => exact decided
  | false =>
    obtain ⟨c, read, different⟩ := proves?_eq_false.mp decided
    obtain ⟨d, read', other⟩ := different f established
    rw [unlimited] at read read'
    cases own.symm.trans read
    cases means.symm.trans read'
    exact absurd rfl other

theorem eq_singleton_of_few {l : List String} (few : l.length ≤ 1) (member : f ∈ l) : l = [f] := by
  cases l with
  | nil => cases member
  | cons g rest =>
    have none : rest = [] := List.eq_nil_of_length_eq_zero (by simpa using few)
    subst none
    rw [List.mem_singleton.mp member]

/-- A held formula that means a literal is established, or becomes so by a double negation. -/
theorem Means.established (means : s.Means text) (unlimited : s.limit = none)
    (readable : ∀ f ∈ s.formulas, Formula.Reads f) (single : ∀ x ∈ s.steps, x.formulas.length ≤ 1)
    (literal : Literal name text) : ∃ t, Run s t ∧ t.proves? text = .ok true ∧
      ∀ f ∈ t.formulas, f ∈ s.formulas ∨ ∃ g, f = Inference.doubled g := by
  obtain ⟨f, held, means⟩ := means
  rw [unlimited] at means
  rcases List.mem_append.mp held with fact | step
  · have proved := proves?_of_established unlimited readable (List.mem_append_left _ fact) means
      literal.canonical
    exact ⟨s, .start, proved, fun g member => Or.inl member⟩
  · obtain ⟨x, member, inside⟩ := List.mem_flatMap.mp step
    have only := eq_singleton_of_few (single x member) inside
    have makes : s.Makes .introduce [x] (Inference.doubled f) :=
      ⟨[f], by simp [member], by simp [only], rfl⟩
    have run : Run s (s.push (Inference.introduce.stepOf [x] (Inference.doubled f))) :=
      .apply _ _ .start (fun y input => Or.inl (List.mem_singleton.mp input ▸ member))
        (makes_applies makes)
    have established : Inference.doubled f ∈
        (s.push (Inference.introduce.stepOf [x] (Inference.doubled f))).established := by
      rw [push_established (Inference.stepOf_derived _ _ _)]
      exact List.mem_append_right _ (List.mem_singleton_self _)
    refine ⟨_, run, proves?_of_established (run.limit.trans unlimited) (run.reads readable)
      established (Inference.canonical_doubled.mpr means) literal.canonical, fun g member => ?_⟩
    rw [push_formulas] at member
    rcases List.mem_append.mp member with old | fresh
    · exact Or.inl old
    · exact Or.inr ⟨f, List.mem_singleton.mp fresh⟩

/-- If each name that is held up to canonical form, itself or its negation, is also held as it is
written, then nowhere that rules lead is a name missing that is proved or whose negation is. Where
nesting has no limit and no step holds two formulas, only such derivations have that property: a
name held in another spelling alone is proved, at once or after a double negation, and missing. -/
theorem runs_miss_nothing_proved_iff (s : Derivation)
    (readable : ∀ f ∈ s.formulas, Formula.Reads f) :
    (s.Settles → ∀ t, Run s t → t.MissesNothingProved) ∧
    (s.limit = none → (∀ x ∈ s.steps, x.formulas.length ≤ 1) →
      (∀ t, Run s t → t.MissesNothingProved) → s.Settles) := by
  refine ⟨fun settles t run => (run.settles settles).missesNothingProved, ?_⟩
  intro unlimited single never name text literal means
  obtain ⟨t, run, proved, fresh⟩ := means.established unlimited readable single literal
  have settled := missesNothingProved_iff.mp (never t run) name text literal proved
  rw [resolvable_iff literal.1] at settled
  have older : ∀ other, Literal name other → other ∈ t.formulas → other ∈ s.formulas := by
    intro other literal' member
    rcases fresh other member with old | ⟨g, rfl⟩
    · exact old
    · exact absurd rfl (doubled_not_literal literal')
  exact settled.imp (older name ⟨literal.1, Or.inl rfl⟩) (older _ ⟨literal.1, Or.inr rfl⟩)

theorem named_premise_never_missing :
    (ofName "p").Settles ∧ ∀ t, Run (ofName "p") t → t.MissesNothingProved := by
  have readable := ofName_readable (show isIdentifier "p" = true by decide)
  have settles : (ofName "p").Settles := by
    refine settles_of_written fun f held name text _ means => ?_
    have only : f = "p" := by simpa [ofName_formulas] using held
    have own : Formula.canonical none "p" = .ok "p" := by cbv
    subst only
    exact Except.ok.inj (own.symm.trans means)
  obtain ⟨never, settled⟩ := runs_miss_nothing_proved_iff (ofName "p") readable
  have missesNothing := never settles
  exact ⟨settled (ofName_limit "p") (by simp [ofName, Step.ofFact]) missesNothing, missesNothing⟩

def doublyNegated : Derivation := { facts := ["~~X"] }

/-- A name that is proved by its double negation, and missing. -/
theorem proved_name_missing :
    (∀ f ∈ doublyNegated.formulas, Formula.Reads f) ∧ isIdentifier "X" = true ∧
    doublyNegated.proves? "X" = .ok true ∧ doublyNegated.resolvable "X" = false ∧
    doublyNegated.unresolved "(X ∧ X)" = .ok ["X"] ∧
    (doublyNegated.search "(X ∧ X)" {}).map (·.missing) = .ok ["X"] := by
  refine ⟨fun f member => ?_, by decide, by cbv, by decide, by cbv, by cbv⟩
  rw [List.mem_singleton.mp member]
  exact ⟨.neg (.neg (.atom "X")), by cbv⟩

end Premise.Derivation
