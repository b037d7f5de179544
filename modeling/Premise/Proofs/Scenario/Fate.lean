import Premise.Proofs.Derivation.Lookup
import Premise.Proofs.Rule.Inference
import Premise.Proofs.Scenario.Document
import Premise.Proofs.Search.Soundness

/-!
What a step entry does. It adds the step that its rule makes of what its sources were found in, or it
adds no step. Main statements: `takeEntry_ok`, and `takeEntries_total` and `takeEntries_through`, which
lead from one entry to all entries of a scenario.
-/
namespace Premise

theorem Logged.result_mapM {α β : Type} (f : α → Logged β) (l : List α) :
    (l.mapM f).result = l.mapM fun x => (f x).result := by
  induction l with
  | nil => rfl
  | cons x l ih =>
    rw [List.mapM_cons, List.mapM_cons, Logged.result_bind]
    cases (f x).result with
    | error e => rfl
    | ok y =>
      change (l.mapM f >>= fun ys => pure (y :: ys)).result = _
      rw [Logged.result_bind, ih]
      rfl

variable {speaker : Speaker} {s t : Derivation} {e : Entry} {f : String} {step : Step}
  {number : Nat} {v : Value}

/-! ### Where a source is found -/

theorem Derivation.locate_found {x : Step} (h : s.locate f = .ok (.found x)) :
    (f ∈ s.facts ∧ x = Step.ofFact f) ∨ (f ∉ s.facts ∧ s.proofStep? f = .ok (some x)) := by
  unfold locate at h
  by_cases fact : f ∈ s.facts
  · rw [if_pos (List.contains_iff_mem.mpr fact)] at h
    cases h
    exact Or.inl ⟨fact, rfl⟩
  · rw [if_neg (by simpa using fact)] at h
    obtain ⟨found, looked, h⟩ := bind_eq_ok.mp h
    cases found with
    | some y =>
      cases h
      exact Or.inr ⟨fact, looked⟩
    | none =>
      obtain ⟨names, -, h⟩ := bind_eq_ok.mp h
      cases names <;> cases h

/-- A source that is no fact is looked up. -/
theorem Derivation.locate_unknown {l : Located} (unknown : f ∉ s.facts)
    (h : s.locate f = .ok l) :
    ∃ r, s.proofStep? f = .ok r ∧ ∀ x, r = some x → l = .found x := by
  unfold locate at h
  rw [if_neg (by simpa using unknown)] at h
  obtain ⟨found, looked, h⟩ := bind_eq_ok.mp h
  refine ⟨found, looked, ?_⟩
  rintro x rfl
  cases h
  rfl

theorem Derivation.locate_fact (fact : f ∈ s.facts) : s.locate f = .ok (.found (Step.ofFact f)) := by
  unfold locate
  rw [if_pos (List.contains_iff_mem.mpr fact)]
  rfl

theorem Derivation.locate_names {l : Located} (located : s.locate f = .ok l) (lost : ∀ x, l ≠ .found x) :
    s.unresolved f = .ok l.names := by
  unfold locate at located
  split at located
  · cases located
    exact absurd rfl (lost _)
  · obtain ⟨r, looked, located⟩ := bind_eq_ok.mp located
    cases r with
    | some x =>
      cases located
      exact absurd rfl (lost _)
    | none =>
      obtain ⟨names, wanted, located⟩ := bind_eq_ok.mp located
      cases names <;> cases located <;> exact wanted

namespace Located

theorem filterMap_found (inputs : List Step) : (inputs.map found).filterMap step? = inputs := by
  simp [List.filterMap_map, Function.comp_def, step?]

theorem flatMap_found (inputs : List Step) : (inputs.map found).flatMap names = [] := by
  simp [names]

theorem eq_found_of_length {located : List Located}
    (whole : (located.filterMap step?).length = located.length) :
    located = (located.filterMap step?).map found := by
  have all := List.filterMap_length_eq_length.mp whole
  clear whole
  induction located with
  | nil => rfl
  | cons l located ih =>
    obtain ⟨first, rest⟩ := List.forall_mem_cons.mp all
    cases l with
    | found x =>
      rw [List.filterMap_cons]
      exact congrArg (found x :: ·) (ih rest)
    | unsettled names => cases first
    | nowhere => cases first

end Located

/-! ### Fates -/

namespace Entry

/-- The sources were all found, and the rule makes this step of what they were found in. -/
def Applies (s : Derivation) (e : Entry) (step : Step) : Prop :=
  ∃ inputs, e.sources.mapM s.locate = .ok (inputs.map .found) ∧ e.infer s inputs = .ok step

theorem infer_ok_iff {inputs : List Step} : e.infer s inputs = .ok step ↔
    ∃ rule i, Rule.ofName? e.rule = .ok rule ∧ inputs.length = rule.arity ∧
      rule.inference (rule.orDefault e.subtype) = .ok i ∧ i.derive s.limit inputs = .ok step := by
  unfold infer
  rw [bind_eq_ok]
  simp only [mapError_eq_ok, Rule.apply_ok_iff]
  constructor
  · rintro ⟨rule, named, count, i, meant, derived⟩
    exact ⟨rule, i, named, count, meant, derived⟩
  · rintro ⟨rule, i, named, count, meant, derived⟩
    exact ⟨rule, named, count, i, meant, derived⟩

theorem found_citable {inputs : List Step}
    (found : e.sources.mapM s.locate = .ok (inputs.map .found)) : ∀ x ∈ inputs, s.Citable x := by
  intro x member
  obtain ⟨f, -, located⟩ := mem_of_mapM found (.found x) (List.mem_map_of_mem member)
  rcases Derivation.locate_found located with ⟨fact, rfl⟩ | ⟨-, looked⟩
  · exact Or.inr ⟨f, fact, rfl⟩
  · obtain ⟨k, earliest⟩ := Derivation.proofStep?_some looked
    exact Or.inl (List.mem_of_getElem? earliest.here)

/-- An entry that applies is a rule application to steps that can be cited. -/
theorem Applies.cites (applies : e.Applies s step) : ∃ (inputs : List Step) (rule : Rule),
    (∀ x ∈ inputs, s.Citable x) ∧ rule.apply s.limit inputs e.subtype = .ok step := by
  obtain ⟨inputs, found, inferred⟩ := applies
  obtain ⟨rule, -, applied⟩ := bind_eq_ok.mp inferred
  exact ⟨inputs, rule, found_citable found, applied⟩

theorem locate_result (speaker : Speaker) (s : Derivation) (e : Entry) (f : String) :
    (e.locate speaker s f).result = (s.locate f).mapError .formula := by
  unfold locate
  cases s.locate f with
  | error error => rfl
  | ok located => cases located <;> rfl

theorem conclude_result (speaker : Speaker) (s : Derivation) (e : Entry) (inputs : List Step) :
    (e.conclude speaker s inputs).result = match e.infer s inputs with
      | .ok step => .ok (.applied step)
      | .error (.formula error) => .error (.formula error)
      | .error (.rule error) => .ok (.skipped (e.record [] (some error.message))) := by
  unfold conclude
  cases e.infer s inputs with
  | ok step => rfl
  | error error => cases error <;> rfl

theorem fate_result (speaker : Speaker) (s : Derivation) (e : Entry) :
    (e.fate speaker s).result = (do
      let located ← (e.sources.mapM s.locate).mapError .formula
      let missing := located.flatMap (·.names)
      if missing.isEmpty then
        let inputs := located.filterMap (·.step?)
        if inputs.length = e.sources.length then (e.conclude speaker s inputs).result
        else .ok .ignored
      else .ok (.skipped (e.record missing none))) := by
  unfold fate
  rw [Logged.result_bind, Logged.result_mapM]
  simp only [locate_result, mapM_mapError]
  cases e.sources.mapM s.locate with
  | error error => rfl
  | ok located =>
    simp only [Except.mapError, bind, Except.bind]
    split
    · split
      · rfl
      · rfl
    · rfl

/-- What an entry comes to, by where its sources were found. -/
inductive Decided (s : Derivation) (e : Entry) : List Located → Fate → Prop where
  | wanting {located : List Located} : located.flatMap Located.names ≠ [] →
      Decided s e located (.skipped (e.record (located.flatMap Located.names) none))
  | ignored {located : List Located} : located.flatMap Located.names = [] →
      (∃ l ∈ located, ∀ x, l ≠ .found x) → Decided s e located .ignored
  | applied {inputs : List Step} {step : Step} : e.infer s inputs = .ok step →
      Decided s e (inputs.map .found) (.applied step)
  | refused {inputs : List Step} {error : RuleError} : e.infer s inputs = .error (.rule error) →
      Decided s e (inputs.map .found) (.skipped (e.record [] (some error.message)))

theorem fate_decided {fate : Fate} (h : (e.fate speaker s).result = .ok fate) :
    ∃ located, e.sources.mapM s.locate = .ok located ∧ e.Decided s located fate := by
  rw [fate_result] at h
  obtain ⟨located, found, h⟩ := bind_eq_ok.mp h
  have found := mapError_eq_ok.mp found
  refine ⟨located, found, ?_⟩
  dsimp only at h
  split at h
  · rename_i none
    have none : located.flatMap Located.names = [] := by simpa using none
    split at h
    · rename_i count
      have whole := Located.eq_found_of_length (count.trans (mapM_length found).symm)
      rw [whole]
      rw [conclude_result] at h
      split at h <;> cases h
      · rename_i inferred
        exact .applied inferred
      · rename_i failed
        exact .refused failed
    · rename_i count
      cases h
      refine .ignored none ?_
      by_contra all
      push Not at all
      apply count
      rw [← mapM_length found, List.filterMap_length_eq_length]
      intro l member
      obtain ⟨x, rfl⟩ := all l member
      rfl
  · rename_i missing
    cases h
    exact .wanting (by simpa using missing)

theorem fate_applied (speaker : Speaker) (applies : e.Applies s step) :
    (e.fate speaker s).result = .ok (.applied step) := by
  obtain ⟨inputs, found, inferred⟩ := applies
  have count : inputs.length = e.sources.length := by
    have lengths := mapM_length found
    rwa [List.length_map] at lengths
  rw [fate_result, found]
  change (if ((inputs.map Located.found).flatMap Located.names).isEmpty then _ else _) = _
  rw [Located.flatMap_found, Located.filterMap_found]
  change (if inputs.length = e.sources.length then _ else _) = _
  rw [if_pos count, conclude_result, inferred]

theorem fate_ok {fate : Fate} (h : (e.fate speaker s).result = .ok fate) :
    (∃ step, fate = .applied step ∧ e.Applies s step) ∨ fate = .ignored ∨
      ∃ record, fate = .skipped record := by
  obtain ⟨located, found, decided⟩ := fate_decided h
  cases decided with
  | wanting => exact Or.inr (Or.inr ⟨_, rfl⟩)
  | ignored => exact Or.inr (Or.inl rfl)
  | applied inferred => exact Or.inl ⟨_, rfl, _, found, inferred⟩
  | refused => exact Or.inr (Or.inr ⟨_, rfl⟩)

theorem fate_missing (speaker : Speaker) {located : List Located}
    (each : e.sources.mapM s.locate = .ok located)
    (missing : located.flatMap Located.names ≠ []) :
    (e.fate speaker s).result =
      .ok (.skipped (e.record (located.flatMap Located.names) none)) := by
  rw [fate_result, each]
  simp only [Except.mapError, bind, Except.bind]
  rw [if_neg (by simpa using missing)]

/-- An entry is skipped for want of facts exactly where sources have atoms that are not settled. -/
theorem fate_skipped {record : Skipped} (h : (e.fate speaker s).result = .ok (.skipped record))
    (missing : record.missing ≠ []) : ∃ located, e.sources.mapM s.locate = .ok located ∧
      record = e.record (located.flatMap Located.names) none := by
  obtain ⟨located, found, decided⟩ := fate_decided h
  cases decided with
  | wanting => exact ⟨located, found, rfl⟩
  | refused => exact absurd rfl missing

theorem fate_located {fate : Fate} (h : (e.fate speaker s).result = .ok fate) :
    ∃ located, e.sources.mapM s.locate = .ok located := by
  obtain ⟨located, found, -⟩ := fate_decided h
  exact ⟨located, found⟩

theorem fate_total (speaker : Speaker) {located : List Located}
    (found : e.sources.mapM s.locate = .ok located)
    (sound : ∀ inputs error, located = inputs.map .found →
      e.infer s inputs ≠ .error (.formula error)) : ∃ fate, (e.fate speaker s).result = .ok fate := by
  rw [fate_result, found]
  simp only [Except.mapError, bind, Except.bind]
  split
  · split
    · rename_i count
      have whole := Located.eq_found_of_length (count.trans (mapM_length found).symm)
      rw [conclude_result]
      split
      · exact ⟨_, rfl⟩
      · rename_i error failed
        exact absurd failed (sound _ error whole)
      · exact ⟨_, rfl⟩
    · exact ⟨_, rfl⟩
  · exact ⟨_, rfl⟩

end Entry

/-! ### Entries -/

namespace Derivation

/-- A skipped entry is recorded, and the names it wants are tracked. -/
theorem settle_record (s : Derivation) (record : Skipped) : ∃ new,
    (Fate.skipped record).settle s =
      { s with missing := s.missing ++ new, skipped := s.skipped ++ [record] } ∧
    ∀ name, name ∈ new ↔ name ∈ record.missing ∧ name ∉ s.missing := by
  obtain ⟨new, tracked, -, named⟩ := trackAll_eq (s.skip record) record.missing
  exact ⟨new, tracked, named⟩

theorem settle_steps (fate : Fate) {x : Step} : x ∈ (fate.settle s).steps ↔
    x ∈ s.steps ∨ ∃ y, fate = .applied y ∧ x = s.number y := by
  cases fate with
  | ignored => simp [Fate.settle]
  | applied y => simp [Fate.settle]
  | skipped record =>
    obtain ⟨new, settled, -⟩ := settle_record s record
    simp [settled]

theorem settle_missing (fate : Fate) {name : String} : name ∈ (fate.settle s).missing ↔
    name ∈ s.missing ∨ ∃ record, fate = .skipped record ∧ name ∈ record.missing := by
  cases fate with
  | ignored => simp [Fate.settle]
  | applied y => simp [Fate.settle, push]
  | skipped record => simp [Fate.settle, mem_trackAll, skip]

theorem settle_skipped (fate : Fate) {record : Skipped} : record ∈ (fate.settle s).skipped ↔
    record ∈ s.skipped ∨ fate = .skipped record := by
  cases fate with
  | ignored => simp [Fate.settle]
  | applied y => simp [Fate.settle, push]
  | skipped entry =>
    obtain ⟨new, settled, -⟩ := settle_record s entry
    simp [settled, eq_comm]

/-- An entry that is taken adds the step that it makes, or no step at all. -/
theorem takeEntry_ok (h : (s.takeEntry speaker number v).result = .ok t) :
    t.steps = s.steps ∨ ∃ e step, (Entry.read speaker number v).result = .ok (some e) ∧
      e.Applies s step ∧ t = s.push step := by
  rcases takeEntry_ok_iff.mp h with ⟨-, rfl⟩ | ⟨e, fate, read, decided, rfl⟩
  · exact Or.inl rfl
  · rcases Entry.fate_ok decided with ⟨step, rfl, applies⟩ | rfl | ⟨record, rfl⟩
    · exact Or.inr ⟨e, step, read, applies, rfl⟩
    · exact Or.inl rfl
    · obtain ⟨new, settled, -⟩ := settle_record s record
      rw [settled]
      exact Or.inl rfl

theorem takeEntry_applied (speaker : Speaker)
    (read : (Entry.read speaker number v).result = .ok (some e)) (applies : e.Applies s step) :
    (s.takeEntry speaker number v).result = .ok (s.push step) :=
  takeEntry_ok_iff.mpr (Or.inr ⟨e, _, read, Entry.fate_applied speaker applies, rfl⟩)

/-- The sources of an entry that is taken were all looked for without failure. -/
theorem takeEntry_locates (read : (Entry.read speaker number v).result = .ok (some e))
    (h : (s.takeEntry speaker number v).result = .ok t) : ∀ f ∈ e.sources, ∃ l, s.locate f = .ok l := by
  rcases takeEntry_ok_iff.mp h with ⟨unread, -⟩ | ⟨e', fate, read', decided, -⟩
  · rw [read] at unread
    cases unread
  · cases read.symm.trans read'
    obtain ⟨located, each⟩ := Entry.fate_located decided
    intro f member
    obtain ⟨l, -, looked⟩ := mapM_ok_mem each f member
    exact ⟨l, looked⟩

theorem takeEntries_total {P : Derivation → Prop} {entries : List Value}
    (keep : ∀ v ∈ entries, ∀ number t, P t →
      ∃ u, (t.takeEntry speaker number v).result = .ok u ∧ P u)
    (start : P s) : (s.takeEntries speaker number entries).2.result = .ok () := by
  induction entries generalizing s number with
  | nil => rfl
  | cons v rest ih =>
    obtain ⟨first, later⟩ := List.forall_mem_cons.mp keep
    obtain ⟨t, outcome, kept⟩ := first number s start
    exact takeEntries_done_iff.mpr ⟨t, outcome, ih later kept⟩

/-- What depends on steps, facts and the limit alone, and is kept by rule applications, is kept by
entries. -/
theorem takeEntry_keeps {P : Derivation → Prop}
    (framed : ∀ s t : Derivation, s.SameFrame t → t.steps = s.steps → P s → P t)
    (applied : ∀ (s : Derivation) (rule : Rule) (subtype : Value) (inputs : List Step) (step : Step),
      P s → (∀ x ∈ inputs, s.Citable x) → rule.apply s.limit inputs subtype = .ok step →
        P (s.push step))
    (start : P s) (h : (s.takeEntry speaker number v).result = .ok t) : P t := by
  rcases takeEntry_ok h with same | ⟨e, step, -, applies, rfl⟩
  · exact framed s t (takeEntry_frame h) same start
  · obtain ⟨inputs, rule, citable, made⟩ := applies.cites
    exact applied s rule e.subtype inputs step start citable made

theorem takeEntries_keeps {P : Derivation → Prop} {entries : List Value}
    (framed : ∀ s t : Derivation, s.SameFrame t → t.steps = s.steps → P s → P t)
    (applied : ∀ (s : Derivation) (rule : Rule) (subtype : Value) (inputs : List Step) (step : Step),
      P s → (∀ x ∈ inputs, s.Citable x) → rule.apply s.limit inputs subtype = .ok step →
        P (s.push step))
    (start : P s) : P (s.takeEntries speaker number entries).1 :=
  takeEntries_invariant (fun _ _ _ _ _ kept outcome => takeEntry_keeps framed applied kept outcome)
    start

/-! ### The state at one entry -/

/-- Facts and limit are the same, and all steps are still there. -/
structure Extends (s t : Derivation) : Prop where
  frame : s.SameFrame t
  steps : s.steps <+: t.steps

theorem Extends.refl (s : Derivation) : Extends s s :=
  ⟨⟨rfl, rfl⟩, List.prefix_rfl⟩

theorem Extends.trans {u : Derivation} (left : Extends s t) (right : Extends t u) : Extends s u :=
  ⟨⟨right.frame.1.trans left.frame.1, right.frame.2.trans left.frame.2⟩,
    left.steps.trans right.steps⟩

theorem takeEntry_extends (h : (s.takeEntry speaker number v).result = .ok t) : Extends s t := by
  refine ⟨takeEntry_frame h, ?_⟩
  rcases takeEntry_ok h with same | ⟨e, step, -, -, rfl⟩
  · exact same ▸ List.prefix_rfl
  · exact List.prefix_append _ _

theorem takeEntries_extends {entries : List Value} :
    Extends s (s.takeEntries speaker number entries).1 :=
  takeEntries_invariant
    (fun _ _ _ _ _ grown outcome => grown.trans (takeEntry_extends outcome)) (.refl s)

/-- Where no entry fails, each is taken in some state on the way. -/
theorem takeEntries_through {P : Derivation → Prop} {entries : List Value}
    (keep : ∀ v ∈ entries, ∀ number t u, P t → (t.takeEntry speaker number v).result = .ok u → P u)
    (start : P s) (outcome : (s.takeEntries speaker number entries).2.result = .ok ())
    (member : v ∈ entries) : ∃ k t u, P t ∧ (t.takeEntry speaker k v).result = .ok u ∧
      Extends u (s.takeEntries speaker number entries).1 := by
  induction entries generalizing s number with
  | nil => cases member
  | cons w rest ih =>
    obtain ⟨first, later⟩ := List.forall_mem_cons.mp keep
    obtain ⟨t, taken, done⟩ := takeEntries_done_iff.mp outcome
    rw [(takeEntries_go taken).1]
    rcases List.mem_cons.mp member with rfl | behind
    · exact ⟨number, s, t, start, taken, takeEntries_extends⟩
    · exact ih later (first number s t start taken) done behind

end Derivation

end Premise
