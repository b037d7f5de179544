import Premise.Proofs.Extraction.Lineage

/-!
The course of a scenario. Each entry that names a list of sources adds one step, or leaves one record
of why it did not, or changes nothing because a source is nowhere although nothing is missing for it;
whatever a rule has against an entry ends in a record. Main statements: `takeEntry_fate`, what one
entry does, and `entries_have_one_fate`, what all of them do.
-/
namespace Premise

variable {speaker : Speaker} {s t : Derivation} {e : Entry} {f : String} {number : Nat} {v : Value}
  {entries : List Value}

/-! ### Sources -/

namespace Derivation

/-- The source is no fact, and no step holds it. -/
def Lacks (s : Derivation) (f : String) : Prop :=
  f ∉ s.facts ∧ ∀ x ∈ s.steps, ¬ x.Holds s.limit f

/-- What stands for a source: the fact itself, or else the earliest step that holds it. -/
inductive Finds (s : Derivation) (f : String) : Step → Prop where
  | fact : f ∈ s.facts → Finds s f (Step.ofFact f)
  | step {k : Nat} {x : Step} : f ∉ s.facts → s.Earliest f k x → Finds s f x

/-- What a step made from the source records of it. -/
inductive Records (s : Derivation) (f : String) : Ref → Prop where
  | fact : f ∈ s.facts → Records s f (.fact f)
  | step {k : Nat} {x : Step} {r : Ref} : f ∉ s.facts → s.Earliest f k x → x.lineage? = some r →
      (s.Indexed → r = .step k) → Records s f r

/-- The name is an atom of the source that is not settled. -/
def Wants (s : Derivation) (f name : String) : Prop :=
  ∃ atoms, Formula.atomsOf s.limit f = .ok atoms ∧ name ∈ atoms ∧ s.resolvable name = false

/-- The source can be read, and its atoms are all settled. -/
def Resolves (s : Derivation) (f : String) : Prop :=
  ∃ atoms, Formula.atomsOf s.limit f = .ok atoms ∧ ∀ name ∈ atoms, s.resolvable name = true

theorem locate_finds {x : Step} (located : s.locate f = .ok (.found x)) : s.Finds f x := by
  rcases locate_found located with ⟨fact, rfl⟩ | ⟨unknown, looked⟩
  · exact .fact fact
  · obtain ⟨k, earliest⟩ := proofStep?_some looked
    exact .step unknown earliest

theorem Finds.not_lacks {x : Step} (finds : s.Finds f x) : ¬ s.Lacks f := by
  intro lacks
  cases finds with
  | fact known => exact lacks.1 known
  | step _ earliest => exact lacks.2 x (List.mem_of_getElem? earliest.here) earliest.holds

theorem locate_lacks {l : Located} (located : s.locate f = .ok l) :
    s.Lacks f ↔ ∀ x, l ≠ .found x := by
  constructor
  · intro lacks x found
    rw [found] at located
    exact (locate_finds located).not_lacks lacks
  · intro lost
    have unknown : f ∉ s.facts := by
      intro fact
      cases (locate_fact fact).symm.trans located
      exact lost _ rfl
    obtain ⟨r, looked, found⟩ := locate_unknown unknown located
    cases r with
    | none => exact ⟨unknown, proofStep?_none looked⟩
    | some x => exact absurd (found x rfl) (lost x)

theorem Finds.records {x : Step} {r : Ref} (finds : s.Finds f x) (recorded : x.lineage? = some r) :
    s.Records f r := by
  cases finds with
  | fact known =>
    cases recorded
    exact .fact known
  | @step k _ unknown earliest =>
    refine .step unknown earliest recorded fun indexed => ?_
    rw [Step.lineage?, indexed k x earliest.here] at recorded
    exact (Option.some.inj recorded).symm

theorem records_of_finds {sources : List String} {inputs : List Step}
    (finds : List.Forall₂ s.Finds sources inputs) (single : ∀ x ∈ inputs, ∃ g, x.formulas = [g]) :
    List.Forall₂ s.Records sources (inputs.filterMap Step.lineage?) := by
  induction finds with
  | nil => exact .nil
  | @cons f x sources inputs first _ ih =>
    obtain ⟨here, later⟩ := List.forall_mem_cons.mp single
    -- A step of one formula is never left out, so that the records stand source by source.
    have recorded : ∃ r, x.lineage? = some r := by
      obtain ⟨g, holds⟩ := here
      rw [Step.lineage?, Step.formula?, holds]
      cases x.index with
      | none => exact ⟨_, rfl⟩
      | some i => exact ⟨_, rfl⟩
    obtain ⟨r, recorded⟩ := recorded
    rw [List.filterMap_cons_some recorded]
    exact .cons (first.records recorded) (ih later)

theorem mem_names {l : Located} {name : String} (located : s.locate f = .ok l) :
    name ∈ l.names ↔ s.Lacks f ∧ s.Wants f name := by
  rw [locate_lacks located]
  constructor
  · intro member
    have lost : ∀ x, l ≠ .found x := by
      rintro x rfl
      cases member
    obtain ⟨atoms, named, missing⟩ := unresolved_eq_ok.mp (locate_names located lost)
    rw [missing, List.mem_filter] at member
    exact ⟨lost, atoms, named, member.1, by simpa using member.2⟩
  · rintro ⟨lost, atoms, named, inside, unsettled⟩
    obtain ⟨atoms', named', missing⟩ := unresolved_eq_ok.mp (locate_names located lost)
    cases named.symm.trans named'
    rw [missing, List.mem_filter]
    exact ⟨inside, by simpa using unsettled⟩

theorem resolves_of_names {l : Located} (located : s.locate f = .ok l) (lacks : s.Lacks f)
    (none : l.names = []) : s.Resolves f := by
  have lost := (locate_lacks located).mp lacks
  obtain ⟨atoms, named, missing⟩ := unresolved_eq_ok.mp (locate_names located lost)
  rw [none, eq_comm, List.filter_eq_nil_iff] at missing
  exact ⟨atoms, named, fun name member => by simpa using missing name member⟩

end Derivation

/-! ### One entry -/

/-- The value is a mapping with this list of sources. -/
structure Entry.Describes (e : Entry) (number : Nat) (v : Value) : Prop where
  mapping : ∃ entries, v = .map entries
  sources : v.get "from" = .list (e.sources.map .str)
  number : e.number = number
  rule : e.rule = v.get "rule"
  subtype : e.subtype = v.get "subtype"

namespace Derivation

/-- What a value does as the entry of a number. Only `applied` adds a step, and only `wanting` and
`refused` leave a record, one each. -/
inductive OneFate (s : Derivation) (number : Nat) (v : Value) : Derivation → Prop where
  | passed : (∀ entries items, v = .map entries → v.get "from" ≠ .list items) →
      OneFate s number v s
  | applied {e : Entry} {inputs : List Step} {step : Step} : e.Describes number v →
      List.Forall₂ s.Finds e.sources inputs → e.infer s inputs = .ok step →
      List.Forall₂ s.Records e.sources step.antecedents → OneFate s number v (s.push step)
  | wanting {e : Entry} {names new : List String} : e.Describes number v → names ≠ [] →
      (∀ name, name ∈ names ↔ ∃ f ∈ e.sources, s.Lacks f ∧ s.Wants f name) →
      (∀ name, name ∈ new ↔ name ∈ names ∧ name ∉ s.missing) →
      OneFate s number v { s with
        missing := s.missing ++ new, skipped := s.skipped ++ [e.record names none] }
  | refused {e : Entry} {inputs : List Step} {error : RuleError} : e.Describes number v →
      List.Forall₂ s.Finds e.sources inputs → e.infer s inputs = .error (.rule error) →
      OneFate s number v (s.skip (e.record [] (some error.message)))
  | ignored {e : Entry} : e.Describes number v → (∃ f ∈ e.sources, s.Lacks f) →
      (∀ f ∈ e.sources, s.Lacks f → s.Resolves f) → OneFate s number v s

end Derivation

namespace Entry

theorem read_describes (read : (Entry.read speaker number v).result = .ok (some e)) :
    e.Describes number v := by
  obtain ⟨sources, named, rfl⟩ := read_some_iff.mp read
  obtain ⟨mapping, listed⟩ := Document.sources?_some_iff.mp named
  exact ⟨mapping, listed, rfl, rfl, rfl⟩

theorem finds_of_located {inputs : List Step}
    (found : e.sources.mapM s.locate = .ok (inputs.map .found)) :
    List.Forall₂ s.Finds e.sources inputs := by
  have each := mapM_ok_iff.mp found
  rw [List.forall₂_map_right_iff] at each
  exact each.imp fun f x located => Derivation.locate_finds located

theorem infer_records {inputs : List Step} {step : Step}
    (finds : List.Forall₂ s.Finds e.sources inputs) (inferred : e.infer s inputs = .ok step) :
    List.Forall₂ s.Records e.sources step.antecedents := by
  obtain ⟨rule, i, -, -, -, derived⟩ := infer_ok_iff.mp inferred
  obtain ⟨fs, g, same, -, rfl⟩ := Inference.derive_ok_iff.mp derived
  refine Derivation.records_of_finds finds fun x input => ?_
  have single : x.formulas ∈ fs.map ([·]) := by
    rw [← same]
    exact List.mem_map_of_mem input
  obtain ⟨h, -, holds⟩ := List.mem_map.mp single
  exact ⟨h, holds.symm⟩

end Entry

namespace Derivation

theorem OneFate.of_decided {located : List Located} {fate : Fate} (described : e.Describes number v)
    (found : e.sources.mapM s.locate = .ok located) (decided : e.Decided s located fate) :
    OneFate s number v (fate.settle s) := by
  cases decided with
  | wanting missing =>
    obtain ⟨new, settled, fresh⟩ := settle_record s (e.record (located.flatMap Located.names) none)
    rw [settled]
    refine .wanting described missing (fun name => ?_) fresh
    rw [List.mem_flatMap]
    constructor
    · rintro ⟨l, inside, member⟩
      obtain ⟨f, source, looked⟩ := mem_of_mapM found l inside
      exact ⟨f, source, (mem_names looked).mp member⟩
    · rintro ⟨f, source, wanted⟩
      obtain ⟨l, inside, looked⟩ := mapM_ok_mem found f source
      exact ⟨l, inside, (mem_names looked).mpr wanted⟩
  | ignored none lost =>
    obtain ⟨l, inside, lost⟩ := lost
    obtain ⟨f, source, looked⟩ := mem_of_mapM found l inside
    refine .ignored described ⟨f, source, (locate_lacks looked).mpr lost⟩ fun g source' lacks => ?_
    obtain ⟨k, inside', looked'⟩ := mapM_ok_mem found g source'
    exact resolves_of_names looked' lacks (List.flatMap_eq_nil_iff.mp none k inside')
  | applied inferred =>
    have finds := Entry.finds_of_located found
    exact .applied described finds inferred (Entry.infer_records finds inferred)
  | refused failed => exact .refused described (Entry.finds_of_located found) failed

theorem takeEntry_fate (taken : (s.takeEntry speaker number v).result = .ok t) :
    OneFate s number v t := by
  rcases takeEntry_ok_iff.mp taken with ⟨unread, rfl⟩ | ⟨e, fate, read, outcome, rfl⟩
  · exact .passed (Document.sources?_none_iff.mp (Entry.read_none_iff.mp unread))
  · obtain ⟨located, found, decided⟩ := Entry.fate_decided outcome
    exact .of_decided (Entry.read_describes read) found decided

end Derivation

/-! ### Failures -/

theorem Document.sources?_error {failure : Failure} (failed : sources? number v = .error failure) :
    ∃ e, failure = .scenario e := by
  unfold sources? at failed
  split at failed
  · have failed := map_eq_error.mp failed
    rw [formulaList] at failed
    obtain ⟨e, -, wrapped⟩ := mapError_eq_error.mp failed
    exact ⟨e, wrapped⟩
  · cases failed

theorem Entry.fate_error {failure : Failure} (failed : (e.fate speaker s).result = .error failure) :
    ∃ e, failure = .formula e := by
  rw [fate_result] at failed
  rcases bind_eq_error.mp failed with unread | ⟨located, -, failed⟩
  · obtain ⟨e, -, wrapped⟩ := mapError_eq_error.mp unread
    exact ⟨e, wrapped⟩
  · dsimp only at failed
    split at failed
    · split at failed
      · -- What the rule itself refuses is no failure: the entry is skipped.
        rw [conclude_result] at failed
        split at failed <;> cases failed
        exact ⟨_, rfl⟩
      · cases failed
    · cases failed

namespace Derivation

theorem takeEntry_error {failure : Failure}
    (failed : (s.takeEntry speaker number v).result = .error failure) :
    (∃ e, failure = .scenario e) ∨ ∃ e, failure = .formula e := by
  unfold takeEntry at failed
  rw [Logged.result_bind] at failed
  rcases bind_eq_error.mp failed with unread | ⟨entry, -, failed⟩
  · rw [Entry.read_result] at unread
    exact Or.inl (Document.sources?_error (map_eq_error.mp unread))
  · cases entry with
    | none => cases failed
    | some e =>
      dsimp only at failed
      rw [Logged.result_bind] at failed
      rcases bind_eq_error.mp failed with undecided | ⟨fate, -, settled⟩
      · exact Or.inr (Entry.fate_error undecided)
      · cases settled

theorem takeEntries_error {failure : Failure}
    (failed : (s.takeEntries speaker number entries).2.result = .error failure) :
    (∃ e, failure = .scenario e) ∨ ∃ e, failure = .formula e := by
  induction entries generalizing s number with
  | nil => cases failed
  | cons v rest ih =>
    cases taken : (s.takeEntry speaker number v).result with
    | error failure' =>
      cases (takeEntries_stop taken).2.symm.trans failed
      exact takeEntry_error taken
    | ok t =>
      rw [(takeEntries_go taken).2] at failed
      exact ih failed

/-! ### All entries -/

/-- The state behind the first entries, which are numbered from one. -/
def course (speaker : Speaker) (s : Derivation) (entries : List Value) (k : Nat) : Derivation :=
  (s.takeEntries speaker 1 (entries.take k)).1

/-- Where no entry fails, each is taken in the state that those before it lead to. -/
theorem takeEntries_at {k : Nat} (done : (s.takeEntries speaker number entries).2.result = .ok ())
    (here : entries[k]? = some v) :
    ((s.takeEntries speaker number (entries.take k)).1.takeEntry speaker (number + k) v).result =
      .ok (s.takeEntries speaker number (entries.take (k + 1))).1 := by
  induction entries generalizing s number k with
  | nil => cases here
  | cons w rest ih =>
    obtain ⟨t, taken, later⟩ := takeEntries_done_iff.mp done
    cases k with
    | zero =>
      cases here
      rw [List.take_succ_cons, (takeEntries_go taken).1]
      exact taken
    | succ k =>
      have further := ih later here
      rw [Nat.add_right_comm, Nat.add_assoc] at further
      rw [List.take_succ_cons, List.take_succ_cons, (takeEntries_go taken).1,
        (takeEntries_go taken).1]
      exact further

theorem OneFate.recorded (fate : OneFate s number v t) : t.skipped = s.skipped ∨
    ∃ record, t.skipped = s.skipped ++ [record] ∧ record.number = number ∧
      (record.missing ≠ [] ↔ record.error = none) := by
  cases fate with
  | passed => exact Or.inl rfl
  | ignored => exact Or.inl rfl
  | applied => exact Or.inl rfl
  | wanting described missing => exact Or.inr ⟨_, rfl, described.number, iff_of_true missing rfl⟩
  | refused described =>
    refine Or.inr ⟨_, rfl, described.number, iff_of_false ?_ ?_⟩
    · exact fun missing => missing rfl
    · rintro ⟨⟩

/-- Records are in the order of their entries, wherever the entries stop. -/
theorem takeEntries_records (speaker : Speaker) (s : Derivation) (number : Nat)
    (entries : List Value) : ∃ records,
      (s.takeEntries speaker number entries).1.skipped = s.skipped ++ records ∧
      records.Pairwise (·.number < ·.number) ∧
      ∀ r ∈ records, number ≤ r.number ∧ (r.missing ≠ [] ↔ r.error = none) := by
  induction entries generalizing s number with
  | nil => exact ⟨[], by simp [takeEntries], .nil, by simp⟩
  | cons v rest ih =>
    cases taken : (s.takeEntry speaker number v).result with
    | error failure =>
      rw [(takeEntries_stop taken).1]
      exact ⟨[], by simp, .nil, by simp⟩
    | ok t =>
      rw [(takeEntries_go taken).1]
      obtain ⟨records, appended, ordered, each⟩ := ih t (number + 1)
      have later : ∀ r ∈ records, number ≤ r.number ∧ (r.missing ≠ [] ↔ r.error = none) := by
        intro r member
        obtain ⟨behind, wants⟩ := each r member
        exact ⟨by omega, wants⟩
      rcases (takeEntry_fate taken).recorded with same | ⟨record, first, numbered, wants⟩
      · exact ⟨records, by rw [appended, same], ordered, later⟩
      · refine ⟨record :: records, by simp [appended, first], ?_, ?_⟩
        · refine List.pairwise_cons.mpr ⟨fun r member => ?_, ordered⟩
          have behind := (each r member).1
          omega
        · exact List.forall_mem_cons.mpr ⟨⟨by omega, wants⟩, later⟩

theorem course_indexed (indexed : s.Indexed) (k : Nat) : (s.course speaker entries k).Indexed := by
  refine takeEntries_invariant (fun v _ number t u indexed taken => ?_) indexed
  rcases takeEntry_ok taken with same | ⟨e, step, -, -, rfl⟩
  · unfold Indexed
    rw [same]
    exact indexed
  · exact indexed.push step

/-- Entries fail on texts alone, never on a rule. Where they do not fail, each of them has its fate in
the state that those before it lead to, and the records that are left have the numbers of their
entries, in order. -/
theorem entries_have_one_fate (speaker : Speaker) (s : Derivation) (entries : List Value) :
    (∀ failure, (s.takeEntries speaker 1 entries).2.result = .error failure →
      (∃ e, failure = .scenario e) ∨ ∃ e, failure = .formula e) ∧
    ((s.takeEntries speaker 1 entries).2.result = .ok () →
      (∀ k v, entries[k]? = some v →
        OneFate (s.course speaker entries k) (k + 1) v (s.course speaker entries (k + 1))) ∧
      (s.takeEntries speaker 1 entries).1 = s.course speaker entries entries.length ∧
      (s.Indexed → ∀ k, (s.course speaker entries k).Indexed) ∧
      ∃ records, (s.takeEntries speaker 1 entries).1.skipped = s.skipped ++ records ∧
        records.Pairwise (·.number < ·.number) ∧
        ∀ r ∈ records, r.missing ≠ [] ↔ r.error = none) := by
  refine ⟨fun failure => takeEntries_error, fun done => ⟨?_, ?_, ?_, ?_⟩⟩
  · intro k v here
    have taken := takeEntries_at done here
    rw [Nat.add_comm] at taken
    exact takeEntry_fate taken
  · rw [course, List.take_length]
  · exact course_indexed
  · obtain ⟨records, appended, ordered, each⟩ := takeEntries_records speaker s 1 entries
    exact ⟨records, appended, ordered, fun r member => (each r member).2⟩

theorem refusal_between_others :
    let s : Derivation := { facts := ["A"] }
    let entries : List Value := [
      .map [(.str "rule", .str "alpha"), (.str "from", .list [.str "A", .str "A"])],
      .map [(.str "rule", .str "alpha"), (.str "from", .list [.str "A"])], .null]
    (s.takeEntries .scenario 1 entries).2.result = .ok () ∧
    (∀ k v, entries[k]? = some v →
      OneFate (s.course .scenario entries k) (k + 1) v (s.course .scenario entries (k + 1))) ∧
    (s.course .scenario entries 3).steps.length = 1 ∧
    (s.course .scenario entries 3).skipped.map (·.number) = [2] := by
  intro s entries
  have done : (s.takeEntries .scenario 1 entries).2.result = .ok () := by rfl
  obtain ⟨-, runs⟩ := entries_have_one_fate .scenario s entries
  obtain ⟨fates, -⟩ := runs done
  refine ⟨done, fates, ?_, ?_⟩
  · rfl
  · rfl

end Derivation

end Premise
