import Premise.Proofs.Derivation.Padding
import Premise.Scenario

/-!
Loading a scenario with facts that nothing in it asks for. Every source of a step entry is in use, so
that it is found in the same place, and the entries have the same fates. Main statements:
`Derivation.takeEntry_ok_iff`, `Derivation.takeEntries_invariant` and `Scenario.ofDocument_knowing`.
-/
namespace Premise

theorem Logged.result_bind {α β : Type} (x : Logged α) (f : α → Logged β) :
    (x >>= f).result = x.result >>= fun a => (f a).result := by
  obtain ⟨log, _ | a⟩ := x <;> rfl

variable {used more : List String} {limit : Option Nat} {s t : Derivation} {speaker : Speaker}
  {document : Value}

/-! ### What is in use -/

namespace Document

theorem atomsOfAll_uses {formulas atoms : List String}
    (gathered : atomsOfAll limit formulas = .ok atoms) (within : ∀ a ∈ atoms, a ∈ used) :
    ∀ f ∈ formulas, Formula.Uses used limit f := by
  intro f member names named name inside
  obtain ⟨lists, each, h⟩ := bind_eq_ok.mp gathered
  cases h
  obtain ⟨list, listed, read⟩ := mapM_ok_mem each f member
  rw [atomsOfFormula, named] at read
  cases read
  exact within name (List.mem_flatten.mpr ⟨names, listed, inside⟩)

/-- The sources that an entry names under its number are in use. -/
def Covered (used : List String) (limit : Option Nat) (entry : Value × Nat) : Prop :=
  ∀ sources, sources? entry.2 entry.1 = .ok (some sources) →
    ∀ f ∈ sources, Formula.Uses used limit f

theorem referencedAtoms_ok_iff : referencedAtoms limit document = .ok used ↔
    ∃ names entries lists ts atoms, propositions document = .ok names ∧
      stepEntries document = .ok entries ∧
      (entries.zipIdx 1).mapM (atomsOfEntry limit) = .ok lists ∧ targets document = .ok ts ∧
      atomsOfAll limit ts = .ok atoms ∧ used = (names ++ lists.flatten ++ atoms).eraseDups := by
  unfold referencedAtoms
  simp only [bind_eq_ok]
  constructor
  · rintro ⟨names, premises, entries, listed, lists, each, ts, wanted, atoms, last, h⟩
    cases h
    exact ⟨names, entries, lists, ts, atoms, premises, listed, each, wanted, last, rfl⟩
  · rintro ⟨names, entries, lists, ts, atoms, premises, listed, each, wanted, last, rfl⟩
    exact ⟨names, premises, entries, listed, lists, each, ts, wanted, atoms, last, rfl⟩

theorem referencedAtoms_covers (gathered : referencedAtoms limit document = .ok used) :
    (∀ entries, stepEntries document = .ok entries →
      ∀ e ∈ entries.zipIdx 1, Covered used limit e) ∧
    ∀ ts, targets document = .ok ts → ∀ f ∈ ts, Formula.Uses used limit f := by
  obtain ⟨names, entries, lists, ts, atoms, -, listed, each, wanted, last, rfl⟩ :=
    referencedAtoms_ok_iff.mp gathered
  constructor
  · intro entries' listed' e member sources named
    cases listed.symm.trans listed'
    obtain ⟨list, inside, read⟩ := mapM_ok_mem each e member
    obtain ⟨sources', named', read⟩ := bind_eq_ok.mp read
    cases named.symm.trans named'
    refine atomsOfAll_uses read fun a held => List.mem_eraseDups.mpr ?_
    simp [List.mem_flatten.mpr ⟨list, inside, held⟩]
  · intro ts' wanted'
    cases wanted.symm.trans wanted'
    exact atomsOfAll_uses last fun a held => List.mem_eraseDups.mpr (by simp [held])

end Document

/-! ### Entries -/

namespace Padded

theorem locate (padded : Padded used s.facts more) {f : String}
    (uses : Formula.Uses used s.limit f) : (s.knowing more).locate f = s.locate f := by
  have known : more.contains f = s.facts.contains f := by
    rw [Bool.eq_iff_iff, List.contains_iff_mem, List.contains_iff_mem, padded.mem_of_uses uses]
  unfold Derivation.locate
  rw [Derivation.knowing_facts, known, padded.unresolved uses]
  rfl

theorem fate (padded : Padded used s.facts more) {e : Entry}
    (covered : ∀ f ∈ e.sources, Formula.Uses used s.limit f) :
    e.fate speaker (s.knowing more) = e.fate speaker s := by
  have located : e.sources.mapM (e.locate speaker (s.knowing more)) =
      e.sources.mapM (e.locate speaker s) := by
    refine mapM_congr fun f member => ?_
    rw [Entry.locate, padded.locate (covered f member), Entry.locate]
  unfold Entry.fate
  rw [located]
  rfl

end Padded

theorem Fate.settle_knowing (fate : Fate) (s : Derivation) (more : List String) :
    fate.settle (s.knowing more) = (fate.settle s).knowing more := by
  cases fate with
  | ignored => rfl
  | skipped record => exact Derivation.knowing_trackAll (s.skip record) more record.missing
  | applied step => rfl

/-- Facts and the limit stay as they are. -/
def Derivation.SameFrame (s t : Derivation) : Prop :=
  t.facts = s.facts ∧ t.limit = s.limit

theorem Derivation.trackAll_frame (s : Derivation) (names : List String) :
    s.SameFrame (s.trackAll names) := by
  obtain ⟨new, tracked, -⟩ := trackAll_eq s names
  rw [tracked]
  exact ⟨rfl, rfl⟩

theorem Fate.settle_frame (fate : Fate) (s : Derivation) : s.SameFrame (fate.settle s) := by
  cases fate with
  | ignored => exact ⟨rfl, rfl⟩
  | skipped record => exact (s.skip record).trackAll_frame record.missing
  | applied step => exact ⟨rfl, rfl⟩

theorem Entry.read_result (speaker : Speaker) (number : Nat) (v : Value) :
    (Entry.read speaker number v).result = (Document.sources? number v).map
      (·.map fun sources => ⟨number, v.get "rule", v.get "subtype", sources⟩) := by
  unfold Entry.read
  split
  · rw [Logged.result_bind, Logged.ofExcept]
    cases Document.sources? number _ <;> rfl
  · rename_i other
    unfold Document.sources?
    split
    · exact absurd rfl (other _)
    · rfl

theorem Entry.read_sources {number : Nat} {v : Value} {e : Entry}
    (h : (Entry.read speaker number v).result = .ok (some e)) :
    Document.sources? number v = .ok (some e.sources) := by
  rw [Entry.read_result] at h
  cases named : Document.sources? number v with
  | error failure => simp [named, Except.map] at h
  | ok r =>
    cases r with
    | none => simp [named, Except.map] at h
    | some sources =>
      rw [named] at h
      cases h
      rfl

namespace Derivation

variable {number : Nat} {v : Value}

theorem takeEntry_ok_iff : (s.takeEntry speaker number v).result = .ok t ↔
    (Entry.read speaker number v).result = .ok none ∧ t = s ∨
    ∃ e fate, (Entry.read speaker number v).result = .ok (some e) ∧
      (e.fate speaker s).result = .ok fate ∧ t = fate.settle s := by
  unfold takeEntry
  rw [Logged.result_bind, bind_eq_ok]
  constructor
  · rintro ⟨entry, read, h⟩
    cases entry with
    | none =>
      cases h
      exact Or.inl ⟨read, rfl⟩
    | some e =>
      dsimp only at h
      rw [Logged.result_bind] at h
      obtain ⟨fate, decided, h⟩ := bind_eq_ok.mp h
      cases h
      exact Or.inr ⟨e, fate, read, decided, rfl⟩
  · rintro (⟨read, rfl⟩ | ⟨e, fate, read, decided, rfl⟩)
    · exact ⟨none, read, rfl⟩
    · refine ⟨some e, read, ?_⟩
      dsimp only
      rw [Logged.result_bind, decided]
      rfl

theorem takeEntry_frame (h : (s.takeEntry speaker number v).result = .ok t) : s.SameFrame t := by
  rcases takeEntry_ok_iff.mp h with ⟨-, rfl⟩ | ⟨e, fate, -, -, rfl⟩
  · exact ⟨rfl, rfl⟩
  · exact fate.settle_frame s

theorem takeEntries_go {rest : List Value} (taken : (s.takeEntry speaker number v).result = .ok t) :
    (s.takeEntries speaker number (v :: rest)).1 = (t.takeEntries speaker (number + 1) rest).1 ∧
    (s.takeEntries speaker number (v :: rest)).2.result =
      (t.takeEntries speaker (number + 1) rest).2.result := by
  rw [takeEntries, taken]
  exact ⟨rfl, rfl⟩

theorem takeEntries_stop {rest : List Value} {failure : Failure}
    (failed : (s.takeEntry speaker number v).result = .error failure) :
    (s.takeEntries speaker number (v :: rest)).1 = s ∧
    (s.takeEntries speaker number (v :: rest)).2.result = .error failure := by
  rw [takeEntries, failed]
  exact ⟨rfl, rfl⟩

/-- All entries are taken where the first is and, in the state behind it, the others are. -/
theorem takeEntries_done_iff {rest : List Value} :
    (s.takeEntries speaker number (v :: rest)).2.result = .ok () ↔
      ∃ t, (s.takeEntry speaker number v).result = .ok t ∧
        (t.takeEntries speaker (number + 1) rest).2.result = .ok () := by
  cases taken : (s.takeEntry speaker number v).result with
  | error failure => simp [(takeEntries_stop taken).2]
  | ok t => simp [(takeEntries_go taken).2]

/-- What every entry keeps, the whole list keeps, wherever it stops. -/
theorem takeEntries_invariant {P : Derivation → Prop} {entries : List Value}
    (keep : ∀ v ∈ entries, ∀ number t u, P t → (t.takeEntry speaker number v).result = .ok u → P u)
    (start : P s) : P (s.takeEntries speaker number entries).1 := by
  induction entries generalizing s number with
  | nil => exact start
  | cons v rest ih =>
    cases outcome : (s.takeEntry speaker number v).result with
    | error failure => rwa [(takeEntries_stop outcome).1]
    | ok t =>
      obtain ⟨first, later⟩ := List.forall_mem_cons.mp keep
      rw [(takeEntries_go outcome).1]
      exact ih later (first number s t start outcome)

theorem takeEntry_knowing (padded : Padded used s.facts more)
    (covered : Document.Covered used s.limit (v, number)) :
    ((s.knowing more).takeEntry speaker number v).result =
      (s.takeEntry speaker number v).result.map (·.knowing more) := by
  unfold takeEntry
  rw [Logged.result_bind, Logged.result_bind]
  cases read : (Entry.read speaker number v).result with
  | error failure => rfl
  | ok e =>
    cases e with
    | none => rfl
    | some e =>
      have fate : e.fate speaker (s.knowing more) = e.fate speaker s :=
        padded.fate (covered e.sources (Entry.read_sources read))
      change (e.fate speaker (s.knowing more) >>= _).result =
        Except.map _ (e.fate speaker s >>= _).result
      rw [fate, Logged.result_bind, Logged.result_bind]
      cases (e.fate speaker s).result with
      | error failure => rfl
      | ok fate => exact congrArg Except.ok (fate.settle_knowing s more)

variable (speaker) in
theorem takeEntries_knowing {entries : List Value} (padded : Padded used s.facts more)
    (covered : ∀ e ∈ entries.zipIdx number, Document.Covered used s.limit e) :
    ((s.knowing more).takeEntries speaker number entries).1 =
      (s.takeEntries speaker number entries).1.knowing more ∧
    ((s.knowing more).takeEntries speaker number entries).2.result =
      (s.takeEntries speaker number entries).2.result := by
  induction entries generalizing s number with
  | nil => exact ⟨rfl, rfl⟩
  | cons v rest ih =>
    rw [List.zipIdx_cons] at covered
    obtain ⟨first, later⟩ := List.forall_mem_cons.mp covered
    have taken : ((s.knowing more).takeEntry speaker number v).result =
        (s.takeEntry speaker number v).result.map (·.knowing more) := takeEntry_knowing padded first
    rw [takeEntries, takeEntries, taken]
    cases outcome : (s.takeEntry speaker number v).result with
    | error failure => exact ⟨rfl, rfl⟩
    | ok t =>
      obtain ⟨facts, limit⟩ := takeEntry_frame outcome
      exact ih (by rwa [facts]) (by rwa [limit])

theorem takeEntries_frame {entries : List Value} :
    s.SameFrame (s.takeEntries speaker number entries).1 := by
  refine takeEntries_invariant (fun v _ number t u frame outcome => ?_) ⟨rfl, rfl⟩
  obtain ⟨facts, limit⟩ := takeEntry_frame outcome
  exact ⟨facts.trans frame.1, limit.trans frame.2⟩

end Derivation

/-! ### Scenarios -/

theorem Derivation.foldl_addFact (s : Derivation) (facts : List String) :
    facts.foldl addFact s = s.knowing (facts.foldl Text.adjoin s.facts) := by
  induction facts generalizing s with
  | nil => rfl
  | cons f facts ih => exact ih (s.addFact f)

namespace Scenario

def knowing (c : Scenario) (facts : List String) : Scenario :=
  { c with derivation := c.derivation.knowing facts }

/-- The facts that resolutions come to. -/
def knownFacts (resolutions : List (String × Bool)) : List String :=
  (factsOf resolutions).foldl Text.adjoin []

theorem mem_knownFacts {resolutions : List (String × Bool)} {f : String} :
    f ∈ knownFacts resolutions ↔ f ∈ factsOf resolutions := by
  rw [knownFacts, Text.mem_foldl_adjoin]
  simp

/-- The arena of the start holds the propositions, and nothing is missing or skipped. -/
theorem start_arena (limit : Option Nat) (resolutions : List (String × Bool))
    (propositions : List String) : start limit resolutions propositions =
      { facts := knownFacts resolutions
        steps := propositions.zipIdx.map fun p => { Step.proposition p.1 with index := some p.2 }
        limit := limit } := by
  have premises (s : Derivation) :
      propositions.foldl (fun s p => s.push (Step.proposition p)) s =
        { s with steps := s.steps ++ (propositions.zipIdx s.steps.length).map fun p =>
            { Step.proposition p.1 with index := some p.2 } } := by
    induction propositions generalizing s with
    | nil => simp
    | cons p propositions ih =>
      rw [List.foldl_cons, ih, List.zipIdx_cons, List.map_cons]
      simp [Derivation.push, Derivation.number]
  unfold start
  rw [Derivation.foldl_addFact]
  exact premises _

theorem start_eq (limit : Option Nat) (resolutions : List (String × Bool))
    (propositions : List String) :
    start limit resolutions propositions =
      (start limit [] propositions).knowing (knownFacts resolutions) := by
  rw [start_arena, start_arena]
  rfl

theorem start_facts (limit : Option Nat) (resolutions : List (String × Bool))
    (propositions : List String) :
    (start limit resolutions propositions).facts = knownFacts resolutions := by
  rw [start_arena]

theorem start_limit (limit : Option Nat) (resolutions : List (String × Bool))
    (propositions : List String) : (start limit resolutions propositions).limit = limit := by
  rw [start_arena]

/-- More facts than a document asks for change nothing in what is loaded but the facts. -/
theorem ofDocument_knowing {fewer all : List (String × Bool)}
    (padded : ∀ used, Document.referencedAtoms limit document = .ok used →
      Padded used (knownFacts fewer) (knownFacts all)) :
    (ofDocument speaker limit all document).result =
      (ofDocument speaker limit fewer document).result.map (·.knowing (knownFacts all)) := by
  unfold ofDocument
  simp only [Logged.result_bind, Logged.ofExcept]
  cases gathered : Document.referencedAtoms limit document with
  | error e => rfl
  | ok used =>
    cases Document.propositions document with
    | error e => rfl
    | ok propositions =>
      cases listed : Document.stepEntries document with
      | error e => rfl
      | ok entries =>
        cases Document.targets document with
        | error e => rfl
        | ok targets =>
          -- Only the entries look at facts, and at those alone that they name.
          have covered := (Document.referencedAtoms_covers gathered).1 entries listed
          have start : start limit all propositions =
              (start limit fewer propositions).knowing (knownFacts all) := by
            rw [start_eq, start_eq limit fewer]
            rfl
          have more : Padded used (Scenario.start limit fewer propositions).facts
              (knownFacts all) := by
            rw [start_facts]
            exact padded used gathered
          rw [← start_limit limit fewer propositions] at covered
          obtain ⟨taken, outcome⟩ := Derivation.takeEntries_knowing speaker more covered
          simp only [bind, Except.bind, start, taken, outcome]
          cases (Derivation.takeEntries speaker (Scenario.start limit fewer propositions) 1
            entries).2.result with
          | error e => rfl
          | ok _ => rfl

/-- A scenario is loaded where the document is read and no entry fails. -/
theorem ofDocument_ok_iff {resolutions : List (String × Bool)} {c : Scenario} :
    (ofDocument speaker limit resolutions document).result = .ok c ↔
      ∃ referenced propositions entries targets,
        Document.referencedAtoms limit document = .ok referenced ∧
        Document.propositions document = .ok propositions ∧
        Document.stepEntries document = .ok entries ∧
        Document.targets document = .ok targets ∧
        ((start limit resolutions propositions).takeEntries speaker 1 entries).2.result = .ok () ∧
        c = ⟨((start limit resolutions propositions).takeEntries speaker 1 entries).1, targets,
          propositions, referenced⟩ := by
  unfold ofDocument
  simp only [Logged.result_bind, Logged.ofExcept, bind_eq_ok]
  constructor
  · rintro ⟨referenced, atoms, propositions, premises, entries, listed, targets, wanted, ⟨⟩, taken,
      made⟩
    cases made
    exact ⟨referenced, propositions, entries, targets, atoms, premises, listed, wanted, taken, rfl⟩
  · rintro ⟨referenced, propositions, entries, targets, atoms, premises, listed, wanted, taken, rfl⟩
    exact ⟨referenced, atoms, propositions, premises, entries, listed, targets, wanted, (), taken,
      rfl⟩

theorem load_ok_iff {path : String} {source : Source} {resolutions : List (String × Bool)}
    {c : Scenario} : (load speaker limit path source resolutions).result = .ok c ↔
      ∃ document, source.read path = .ok document ∧
        (ofDocument speaker limit resolutions document).result = .ok c := by
  rw [load, Logged.result_bind, Logged.ofExcept, bind_eq_ok]

theorem ofDocument_frame {resolutions : List (String × Bool)} {c : Scenario}
    (h : (ofDocument speaker limit resolutions document).result = .ok c) :
    c.derivation.facts = knownFacts resolutions ∧ c.derivation.limit = limit ∧
      ∃ used, Document.referencedAtoms limit document = .ok used ∧
        ∀ f ∈ c.targets, Formula.Uses used limit f := by
  obtain ⟨used, propositions, entries, targets, gathered, -, -, wanted, -, rfl⟩ :=
    ofDocument_ok_iff.mp h
  have frame : (start limit resolutions propositions).SameFrame
      ((start limit resolutions propositions).takeEntries speaker 1 entries).1 :=
    Derivation.takeEntries_frame
  obtain ⟨facts, frame⟩ := frame
  exact ⟨facts.trans (start_facts _ _ _), frame.trans (start_limit _ _ _), used, gathered,
    (Document.referencedAtoms_covers gathered).2 targets wanted⟩

end Scenario

end Premise
