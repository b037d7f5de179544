import Premise.Proofs.Extraction.Walk
import Premise.Proofs.Search.Certificate
import Premise.Proofs.Search.Widening

/-!
Extraction and proof status. A proposition can be extracted, but is not proved, so that the two agree
where no proposition holds the target. Main statement: `extraction_agrees`.
-/
namespace Premise.Derivation

variable {s t : Derivation} {target : String} {limits : Limits} {x : Step}

/-- A proposition holds the target. -/
def Assumes (s : Derivation) (target : String) : Prop :=
  ∃ x ∈ s.steps, x.isProposition = true ∧ x.Holds s.limit target

/-- A step other than a proposition holds the target. -/
def Concludes (s : Derivation) (target : String) : Prop :=
  ∃ x ∈ s.steps, x.isProposition = false ∧ x.Holds s.limit target

/-! ### Status -/

theorem not_concludes (unproved : s.proves? target = .ok false) : ¬ s.Concludes target := by
  rintro ⟨x, member, derived, f, inside, c, read, read'⟩
  obtain ⟨c', target_read, different⟩ := proves?_eq_false.mp unproved
  have established : f ∈ s.established := by
    refine List.mem_append_right _ (List.mem_flatMap.mpr ⟨x, ?_, inside⟩)
    exact List.mem_filter.mpr ⟨member, by simp [derived]⟩
  obtain ⟨d, read'', other⟩ := different f established
  cases read.symm.trans read''
  cases read'.symm.trans target_read
  exact other rfl

/-! ### Extraction -/

theorem extract_none (nowhere : s.proofStep? target = .ok none) : s.extract target = .ok [] := by
  rw [extract, nowhere]

theorem proofText_empty {b : Bool} (empty : s.extract target = .ok [])
    (decided : s.proves? target = .ok b) : s.proofText target =
      .ok (if b then target ++ " is a known fact.\n" else "No proof found.\n") := by
  rw [proofText, empty]
  dsimp only
  rw [decided]
  cases b <;> rfl

theorem Linked.proofLineText_total {line : ProofLine} (linked : s.Linked)
    (present : s.Present line.ref) (number : Nat) :
    ∃ row, s.proofLineText number line = .ok row := by
  obtain ⟨ref, depth⟩ := line
  cases ref with
  | fact f => exact ⟨_, rfl⟩
  | step i =>
    have here : s.steps[i]? = some s.steps[i] := List.getElem?_eq_getElem present
    simp only [proofLineText, here, linked.indexed i _ here]
    exact ⟨_, rfl⟩

theorem proofText_lines {lines : List ProofLine} {c : String} (linked : s.Linked)
    (extracted : s.extract target = .ok lines) (full : lines ≠ [])
    (present : ∀ line ∈ lines, s.Present line.ref)
    (read : Formula.canonical s.limit target = .ok c) : ∃ rows,
      s.proofText target = .ok (Text.page (Text.heading ("PROOF of " ++ c) ++ rows)) := by
  have numbered : ∃ rows, ((lines.zip (List.range lines.length)).mapM fun e =>
      s.proofLineText (e.2 + 1) e.1) = .ok rows :=
    mapM_total fun e member =>
      linked.proofLineText_total (present e.1 (List.of_mem_zip member).1) (e.2 + 1)
  obtain ⟨rows, numbered⟩ := numbered
  rw [proofText, extracted]
  cases lines with
  | nil => exact absurd rfl full
  | cons line lines =>
    dsimp only
    rw [read]
    dsimp only
    rw [numbered]
    dsimp only
    rw [List.append_assoc]
    exact ⟨_, rfl⟩

/-- What extraction and printing come to. -/
structure Shown (s : Derivation) (target : String) (lines : List ProofLine) : Prop where
  nonempty : lines ≠ [] ↔ ∃ x ∈ s.steps, x.Holds s.limit target
  last : ∀ line, lines.getLast? = some line → ∃ i x, line = ⟨.step i, 0⟩ ∧ s.Earliest target i x
  proof : lines ≠ [] → ∃ c rows, Formula.canonical s.limit target = .ok c ∧
    s.proofText target = .ok (Text.page (Text.heading ("PROOF of " ++ c) ++ rows))
  noProof : lines = [] → ∃ b, s.proves? target = .ok b ∧
    s.proofText target = .ok (if b then target ++ " is a known fact.\n" else "No proof found.\n")

theorem extract_shown {c : String} (linked : s.Linked)
    (readable : ∀ f ∈ s.formulas, ∃ d, Formula.canonical s.limit f = .ok d)
    (read : Formula.canonical s.limit target = .ok c) :
    ∃ lines, s.extract target = .ok lines ∧ s.Shown target lines := by
  obtain ⟨b, decided⟩ := proves?_decided read fun f member =>
    readable f (mem_formulas_of_established member)
  obtain ⟨found, looked⟩ := proofStep?_decided read fun x member f inside =>
    readable f (List.mem_append_right _ (List.mem_flatMap.mpr ⟨x, member, inside⟩))
  have somewhere := proofStep?_isSome looked
  cases found with
  | none =>
    have empty := extract_none looked
    refine ⟨[], empty, ?_, ?_, ?_, fun _ => ⟨b, decided, proofText_empty empty decided⟩⟩
    · simpa using somewhere
    · intro line last
      cases last
    · exact fun full => absurd rfl full
  | some x =>
    obtain ⟨i, lines, earliest, extracted, walk⟩ := extract_walk linked looked
    have last := walk.cited_target.last
    have present := walk.cited_target.present linked (List.getElem?_eq_some_iff.mp earliest.here).1
    have full : lines ≠ [] := by
      rintro rfl
      cases last
    refine ⟨lines, extracted, ?_, ?_, ?_, fun empty => absurd empty full⟩
    · exact iff_of_true full (somewhere.mp rfl)
    · intro line ends
      cases last.symm.trans ends
      exact ⟨i, x, rfl, earliest⟩
    · intro _
      obtain ⟨rows, printed⟩ := proofText_lines linked extracted full present read
      exact ⟨c, rows, read, printed⟩

/-! ### Searches -/

/-- A search that proves its target comes by rounds to a state that does not prove it, and from there
by one more to one that does. -/
theorem search_proved {r : SearchResult} (found : s.search target limits = .ok r)
    (proved : r.halt = .proved) : s.proves? target = .ok false ∧
      ∃ n u t, r.state = some t ∧ Chain limits.maxSteps s n u ∧ u.proves? target = .ok false ∧
        t ∈ u.expand limits.maxSteps ∧ t.proves? target = .ok true := by
  rcases search_ends found with ⟨-, rfl⟩ | ⟨names, -, -, -, rfl⟩ | ⟨unproved, -, ends, -⟩
  · cases proved
  · cases proved
  · refine ⟨unproved, ?_⟩
    cases ends with
    | @emptied _ _ cut =>
      dsimp only at proved
      split at proved
      · cases proved
      · cases proved
    | iterationLimit => cases proved
    | queueLimit => cases proved
    | @proved done waiting node seen cut child _ frontier _ member proves =>
      have arrived := frontier.arrived node (by simp)
      exact ⟨_, _, _, rfl, arrived.chain, arrived.unproved, member, proves⟩

section
variable {u : Derivation} {n : Nat} {maxSteps : Int}

theorem MadeFrom.derived {limit : Option Nat} {arena : List Step} (made : x.MadeFrom limit arena) :
    x.isProposition = false := by
  obtain ⟨rule, subtype, inputs, y, -, applied, rfl⟩ := made
  obtain ⟨i, derived⟩ := Rule.apply_derives applied
  obtain ⟨fs, f, -, -, rfl⟩ := Inference.derive_ok_iff.mp derived
  exact i.stepOf_derived inputs f

theorem Chain.adds_derived (chain : Chain maxSteps s n t) :
    ∃ added, t.steps = s.steps ++ added ∧ ∀ x ∈ added, x.isProposition = false := by
  obtain ⟨added, arena, -, trace⟩ := chain.trace
  refine ⟨added, arena, fun x member => ?_⟩
  obtain ⟨k, inside, rfl⟩ := List.mem_iff_getElem.mp member
  exact MadeFrom.derived (trace k inside)

/-- The last round adds the first derived step that holds the target, and all can be read. -/
theorem expand_proved (unproved : u.proves? target = .ok false) (member : t ∈ u.expand maxSteps)
    (proves : t.proves? target = .ok true) : ∃ x, t = u.push x ∧ x.isProposition = false ∧
      x.Holds u.limit target ∧ ∀ f ∈ x.formulas, ∃ d, Formula.canonical u.limit f = .ok d := by
  obtain ⟨-, i, inputs, f, -, -, rfl⟩ := mem_expand_iff.mp member
  have derived := i.stepOf_derived inputs f
  obtain ⟨g, established, c, read, read'⟩ := exists_of_proves? proves
  rw [push_established derived] at established
  rcases List.mem_append.mp established with old | fresh
  · obtain ⟨c', target_read, different⟩ := proves?_eq_false.mp unproved
    obtain ⟨d, read'', other⟩ := different g old
    cases Except.ok.inj (read.symm.trans read'')
    cases Except.ok.inj (read'.symm.trans target_read)
    exact absurd rfl other
  · refine ⟨_, rfl, derived, ⟨g, fresh, c, read, read'⟩, fun h inside => ?_⟩
    rw [List.mem_singleton.mp inside]
    rw [List.mem_singleton.mp fresh] at read
    exact ⟨c, read⟩

/-- Every step of the state that proves the target can be read where those at the start could be. -/
theorem proved_readable (readable : ∀ f ∈ s.formulas, ∃ d, Formula.canonical s.limit f = .ok d)
    (chain : Chain maxSteps s n u) (unproved : u.proves? target = .ok false)
    (member : t ∈ u.expand maxSteps) (proves : t.proves? target = .ok true) :
    ∀ x ∈ t.steps, ∀ f ∈ x.formulas, ∃ d, Formula.canonical s.limit f = .ok d := by
  have limit : u.limit = s.limit := by rw [chain.frame]
  obtain ⟨added, arena, derived⟩ := chain.adds_derived
  obtain ⟨y, rfl, -, -, last⟩ := expand_proved unproved member proves
  rw [limit] at last
  intro x inside f held
  rw [push_steps, arena] at inside
  rcases List.mem_append.mp inside with old | fresh
  · rcases List.mem_append.mp old with start | new
    · exact readable f (List.mem_append_right _ (List.mem_flatMap.mpr ⟨x, start, held⟩))
    · -- A derived step of a state whose status was told was read.
      have there : x ∈ u.steps := arena ▸ old
      have kept : x ∈ u.steps.filter (!·.isProposition) :=
        List.mem_filter.mpr ⟨there, by simp [derived x new]⟩
      have established : f ∈ u.established :=
        List.mem_append_right _ (List.mem_flatMap.mpr ⟨x, kept, held⟩)
      obtain ⟨c, -, different⟩ := proves?_eq_false.mp unproved
      obtain ⟨d, read, -⟩ := different f established
      exact ⟨d, limit ▸ read⟩
  · rw [List.mem_singleton.mp fresh] at held
    exact last f held

/-- In a state that continues an arena by derived steps, the earliest step that holds the target is
derived where it was held by none before. -/
theorem earliest_derived {i : Nat} {added : List Step} (arena : t.steps = s.steps ++ added)
    (limit : t.limit = s.limit) (derived : ∀ x ∈ added, x.isProposition = false)
    (unproved : s.proves? target = .ok false) (earliest : t.Earliest target i x) :
    x.isProposition = false ↔ ¬ s.Assumes target := by
  have holds := earliest.holds
  rw [limit] at holds
  constructor
  · intro kind assumed
    obtain ⟨y, member, -, held⟩ := assumed
    obtain ⟨k, here⟩ := List.mem_iff_getElem?.mp member
    have inside := (List.getElem?_eq_some_iff.mp here).1
    have there : t.steps[k]? = some y := by
      rw [arena, List.getElem?_append_left inside, here]
    have early : i ≤ k := by
      apply Nat.le_of_not_lt
      intro later
      exact earliest.first k later y there (by rwa [limit])
    have old : s.steps[i]? = some x := by
      have place := earliest.here
      rwa [arena, List.getElem?_append_left (Nat.lt_of_le_of_lt early inside)] at place
    exact not_concludes unproved ⟨x, List.mem_of_getElem? old, kind, holds⟩
  · intro free
    have member := List.mem_of_getElem? earliest.here
    rw [arena] at member
    rcases List.mem_append.mp member with old | fresh
    · cases kind : x.isProposition with
      | true => exact absurd ⟨x, old, kind, holds⟩ free
      | false => rfl
    · exact derived x fresh

theorem search_extracts {r : SearchResult} (linked : s.Linked)
    (readable : ∀ f ∈ s.formulas, ∃ d, Formula.canonical s.limit f = .ok d)
    (found : s.search target limits = .ok r) (proved : r.halt = .proved) :
    ∃ t lines i x, r.state = some t ∧ t.extract target = .ok lines ∧
      lines.getLast? = some ⟨.step i, 0⟩ ∧ t.steps[i]? = some x ∧
      (x.isProposition = false ↔ ¬ s.Assumes target) := by
  obtain ⟨unproved, n, u, t, ends, chain, unproved', member, proves⟩ := search_proved found proved
  have whole := chain.next member
  have limit : t.limit = s.limit := by rw [whole.frame]
  have reads := proved_readable readable chain unproved' member proves
  obtain ⟨c, read, -⟩ := proves?_eq_ok.mp proves
  rw [← limit] at reads
  obtain ⟨step, looked⟩ := proofStep?_decided read reads
  cases step with
  | none =>
    obtain ⟨x, rfl, -, holds, -⟩ := expand_proved unproved' member proves
    have last : u.number x ∈ (u.push x).steps := List.mem_append_right _ List.mem_cons_self
    exact absurd holds (proofStep?_none looked (u.number x) last)
  | some x =>
    obtain ⟨i, lines, earliest, extracted, walk⟩ := extract_walk (whole.run.linked linked) looked
    obtain ⟨added, arena, derived⟩ := whole.adds_derived
    exact ⟨t, lines, i, x, ends, extracted, walk.cited_target.last, earliest.here,
      earliest_derived arena limit derived unproved earliest⟩

end

/-! ### Agreement -/

/-- Extraction gives the lineage of the earliest step that holds the target. Where that is no
proposition, there is such a step exactly if a derived step holds the target, and the target is
proved. After a search it is none exactly if no proposition held the target before. -/
theorem extraction_agrees (linked : s.Linked)
    (readable : ∀ f ∈ s.formulas, ∃ d, Formula.canonical s.limit f = .ok d)
    (reads : ∃ c, Formula.canonical s.limit target = .ok c) :
    (∃ lines, s.extract target = .ok lines ∧ s.Shown target lines ∧
      ((∀ i x, s.Earliest target i x → x.isProposition = false) →
        (lines ≠ [] ↔ s.Concludes target) ∧ (lines ≠ [] → s.proves? target = .ok true))) ∧
    ∀ limits r, s.search target limits = .ok r → r.halt = .proved →
      ∃ t proof i x, r.state = some t ∧ t.extract target = .ok proof ∧
        proof.getLast? = some ⟨.step i, 0⟩ ∧ t.steps[i]? = some x ∧
        (x.isProposition = false ↔ ¬ s.Assumes target) := by
  constructor
  · obtain ⟨c, read⟩ := reads
    obtain ⟨lines, extracted, shown⟩ := extract_shown linked readable read
    refine ⟨lines, extracted, shown, fun derived => ?_⟩
    have nonempty : lines ≠ [] ↔ s.Concludes target := by
      constructor
      · intro full
        obtain ⟨i, x, -, earliest⟩ := shown.last _ (List.getLast?_eq_some_getLast full)
        exact ⟨x, List.mem_of_getElem? earliest.here, derived i x earliest, earliest.holds⟩
      · intro concludes
        obtain ⟨x, member, -, holds⟩ := concludes
        exact shown.nonempty.mpr ⟨x, member, holds⟩
    refine ⟨nonempty, fun full => ?_⟩
    obtain ⟨b, decided⟩ := proves?_decided read fun f member =>
      readable f (mem_formulas_of_established member)
    cases b with
    | true => exact decided
    | false => exact absurd (nonempty.mp full) (not_concludes decided)
  · exact fun limits r found proved => search_extracts linked readable found proved

theorem ofName_linked (name : String) : (ofName name).Linked := by
  constructor
  · intro i x here
    cases i with
    | zero =>
      cases here
      rfl
    | succ i => cases here
  · intro x member j cited
    rw [List.mem_singleton.mp member] at cited
    cases cited

theorem conjunction_extracted : ∃ r t proof i x,
    (ofName "p").search "(p ∧ p)" oneRound = .ok r ∧ r.state = some t ∧
      t.extract "(p ∧ p)" = .ok proof ∧ proof.getLast? = some ⟨.step i, 0⟩ ∧
      t.steps[i]? = some x ∧ x.isProposition = false := by
  obtain ⟨r, found, proven⟩ := conjunction_found
  have unproved : (ofName "p").proves? "(p ∧ p)" = .ok false := by cbv
  have proved : r.halt = .proved := by
    rcases search_ends found with ⟨already, -⟩ | ⟨names, -, -, -, rfl⟩ | ⟨-, -, ends, -⟩
    · rw [unproved] at already
      cases already
    · cases proven
    · cases ends with
      | emptied | iterationLimit | queueLimit => cases proven
      | proved => rfl
  have readable : ∀ f ∈ (ofName "p").formulas,
      ∃ d, Formula.canonical (ofName "p").limit f = .ok d := fun f member =>
    canonical_total rfl (ofName_readable (by decide) f member)
  have reads : ∃ c, Formula.canonical (ofName "p").limit "(p ∧ p)" = .ok c :=
    canonical_total rfl conjunction_reads
  have agrees := (extraction_agrees (ofName_linked "p") readable reads).2
  obtain ⟨t, proof, i, x, ends, extracted, last, here, derived⟩ := agrees oneRound r found proved
  refine ⟨r, t, proof, i, x, found, ends, extracted, last, here, derived.mpr fun assumed => ?_⟩
  obtain ⟨y, member, premise, -⟩ := assumed
  rw [List.mem_singleton.mp member] at premise
  cases premise

/-- A premise alone is extracted, and no derived step holds it. -/
theorem premise_extracted :
    ¬ ∀ lines, (Scenario.start Formula.standardLimit [] ["A"]).extract "A" = .ok lines →
      (lines ≠ [] ↔ (Scenario.start Formula.standardLimit [] ["A"]).Concludes "A") := by
  intro agrees
  have extracted : (Scenario.start Formula.standardLimit [] ["A"]).extract "A" =
      .ok [⟨.step 0, 0⟩] := by cbv
  obtain ⟨x, member, derived, -⟩ := (agrees _ extracted).mp (by simp)
  obtain ⟨p, i, -, rfl⟩ := Scenario.mem_start_steps.mp member
  cases derived

end Premise.Derivation
