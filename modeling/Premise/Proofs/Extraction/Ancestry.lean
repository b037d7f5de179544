import Premise.Proofs.Extraction.Walk

/-!
Proofs as ancestry. The lines of a proof are what antecedents lead to from the earliest step that
holds the target, each once, with the number of links of some way there. Main statement:
`extraction_is_ancestry`.
-/
namespace Premise.Derivation

variable {s : Derivation} {target : String} {root : ProofLine} {lines : List ProofLine}
  {start ref : Ref} {i : Nat}

/-- So many antecedent links lead back from the start. -/
inductive Path (s : Derivation) (start : Ref) : Nat → Ref → Prop where
  | here : Path s start 0 start
  | link {n : Nat} {ref a : Ref} :
      Path s start n ref → a ∈ s.antecedents ref → Path s start (n + 1) a

theorem Path.within {n : Nat} {met : List Ref} (path : s.Path start n ref) (first : start ∈ met)
    (closed : ∀ m ∈ met, ∀ a ∈ s.antecedents m, a ∈ met) : ref ∈ met := by
  induction path with
  | here => exact first
  | link _ made ih => exact closed _ ih _ made

/-- The depth of a line is the length of a path to it, by way of the lines that cite. -/
theorem Cited.path (cited : s.Cited root lines) : ∀ line ∈ lines,
    ∃ n, s.Path root.ref n line.ref ∧ line.depth = root.depth + n := by
  induction cited with
  | target =>
    intro line member
    rw [List.mem_singleton.mp member]
    exact ⟨0, .here, rfl⟩
  | cons member cites _ ih =>
    obtain ⟨n, path, depth⟩ := ih _ member
    obtain ⟨made, further⟩ := cites
    refine List.forall_mem_cons.mpr ⟨⟨n + 1, path.link made, ?_⟩, ih⟩
    rw [further, depth, Nat.add_assoc]

/-- The lines are the ancestry of step `i`. -/
structure Ancestry (s : Derivation) (i : Nat) (lines : List ProofLine) : Prop where
  last : lines.getLast? = some ⟨.step i, 0⟩
  reached : ∀ ref, ref ∈ refs lines ↔ ∃ n, s.Path (.step i) n ref
  once : (refs lines).Nodup
  depth : ∀ line ∈ lines, s.Path (.step i) line.depth line.ref

theorem Walk.ancestry (walk : Walk s [⟨.step i, 0⟩] [] lines) : s.Ancestry i lines := by
  have cited := walk.cited_target
  have depth : ∀ line ∈ lines, s.Path (.step i) line.depth line.ref := by
    intro line member
    obtain ⟨n, path, far⟩ := cited.path line member
    rw [Nat.zero_add] at far
    rw [far]
    exact path
  have closed : ∀ m ∈ refs lines, ∀ a ∈ s.antecedents m, a ∈ refs lines :=
    walk.complete fun m member => absurd member List.not_mem_nil
  have first : .step i ∈ refs lines := List.mem_map_of_mem (List.mem_of_getLast? cited.last)
  refine ⟨cited.last, fun ref => ⟨fun member => ?_, ?_⟩, walk.nodup List.nodup_nil, depth⟩
  · obtain ⟨line, listed, rfl⟩ := List.mem_map.mp member
    exact ⟨line.depth, depth line listed⟩
  · rintro ⟨n, path⟩
    exact path.within first closed

/-- Where a step holds the target, extraction fails with the formula of a step that cannot be read,
or comes to the ancestry of the earliest step that holds it. -/
theorem extraction_is_ancestry (grounded : s.Grounded)
    (held : ∃ x ∈ s.steps, x.Holds s.limit target) :
    (∃ x ∈ s.steps, ∃ f ∈ x.formulas, ∃ e, Formula.canonical s.limit f = .error e ∧
      s.extract target = .error (.formula e)) ∨
    ∃ i x lines, s.Earliest target i x ∧ s.extract target = .ok lines ∧ s.Ancestry i lines := by
  cases looked : s.proofStep? target with
  | error e =>
    have failed : s.extract target = .error (.formula e) := by rw [extract, looked]
    rcases proofStep?_error looked with unread | ⟨x, member, f, inside, unread⟩
    · -- The target can be read, since a step holds it.
      obtain ⟨_, _, _, _, c, -, read⟩ := held
      rw [unread] at read
      cases read
    · exact Or.inl ⟨x, member, f, inside, e, unread, failed⟩
  | ok found =>
    cases found with
    | none =>
      obtain ⟨x, member, holds⟩ := held
      exact absurd holds (proofStep?_none looked x member)
    | some x =>
      obtain ⟨i, lines, earliest, extracted, walk⟩ := extract_walk grounded.linked looked
      exact Or.inr ⟨i, x, lines, earliest, extracted, walk.ancestry⟩

/-- A fact is conjoined with a premise, and with what that makes. -/
def factTwice : Derivation :=
  let conjoined (antecedents : List Ref) (f : String) : Step :=
    { provenance := "AlphaRule", subtype := some "and", antecedents, formulas := [f] }
  let premise := (Scenario.start none [] ["B"]).addFact "A"
  (premise.push (conjoined [.fact "A", .step 0] "(A ∧ B)")).push
    (conjoined [.fact "A", .step 1] "(A ∧ (A ∧ B))")

theorem factTwice_grounded : factTwice.Grounded := by
  have premise : ((Scenario.start none [] ["B"]).addFact "A").Grounded :=
    (start_grounded none [] ["B"]).framed rfl
  refine (premise.push fun j cited => ?_).push fun j cited => ?_
  · have same : j = 0 := by simpa using cited
    rw [same]
    decide
  · have same : j = 1 := by simpa using cited
    rw [same]
    decide

theorem shared_fact_once : factTwice.Grounded ∧ ∃ lines,
    factTwice.extract "(A ∧ (A ∧ B))" = .ok lines ∧
      lines = [⟨.step 0, 2⟩, ⟨.step 1, 1⟩, ⟨.fact "A", 1⟩, ⟨.step 2, 0⟩] ∧
      factTwice.Ancestry 2 lines := by
  have read : Formula.canonical factTwice.limit "(A ∧ (A ∧ B))" = .ok "(A ∧ (A ∧ B))" := by cbv
  have extracted : factTwice.extract "(A ∧ (A ∧ B))" =
      .ok [⟨.step 0, 2⟩, ⟨.step 1, 1⟩, ⟨.fact "A", 1⟩, ⟨.step 2, 0⟩] := by cbv
  have held : ∃ x ∈ factTwice.steps, x.Holds factTwice.limit "(A ∧ (A ∧ B))" :=
    ⟨_, List.mem_of_getElem? (i := 2) rfl, _, List.mem_cons_self, _, read, read⟩
  refine ⟨factTwice_grounded, _, extracted, rfl, ?_⟩
  rcases extraction_is_ancestry factTwice_grounded held with
    ⟨-, -, -, -, e, -, failed⟩ | ⟨i, x, lines, -, found, ancestry⟩
  · rw [extracted] at failed
    cases failed
  · cases extracted.symm.trans found
    cases ancestry.last
    exact ancestry

/-- A premise that is no formula stops the extraction of another. -/
theorem unreadable_premise_stops_extraction :
    (Scenario.start Formula.standardLimit [] ["A", "("]).Grounded ∧
    (∃ x ∈ (Scenario.start Formula.standardLimit [] ["A", "("]).steps,
      x.Holds Formula.standardLimit "A") ∧
    ¬ ∃ lines, (Scenario.start Formula.standardLimit [] ["A", "("]).extract "A" = .ok lines := by
  refine ⟨start_grounded _ _ _, ⟨_, List.mem_cons_self, "A", List.mem_cons_self, "A", ?_, ?_⟩, ?_⟩
  · cbv
  · cbv
  · rintro ⟨lines, extracted⟩
    have stopped : ((Scenario.start Formula.standardLimit [] ["A", "("]).extract "A").toOption =
        none := by cbv
    rw [extracted] at stopped
    cases stopped

end Premise.Derivation
