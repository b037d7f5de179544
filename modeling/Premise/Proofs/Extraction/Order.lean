import Mathlib.Data.List.Permutation
import Premise.Proofs.Extraction.Walk
import Premise.Proofs.Text.Collection

/-!
The order of the lines of a proof. The lineage of the target, written out with all repetitions, is
listed backwards with each reference where it is met first. A step then stands behind its
antecedents, unless one of them was met earlier on the way back. Main statements: `Walk.order`, and
`extract_order` for all states that are reached.
-/
namespace Premise

/-- Lineage descends in rank. -/
def Ref.rank : Ref → Nat
  | .fact _ => 0
  | .step i => i + 1

namespace Derivation

variable {s : Derivation} {line target : ProofLine} {pending lines result : List ProofLine}
  {ref a : Ref}

theorem Grounded.rank_lt (grounded : s.Grounded) (cited : a ∈ s.antecedents ref) :
    a.rank < ref.rank ∧ a.rank < s.steps.length := by
  cases ref with
  | fact f => cases cited
  | step i =>
    obtain ⟨x, here, inside⟩ := mem_antecedents.mp cited
    have room := (List.getElem?_eq_some_iff.mp here).1
    have below : a.rank ≤ i := by
      cases a with
      | fact f => exact Nat.zero_le i
      | step j => exact grounded.earlier i x here j inside
    exact ⟨Nat.lt_succ_of_le below, Nat.lt_of_le_of_lt below room⟩

/-! ### Lineage written out -/

/-- What is met on a way back of at most so many links that passes over nothing. -/
def occurrencesWithin (s : Derivation) : Nat → Ref → List Ref
  | 0, _ => []
  | n + 1, ref => ref :: (s.antecedents ref).flatMap (s.occurrencesWithin n)

/-- The lineage of a reference written out in full: what is shared is repeated. -/
def occurrences (s : Derivation) (ref : Ref) : List Ref :=
  s.occurrencesWithin (s.steps.length + 1) ref

theorem occurrencesWithin_succ (grounded : s.Grounded) {n : Nat} (deep : ref.rank < n) :
    s.occurrencesWithin n ref = s.occurrencesWithin (n + 1) ref := by
  induction n generalizing ref with
  | zero => omega
  | succ n ih =>
    have same : ∀ a ∈ s.antecedents ref, s.occurrencesWithin n a = s.occurrencesWithin (n + 1) a := by
      intro a cited
      have lower := (grounded.rank_lt cited).1
      exact ih (by omega)
    rw [occurrencesWithin, occurrencesWithin, List.flatMap_def, List.flatMap_def,
      List.map_congr_left same]

theorem occurrences_eq (grounded : s.Grounded) (ref : Ref) :
    s.occurrences ref = ref :: (s.antecedents ref).flatMap s.occurrences := by
  have same : ∀ a ∈ s.antecedents ref,
      s.occurrencesWithin s.steps.length a = s.occurrences a := fun a cited =>
    occurrencesWithin_succ grounded (grounded.rank_lt cited).2
  rw [occurrences, occurrencesWithin, List.flatMap_def, List.flatMap_def, List.map_congr_left same]

/-- Where all up to a rank have their antecedents among them, so they have their lineage. -/
theorem occurrences_subset (grounded : s.Grounded) {met : List Ref} {n : Nat}
    (settled : ∀ m ∈ met, m.rank ≤ n → ∀ a ∈ s.antecedents m, a ∈ met) (member : ref ∈ met)
    (low : ref.rank ≤ n) : s.occurrences ref ⊆ met := by
  have within (k : Nat) : ∀ m ∈ met, m.rank ≤ n → s.occurrencesWithin k m ⊆ met := by
    induction k with
    | zero => exact fun m _ _ => List.nil_subset met
    | succ k ih =>
      intro m inside low
      refine List.cons_subset.mpr ⟨inside, fun r occurs => ?_⟩
      obtain ⟨a, cited, occurs⟩ := List.mem_flatMap.mp occurs
      have lower := (grounded.rank_lt cited).1
      exact ih a (settled m inside low a cited) (by omega) occurs
  exact within _ ref member low

/-! ### Order -/

/-- Antecedents of what was met are met before anything of no lower rank is taken up. -/
def Settled (s : Derivation) (pending lines : List ProofLine) : Prop :=
  ∀ early q late, pending = early ++ q :: late → ∀ m ∈ refs lines, m.rank ≤ q.ref.rank →
    ∀ a ∈ s.antecedents m, a ∈ refs lines ∨ a ∈ refs early

theorem Settled.head (settled : s.Settled (line :: pending) lines) :
    ∀ m ∈ refs lines, m.rank ≤ line.ref.rank → ∀ a ∈ s.antecedents m, a ∈ refs lines := by
  intro m member low a cited
  exact (settled [] line pending rfl m member low a cited).resolve_right List.not_mem_nil

theorem Settled.skip (settled : s.Settled (line :: pending) lines) (met : line.ref ∈ refs lines) :
    s.Settled pending lines := by
  rintro early q late rfl m member low a cited
  rcases settled (line :: early) q late rfl m member low a cited with listed | waiting
  · exact Or.inl listed
  · rcases List.mem_cons.mp waiting with rfl | before
    · exact Or.inl met
    · exact Or.inr before

theorem Settled.meet (settled : s.Settled (line :: pending) lines) (grounded : s.Grounded) :
    s.Settled (s.parents line ++ pending) (line :: lines) := by
  intro early q late split m member low a cited
  rw [refs_cons, List.mem_cons] at member ⊢
  -- What was pending before has the parents in front of it.
  have behind (between : List ProofLine) (front : early = s.parents line ++ between)
      (rest : pending = between ++ q :: late) :
      (a = line.ref ∨ a ∈ refs lines) ∨ a ∈ refs early := by
    rw [front, refs_append, refs_parents, List.mem_append]
    rcases member with rfl | old
    · exact Or.inr (Or.inl cited)
    · have waited := settled (line :: between) q late (by rw [rest]; rfl) m old low a cited
      rcases waited with listed | waiting
      · exact Or.inl (Or.inr listed)
      · rcases List.mem_cons.mp waiting with same | before
        · exact Or.inl (Or.inl same)
        · exact Or.inr (Or.inr before)
  rcases List.append_eq_append_iff.mp split with ⟨between, front, rest⟩ | ⟨more, parents, rest⟩
  · exact behind between front rest
  · cases more with
    | nil => exact behind [] (by rw [parents]; simp) rest.symm
    | cons p more =>
      -- A parent is taken up, which is of lower rank than the line.
      obtain ⟨rfl, -⟩ := List.cons.inj rest
      have parent : q.ref ∈ s.antecedents line.ref := by
        rw [← refs_parents, parents]
        simp
      have lower := (grounded.rank_lt parent).1
      rcases member with rfl | old
      · omega
      · exact Or.inl (Or.inr (settled.head m old (by omega) a cited))

theorem Walk.order (walk : Walk s pending lines result) (grounded : s.Grounded)
    (settled : s.Settled pending lines) :
    refs result = (((refs pending).flatMap s.occurrences).filter (· ∉ refs lines)).eraseDups.reverse ++
      refs lines := by
  induction walk with
  | done => rfl
  | @skip line pending lines result met _ ih =>
    have passed : (s.occurrences line.ref).filter (· ∉ refs lines) = [] := by
      rw [List.filter_eq_nil_iff]
      intro r occurs
      have known := occurrences_subset grounded settled.head met (Nat.le_refl _) occurs
      simpa using known
    rw [ih (settled.skip met), refs_cons, List.flatMap_cons, List.filter_append, passed,
      List.nil_append]
  | @meet line pending lines result new _ ih =>
    rw [ih (settled.meet grounded), refs_append, refs_parents, refs_cons, refs_cons,
      List.flatMap_cons, List.flatMap_append, occurrences_eq grounded line.ref, List.cons_append,
      List.filter_cons_of_pos (by simpa using new), List.eraseDups_cons, List.filter_filter,
      List.reverse_cons, List.append_assoc, List.singleton_append]
    congr 4
    funext r
    rw [Bool.eq_iff_iff]
    simp

/-! ### Positions -/

theorem eraseDups_split {l : List Ref} {x : Ref} (first : l.idxOf x < l.idxOf a) (member : a ∈ l) :
    ∃ front back, l.eraseDups = front ++ x :: back ∧ a ∈ back := by
  have held : x ∈ l := by
    have bound := List.idxOf_lt_length_of_mem member
    exact List.idxOf_lt_length_iff.mp (Nat.lt_trans first bound)
  obtain ⟨early, late, rfl, new⟩ := List.eq_append_cons_of_mem held
  have other : a ∉ early := by
    intro inside
    have bound := List.idxOf_lt_length_of_mem inside
    rw [List.idxOf_append, List.idxOf_append, if_neg new, if_pos inside] at first
    omega
  have unlike : a ≠ x := by
    rintro rfl
    exact Nat.lt_irrefl _ first
  have kept : (x :: late).removeAll early = x :: late.removeAll early := by
    rw [List.cons_removeAll, if_pos (by simpa using new)]
  have split : (early ++ x :: late).eraseDups =
      early.eraseDups ++ ((x :: late).removeAll early).eraseDups := List.eraseDups_append
  rw [kept, List.eraseDups_cons] at split
  refine ⟨_, _, split, ?_⟩
  have listed := List.mem_eraseDups.mpr member
  rw [split] at listed
  rcases List.mem_append.mp listed with front | back
  · exact absurd (List.mem_eraseDups.mp front) other
  · exact (List.mem_cons.mp back).resolve_left unlike

/-- What is met first stands last, once repetitions are gone and the list is turned round. -/
theorem idxOf_turned_lt {l : List Ref} {x : Ref} (first : l.idxOf x < l.idxOf a) (member : a ∈ l) :
    l.eraseDups.reverse.idxOf a < l.eraseDups.reverse.idxOf x := by
  obtain ⟨front, back, split, later⟩ := eraseDups_split first member
  have distinct := nodup_eraseDups l
  rw [split] at distinct ⊢
  have alone : x ∉ back := (List.nodup_cons.mp (List.nodup_append.mp distinct).2.1).1
  have bound := List.idxOf_lt_length_of_mem (List.mem_reverse.mpr later)
  rw [List.reverse_append, List.reverse_cons, List.append_assoc, List.idxOf_append,
    if_pos (List.mem_reverse.mpr later), List.idxOf_append, if_neg (by simpa using alone)]
  omega

theorem idxOf_turned_lt_iff {l : List Ref} {x : Ref} (held : x ∈ l) (member : a ∈ l)
    (unlike : x ≠ a) :
    l.eraseDups.reverse.idxOf a < l.eraseDups.reverse.idxOf x ↔ l.idxOf x < l.idxOf a := by
  constructor
  · intro turned
    rcases Nat.lt_trichotomy (l.idxOf x) (l.idxOf a) with first | same | last
    · exact first
    · exact absurd ((List.idxOf_inj held).mp same) unlike
    · exact absurd turned (Nat.lt_asymm (idxOf_turned_lt last held))
  · exact fun first => idxOf_turned_lt first member

/-! ### Extraction -/

theorem Cited.rank_le (cited : s.Cited target lines) (grounded : s.Grounded) :
    ∀ line ∈ lines, line.ref.rank ≤ target.ref.rank := by
  induction cited with
  | target =>
    intro line member
    obtain rfl := List.mem_singleton.mp member
    exact Nat.le_refl _
  | cons member cites _ ih =>
    refine List.forall_mem_cons.mpr ⟨?_, ih⟩
    have lower := (grounded.rank_lt cites.1).1
    have bound := ih _ member
    omega

/-- The first stands before the second. -/
def Before (l : List Ref) (a b : Ref) : Prop :=
  l.idxOf a < l.idxOf b

theorem before_of_split {early late : List Ref} {b : Ref}
    (distinct : (early ++ a :: late).Nodup) (behind : b ∈ late) : Before (early ++ a :: late) a b := by
  obtain ⟨-, tail, apart⟩ := List.nodup_append.mp distinct
  have new : a ∉ early := fun inside => apart a inside a List.mem_cons_self rfl
  have new' : b ∉ early := fun inside => apart b inside b (List.mem_cons_of_mem a behind) rfl
  have unlike : a ≠ b := by
    rintro rfl
    exact (List.nodup_cons.mp tail).1 behind
  rw [Before, List.idxOf_append, List.idxOf_append, if_neg new, if_neg new', List.idxOf_cons_self,
    List.idxOf_cons_ne late unlike]
  omega

/-- How the lines of a proof of step `i` are ordered. -/
structure Ordered (s : Derivation) (i : Nat) (lines : List ProofLine) : Prop where
  last : lines.getLast? = some ⟨.step i, 0⟩
  cited : s.Cited ⟨.step i, 0⟩ lines
  backwards : refs lines = (s.occurrences (.step i)).eraseDups.reverse
  premise : ∀ j ∈ refs lines, ∀ a ∈ s.antecedents j,
    Before (refs lines) a j ↔ Before (s.occurrences (.step i)) j a
  shared : ∀ j ∈ refs lines, ∀ a ∈ s.antecedents j, Before (refs lines) a j ∨
    ∃ c ∈ refs lines, c ≠ j ∧ a ∈ s.antecedents c ∧ Before (refs lines) a c

theorem Walk.ordered {i : Nat} (walk : Walk s [⟨.step i, 0⟩] [] lines) (grounded : s.Grounded) :
    s.Ordered i lines := by
  have backwards : refs lines = (s.occurrences (.step i)).eraseDups.reverse := by
    have start : s.Settled [⟨.step i, 0⟩] [] := fun _ _ _ _ m member => absurd member List.not_mem_nil
    have order := walk.order grounded start
    simpa [refs] using order
  have cited := walk.cited_target
  have distinct := walk.nodup List.nodup_nil
  have listed : ∀ j ∈ refs lines, ∀ a ∈ s.antecedents j, a ∈ refs lines :=
    walk.complete fun m member => absurd member List.not_mem_nil
  have occurs : ∀ r ∈ refs lines, r ∈ s.occurrences (.step i) := by
    intro r member
    rw [backwards] at member
    exact List.mem_eraseDups.mp (List.mem_reverse.mp member)
  have unlike : ∀ j a, a ∈ s.antecedents j → j ≠ a := by
    rintro j a made rfl
    exact Nat.lt_irrefl _ (grounded.rank_lt made).1
  refine ⟨cited.last, cited, backwards, fun j member a made => ?_, fun j member a made => ?_⟩
  · have inside := listed j member a made
    rw [Before, Before, backwards]
    exact idxOf_turned_lt_iff (occurs j member) (occurs a inside) (unlike j a made)
  · have inside := listed j member a made
    rcases Nat.lt_trichotomy ((refs lines).idxOf a) ((refs lines).idxOf j) with before | same | after
    · exact Or.inl before
    · exact absurd ((List.idxOf_inj inside).mp same).symm (unlike j a made)
    · right
      obtain ⟨q, held, rfl⟩ := List.mem_map.mp inside
      obtain ⟨early, late, rfl⟩ := List.append_of_mem held
      rcases cited.behind with ⟨rfl, rfl⟩ | ⟨citing, behind, cites⟩
      · -- The target is no antecedent of what was met on the way back from it.
        obtain ⟨line, listed, rfl⟩ := List.mem_map.mp member
        have bound := cited.rank_le grounded line listed
        have lower := (grounded.rank_lt made).1
        omega
      · have further : Before (refs (early ++ q :: late)) q.ref citing.ref := by
          rw [refs_append, refs_cons] at distinct ⊢
          exact before_of_split distinct (List.mem_map_of_mem behind)
        have there : citing ∈ early ++ q :: late :=
          List.mem_append_right early (List.mem_cons_of_mem q behind)
        refine ⟨citing.ref, List.mem_map_of_mem there, ?_, cites.1, further⟩
        rintro rfl
        exact Nat.lt_asymm after further

/-- In every state that is reached: a formula is looked up in vain, and then extraction fails or has
no lines, or the lines of the earliest step that holds it are ordered. A step stands behind each of
its antecedents that no other line cites. -/
theorem extract_ordered (reachable : Reachable s) (formula : String) :
    (∃ e, s.proofStep? formula = .error e ∧ s.extract formula = .error (.formula e)) ∨
    ((∀ x ∈ s.steps, ¬ x.Holds s.limit formula) ∧ s.extract formula = .ok []) ∨
    ∃ i x lines, s.Earliest formula i x ∧ s.extract formula = .ok lines ∧ s.Ordered i lines := by
  cases looked : s.proofStep? formula with
  | error e =>
    refine Or.inl ⟨e, rfl, ?_⟩
    rw [extract, looked]
  | ok found =>
    cases found with
    | none =>
      refine Or.inr (Or.inl ⟨proofStep?_none looked, ?_⟩)
      rw [extract, looked]
    | some x =>
      have grounded := reachable.grounded
      obtain ⟨i, lines, earliest, extracted, walk⟩ := extract_walk grounded.linked looked
      exact Or.inr (Or.inr ⟨i, x, lines, earliest, extracted, walk.ordered grounded⟩)

/-- A premise is conjoined with itself, and with what that makes. -/
def reuse : Value :=
  let conjoin (a b : String) : Value :=
    .map [(.str "rule", .str "alpha"), (.str "subtype", .str "and"), (.str "from", .texts [a, b])]
  .map [(.str "propositions", .texts ["A"]),
    (.str "steps", .list [conjoin "A" "A", conjoin "A" "(A ∧ A)"]),
    (.str "targets", .texts ["(A ∧ (A ∧ A))"])]

theorem reuse_reached : ∃ s, Reachable s ∧
    s.extract "(A ∧ (A ∧ A))" = .ok [⟨.step 1, 1⟩, ⟨.step 0, 1⟩, ⟨.step 2, 0⟩] ∧
    s.antecedents (.step 1) = [.step 0, .step 0] := by
  have computed : ((Scenario.load .scenario Formula.standardLimit "scenario.yaml" (.document reuse)
      []).result.toOption.bind fun c => (c.derivation.extract "(A ∧ (A ∧ A))").toOption.map fun
        lines => (lines, c.derivation.antecedents (.step 1))) =
      some ([⟨.step 1, 1⟩, ⟨.step 0, 1⟩, ⟨.step 2, 0⟩], [.step 0, .step 0]) := by cbv
  obtain ⟨c, loaded, computed⟩ := Option.bind_eq_some_iff.mp computed
  obtain ⟨lines, extracted, computed⟩ := Option.map_eq_some_iff.mp computed
  obtain ⟨rfl, made⟩ := Prod.mk.inj computed
  exact ⟨c.derivation, .loaded _ _ _ _ _ (toOption_eq_some.mp loaded), toOption_eq_some.mp extracted,
    made⟩

theorem reuse_ordered : ∃ s, Reachable s ∧ ∃ i x lines, s.Earliest "(A ∧ (A ∧ A))" i x ∧
    s.extract "(A ∧ (A ∧ A))" = .ok lines ∧ s.Ordered i lines := by
  obtain ⟨s, reachable, extracted, -⟩ := reuse_reached
  refine ⟨s, reachable, ?_⟩
  rcases extract_ordered reachable "(A ∧ (A ∧ A))" with ⟨e, -, failed⟩ | ⟨-, empty⟩ | found
  · rw [extracted] at failed
    cases failed
  · rw [extracted] at empty
    cases empty
  · exact found

/-- The premise stands behind the conjunction that was made of it. -/
theorem conclusion_before_premise : ∃ s, Reachable s ∧ ∃ lines,
    s.extract "(A ∧ (A ∧ A))" = .ok lines ∧
    ¬ ∀ j ∈ refs lines, ∀ a ∈ s.antecedents j, Before (refs lines) a j := by
  obtain ⟨s, reachable, extracted, made⟩ := reuse_reached
  refine ⟨s, reachable, _, extracted, fun ordered => ?_⟩
  have before := ordered (.step 1) (by simp [refs]) (.step 0) (by simp [made])
  have after : Before [.step 1, .step 0, .step 2] (.step 1) (.step 0) := by
    unfold Before
    decide
  exact Nat.lt_asymm before after

end Derivation

end Premise
