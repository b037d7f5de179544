import Premise.Text.Collection

/-!
Texts without repetitions, in order and joined. Main statements: `foldl_adjoin`, that texts that are
added one by one come in the order of their first occurrence, `sorted_split`, that sorting can be done
in two parts where one part comes before the other, and `intercalate_cancel`, by which the end that
two joined lists have in common does not matter to whether the joined texts are the same.
-/
namespace Premise

/-! ### Repetitions -/

/-- Induction on a list whose repetitions are dropped one item after the other. -/
theorem eraseDups_induction {α : Type} [BEq α] {P : List α → Prop} (nil : P [])
    (cons : ∀ x l, P (l.filter fun y => !y == x) → P (x :: l)) (l : List α) : P l := by
  induction count : l.length using Nat.strongRecOn generalizing l with
  | _ n ih =>
    cases l with
    | nil => exact nil
    | cons x l =>
      have fewer := List.length_filter_le (fun y => !y == x) l
      rw [List.length_cons] at count
      exact cons x l (ih _ (by omega) _ rfl)

section
variable {α : Type} [BEq α] [LawfulBEq α]

theorem nodup_eraseDups (l : List α) : l.eraseDups.Nodup := by
  induction l using eraseDups_induction with
  | nil => simp
  | cons x l ih =>
    rw [List.eraseDups_cons]
    refine List.nodup_cons.mpr ⟨?_, ih⟩
    simp [List.mem_eraseDups]

theorem eraseDups_of_nodup {l : List α} (distinct : l.Nodup) : l.eraseDups = l := by
  induction l with
  | nil => rfl
  | cons x l ih =>
    obtain ⟨fresh, distinct⟩ := List.nodup_cons.mp distinct
    have kept : (l.filter fun y => !y == x) = l := by
      refine List.filter_eq_self.mpr fun y member => ?_
      have other : y ≠ x := fun same => fresh (same ▸ member)
      simpa using other
    rw [List.eraseDups_cons, kept, ih distinct]

theorem filter_eraseDups (p : α → Bool) (l : List α) :
    l.eraseDups.filter p = (l.filter p).eraseDups := by
  induction l using eraseDups_induction with
  | nil => simp
  | cons x l ih =>
    rw [List.eraseDups_cons]
    by_cases passes : p x = true
    · rw [List.filter_cons_of_pos passes, List.filter_cons_of_pos passes, List.eraseDups_cons, ih,
        List.filter_filter, List.filter_filter]
      simp only [Bool.and_comm]
    · rw [List.filter_cons_of_neg passes, List.filter_cons_of_neg passes, ih, List.filter_filter]
      congr 1
      refine List.filter_congr fun y _ => ?_
      by_cases same : y = x
      · subst same
        simpa using passes
      · simp [same]

end

namespace Text

variable {l l' start start' rest : List String} {sep : String}

theorem mem_adjoin {x y : String} : y ∈ adjoin l x ↔ y ∈ l ∨ y = x := by
  unfold adjoin
  split
  · rename_i old
    have member : x ∈ l := List.contains_iff_mem.mp old
    constructor
    · exact Or.inl
    · rintro (inside | rfl)
      · exact inside
      · exact member
  · simp

/-- Texts that are added come in the order of their first occurrence. -/
theorem foldl_adjoin (xs l : List String) :
    xs.foldl adjoin l = l ++ (xs.removeAll l).eraseDups := by
  induction xs generalizing l with
  | nil => simp
  | cons x xs ih =>
    rw [List.foldl_cons, ih]
    by_cases old : x ∈ l
    · have same : adjoin l x = l := if_pos (List.contains_iff_mem.mpr old)
      have dropped : (x :: xs).removeAll l = xs.removeAll l := by
        simp [List.removeAll, old]
      rw [same, dropped]
    · have added : adjoin l x = l ++ [x] := if_neg (mt List.contains_iff_mem.mp old)
      have kept : (x :: xs).removeAll l = x :: xs.removeAll l := by
        simp [List.removeAll, old]
      have fewer : xs.removeAll (l ++ [x]) = (xs.removeAll l).filter (!· == x) := by
        rw [List.removeAll, List.removeAll, List.filter_filter]
        refine List.filter_congr fun y _ => ?_
        by_cases same : y = x <;> simp [same]
      rw [added, kept, List.eraseDups_cons, fewer]
      simp

theorem mem_removeAll {x : String} {xs l : List String} :
    x ∈ (xs.removeAll l).eraseDups ↔ x ∈ xs ∧ x ∉ l := by
  simp [List.mem_eraseDups, List.removeAll]

theorem mem_foldl_adjoin {x : String} {xs l : List String} :
    x ∈ xs.foldl adjoin l ↔ x ∈ l ∨ x ∈ xs := by
  rw [foldl_adjoin, List.mem_append, mem_removeAll]
  by_cases old : x ∈ l <;> simp [old]

/-! ### Order -/

theorem sorted_perm (l : List String) : (sorted l).Perm l :=
  List.mergeSort_perm l _

theorem sorted_pairwise (l : List String) : (sorted l).Pairwise (· ≤ ·) := by
  have ordered : (sorted l).Pairwise fun a b => decide (a ≤ b) = true :=
    List.pairwise_mergeSort (fun a b c => by simpa using String.le_trans)
      (fun a b => by simpa using String.le_total a b) l
  simpa using ordered

theorem eq_sorted (ordered : l'.Pairwise (· ≤ ·)) (same : l'.Perm l) : l' = sorted l :=
  List.Perm.eq_of_pairwise (fun _ _ _ _ => String.le_antisymm) ordered (sorted_pairwise l)
    (same.trans (sorted_perm l).symm)

theorem sorted_congr (same : l.Perm l') : sorted l = sorted l' :=
  eq_sorted (sorted_pairwise l) ((sorted_perm l).trans same)

/-- Where all texts with a property come before all without, the two kinds are sorted apart. -/
theorem sorted_split {p : String → Bool} (before : ∀ a b, p a = true → p b = false → a ≤ b)
    (l : List String) : sorted l = sorted (l.filter p) ++ sorted (l.filter fun x => !p x) := by
  symm
  apply eq_sorted
  · refine List.pairwise_append.mpr ⟨sorted_pairwise _, sorted_pairwise _, fun a early b late => ?_⟩
    have early := List.mem_filter.mp ((sorted_perm _).mem_iff.mp early)
    have late := List.mem_filter.mp ((sorted_perm _).mem_iff.mp late)
    exact before a b early.2 (by simpa using late.2)
  · exact ((sorted_perm _).append (sorted_perm _)).trans (List.filter_append_perm p l)

/-! ### Joining -/

theorem intercalate_append_ne (rest : List String) (separates : sep ≠ "") (some : start ≠ [])
    (filled : "" ∉ start) :
    sep.intercalate (start ++ rest) ≠ sep.intercalate rest := by
  intro same
  have long : 0 < sep.toList.length := by
    refine List.length_pos_iff.mpr fun empty => separates ?_
    rw [← String.ofList_toList (s := sep), empty]
  by_cases more : rest = []
  · subst more
    rw [List.append_nil, String.intercalate_nil] at same
    match start, some with
    | [x], _ =>
      rw [String.intercalate_singleton] at same
      exact filled (by simp [same])
    | x :: y :: start, _ =>
      have chars := congrArg (·.toList.length) same
      simp only [String.intercalate_cons_cons, String.toList_append, List.length_append,
        String.toList_empty, List.length_nil] at chars
      omega
  · rw [String.intercalate_append_of_ne_nil some more] at same
    have chars := congrArg (·.toList.length) same
    simp only [String.toList_append, List.length_append] at chars
    omega

/-- Two lists with one end join to one text exactly if they do so without it. -/
theorem intercalate_cancel (separates : sep ≠ "")
    (filled : (start = [] ↔ start' = []) ∨ ("" ∉ start ∧ "" ∉ start')) :
    sep.intercalate (start ++ rest) = sep.intercalate (start' ++ rest) ↔
      (start = [] ↔ start' = []) ∧ sep.intercalate start = sep.intercalate start' := by
  by_cases empty : start = []
  · by_cases empty' : start' = []
    · simp [empty, empty']
    · have full : "" ∉ start' := by simpa [empty, empty'] using filled
      have different := intercalate_append_ne rest separates empty' full
      simp [empty, empty', different.symm]
  · by_cases empty' : start' = []
    · have full : "" ∉ start := by simpa [empty, empty'] using filled
      have different := intercalate_append_ne rest separates empty full
      simp [empty, empty', different]
    · by_cases more : rest = []
      · simp [more, empty, empty']
      · rw [String.intercalate_append_of_ne_nil empty more,
          String.intercalate_append_of_ne_nil empty' more, String.append_left_inj,
          String.append_left_inj]
        simp [empty, empty']

end Text

end Premise
