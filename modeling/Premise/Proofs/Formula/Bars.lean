import Premise.Proofs.Formula.Balance
import Premise.Proofs.Text.Collection

/-!
Bars in texts. A bar between two blanks joins texts, and may as well spell the disjunction of two
sides; where it stands outside parentheses, the joined text does not tell which of the two it is.
Main statements: `outerParts_eq_iff`, that closed texts are joined to one text exactly if they have
the same parts between such bars, and `Reads.closed_strip`, that texts that read are closed.
-/
namespace Premise

/-! ### Ends of texts -/

/-- A character that can be the last of a formula. -/
def endsFormula (c : Char) : Bool :=
  Text.isBlank c || isIdentifierChar c || c == ')'

/-- A word that can be the last of a formula. -/
def Word.Ends : Word → Prop
  | identifier _ | rightParen => True
  | operator _ | leftParen => False

theorem getLast?_cons_of {α : Type} {x y : α} {l : List α} (last : l.getLast? = some y) :
    (x :: l).getLast? = some y := by
  simp [List.getLast?_cons, last]

theorem Phrase.last {e : Extent} {ws : List Word} (h : Phrase e ws) :
    ∃ w, ws.getLast? = some w ∧ w.Ends := by
  induction h with
  | identifier name => exact ⟨_, rfl, trivial⟩
  | parenthesized _ _ => exact ⟨.rightParen, getLast?_cons_of (by simp), trivial⟩
  | not _ ih =>
    obtain ⟨w, last, ends⟩ := ih
    exact ⟨w, getLast?_cons_of last, ends⟩
  | operand _ ih => exact ih
  | join op _ _ _ ih =>
    obtain ⟨w, last, ends⟩ := ih
    exact ⟨w, by simp [getLast?_cons_of last], ends⟩

theorem Spells.blanks {cs : List Char} {ws : List Word} (h : Spells cs ws) (none : ws = []) :
    ∀ c ∈ cs, Text.isBlank c = true := by
  induction h with
  | nil => simp
  | blank blank _ ih => exact List.forall_mem_cons.mpr ⟨blank, ih none⟩
  | _ => cases none

theorem symbol_last {cs rest : List Char} {op : Operator} {c : Char}
    (found : Operator.ofSymbol? cs = some (op, rest)) (last : rest.getLast? = some c) :
    cs.getLast? = some c := by
  unfold Operator.ofSymbol? at found
  split at found <;> cases found <;> simp [getLast?_cons_of last]

theorem last_of_all {cs : List Char} (some : cs ≠ []) (ends : ∀ c ∈ cs, endsFormula c = true) :
    ∃ c, cs.getLast? = .some c ∧ endsFormula c = true :=
  ⟨cs.getLast some, List.getLast?_eq_some_getLast some, ends _ (List.getLast_mem some)⟩

theorem Spells.last {cs : List Char} {ws : List Word} {w : Word} (h : Spells cs ws)
    (last : ws.getLast? = some w) (ends : w.Ends) :
    ∃ c, cs.getLast? = some c ∧ endsFormula c = true := by
  have blank_ends : ∀ c, Text.isBlank c = true → endsFormula c = true := by
    intro c blank
    simp [endsFormula, blank]
  induction h with
  | nil => cases last
  | blank _ _ ih =>
    obtain ⟨d, final, kind⟩ := ih last
    exact ⟨d, getLast?_cons_of final, kind⟩
  | @leftParen cs ws _ ih =>
    cases ws with
    | nil =>
      cases Option.some.inj last
      exact ends.elim
    | cons x ws =>
      obtain ⟨d, final, kind⟩ := ih last
      exact ⟨d, getLast?_cons_of final, kind⟩
  | @rightParen cs ws rest ih =>
    cases ws with
    | nil =>
      refine last_of_all (List.cons_ne_nil _ _) (List.forall_mem_cons.mpr ⟨by decide, ?_⟩)
      exact fun c member => blank_ends c (rest.blanks rfl c member)
    | cons x ws =>
      obtain ⟨d, final, kind⟩ := ih last
      exact ⟨d, getLast?_cons_of final, kind⟩
  | @symbol cs rest op ws found _ ih =>
    cases ws with
    | nil =>
      cases Option.some.inj last
      exact ends.elim
    | cons x ws =>
      obtain ⟨d, final, kind⟩ := ih last
      exact ⟨d, symbol_last found final, kind⟩
  | @run c more rest ws letter run _ rest' ih =>
    cases ws with
    | nil =>
      refine last_of_all (List.cons_ne_nil _ _) (List.forall_mem_cons.mpr ⟨?_, ?_⟩)
      · simp [endsFormula, identifierChar_of_letter letter]
      · intro d member
        rcases List.mem_append.mp member with inside | behind
        · simp [endsFormula, run d inside]
        · exact blank_ends d (rest'.blanks rfl d behind)
    | cons x ws =>
      obtain ⟨d, final, kind⟩ := ih last
      exact ⟨d, getLast?_cons_of (by simp [final]), kind⟩

namespace Formula

theorem Reads.last {text : String} (h : Reads text) :
    ∃ c, text.toList.getLast? = some c ∧ endsFormula c = true := by
  obtain ⟨t, parsed⟩ := h
  obtain ⟨ws, spelled, derived⟩ := parse_ok_iff.mp parsed
  obtain ⟨w, last, ends⟩ := derived.phrase.1.last
  exact spelled.last last ends

/-- Taking off pairs of negation signs leaves the end as it is. -/
theorem strip_last {text : String} {c : Char} (last : text.toList.getLast? = some c)
    (ends : endsFormula c = true) : (stripDoubleNegation text).toList.getLast? = some c := by
  refine (strip_invariant (P := fun text => text.toList.getLast? = some c) (fun other => ?_)
    text).mpr last
  have signed : ("~~" ++ other).toList = '~' :: '~' :: other.toList := String.toList_append
  rw [signed]
  cases other.toList with
  | nil =>
    apply iff_of_false
    · rintro ⟨⟩
      cases ends
    · rintro ⟨⟩
  | cons d rest => rfl

end Formula

/-! ### Parts between bars -/

open Validation (balancedFrom)

/-- How many parentheses are open after a character. -/
def openAfter (depth : Nat) (c : Char) : Nat :=
  if c = '(' then depth + 1 else if c = ')' then depth - 1 else depth

/-- The parts of a text between the bars that stand outside parentheses. `depth` parentheses are
open, and `part` was read since the last bar. -/
def barParts : Nat → List Char → List Char → List (List Char)
  | _, part, [] => [part]
  | 0, part, ' ' :: '|' :: ' ' :: rest => part :: barParts 0 [] rest
  | depth, part, c :: rest => barParts (openAfter depth c) (part ++ [c]) rest

theorem balancedFrom_openAfter {depth : Nat} {c : Char} {cs : List Char}
    (h : balancedFrom depth (c :: cs) = true) : balancedFrom (openAfter depth c) cs = true := by
  by_cases left : c = '('
  · subst left
    exact h
  · by_cases right : c = ')'
    · subst right
      cases depth with
      | zero => cases h
      | succ depth => exact h
    · have outside : isParen c = false := by simp [isParen, left, right]
      rw [Validation.balancedFrom_other _ _ outside] at h
      simpa [openAfter, left, right] using h

theorem barParts_append {depth : Nat} {part cs : List Char} (h : balancedFrom depth cs = true)
    (noBar : cs.getLast? ≠ some '|') (rest : List Char) :
    barParts depth part (cs ++ " | ".toList ++ rest) =
      barParts depth part cs ++ barParts 0 [] rest := by
  fun_induction barParts depth part cs with
  | case1 depth part =>
    have closed : depth = 0 := by simpa [balancedFrom] using h
    subst closed
    simp [barParts]
  | case2 part cs ih =>
    have later : cs.getLast? ≠ some '|' := fun last =>
      noBar (getLast?_cons_of (getLast?_cons_of (getLast?_cons_of last)))
    rw [List.cons_append, List.cons_append, List.cons_append, List.cons_append, List.cons_append,
      List.cons_append, barParts, ih h later, List.cons_append]
  | case3 depth part c cs noCut ih =>
    have later : cs.getLast? ≠ some '|' := fun last => noBar (getLast?_cons_of last)
    rw [List.cons_append, List.cons_append, barParts, ih (balancedFrom_openAfter h) later]
    -- Nor does the bar that is put behind `cs` begin within it.
    rintro more rfl rfl cut
    cases cs with
    | nil => cases cut
    | cons d cs =>
      cases cs with
      | nil =>
        cases cut
        exact later rfl
      | cons e cs =>
        cases cut
        exact noCut cs rfl rfl rfl

theorem barParts_ne_nil (depth : Nat) (part cs : List Char) : barParts depth part cs ≠ [] := by
  fun_induction barParts depth part cs with
  | case1 => simp
  | case2 => simp
  | case3 _ _ _ _ _ ih => exact ih

theorem intercalate_barParts (depth : Nat) (part cs : List Char) :
    List.intercalate " | ".toList (barParts depth part cs) = part ++ cs := by
  fun_induction barParts depth part cs with
  | case1 => simp
  | case2 part cs ih =>
    obtain ⟨first, others, parts⟩ := List.exists_cons_of_ne_nil (barParts_ne_nil 0 [] cs)
    rw [parts] at ih ⊢
    rw [List.intercalate_cons_cons, ih]
    simp
  | case3 _ _ _ _ _ ih => simpa using ih

theorem barParts_intercalate {ls : List (List Char)} (some : ls ≠ [])
    (balanced : ∀ cs ∈ ls, balancedFrom 0 cs = true) (noBar : ∀ cs ∈ ls, cs.getLast? ≠ .some '|') :
    barParts 0 [] (List.intercalate " | ".toList ls) = ls.flatMap (barParts 0 []) := by
  induction ls with
  | nil => exact absurd rfl some
  | cons cs ls ih =>
    obtain ⟨first, others⟩ := List.forall_mem_cons.mp balanced
    obtain ⟨first', others'⟩ := List.forall_mem_cons.mp noBar
    cases ls with
    | nil => simp
    | cons ds ls =>
      rw [List.intercalate_cons_cons, barParts_append first first',
        ih (List.cons_ne_nil _ _) others others']
      rfl

/-- A text without bars is one part. -/
theorem barParts_plain (depth : Nat) (part cs : List Char) (plain : '|' ∉ cs) :
    barParts depth part cs = [part ++ cs] := by
  fun_induction barParts depth part cs with
  | case1 => simp
  | case2 part cs ih => simp at plain
  | case3 depth part c cs _ ih =>
    rw [ih (fun member => plain (List.mem_cons_of_mem c member))]
    simp

/-! ### Joined texts -/

/-- The parts of a text between the bars that stand outside parentheses. -/
def outerParts (text : String) : List String :=
  (barParts 0 [] text.toList).map String.ofList

/-- Parentheses are closed, and the last character can be the last of a formula. -/
def Closed (text : String) : Prop :=
  balancedFrom 0 text.toList = true ∧ ∃ c, text.toList.getLast? = some c ∧ endsFormula c = true

theorem Closed.noBar {text : String} (h : Closed text) : text.toList.getLast? ≠ some '|' := by
  obtain ⟨-, c, last, ends⟩ := h
  intro bar
  cases Option.some.inj (last.symm.trans bar)
  cases ends

theorem not_closed_empty : ¬ Closed "" := by
  rintro ⟨-, c, last, -⟩
  cases last

theorem intercalate_outerParts (text : String) : " | ".intercalate (outerParts text) = text := by
  have chars : (" | ".intercalate (outerParts text)).toList = text.toList := by
    simpa [outerParts, Function.comp_def] using intercalate_barParts 0 [] text.toList
  exact String.toList_inj.mp chars

theorem outerParts_plain {text : String} (plain : '|' ∉ text.toList) :
    outerParts text = [text] := by
  simp [outerParts, barParts_plain 0 [] _ plain]

variable {l l' : List String}

theorem outerParts_intercalate (some : l ≠ []) (closed : ∀ f ∈ l, Closed f) :
    outerParts (" | ".intercalate l) = l.flatMap outerParts := by
  have parts : barParts 0 [] (" | ".toList.intercalate (l.map String.toList)) =
      (l.map String.toList).flatMap (barParts 0 []) :=
    barParts_intercalate (by simpa using some)
      (by simpa using fun f member => (closed f member).1)
      (by simpa using fun f member => (closed f member).noBar)
  rw [outerParts, String.toList_intercalate, parts, List.flatMap_map, List.map_flatMap]
  rfl

theorem intercalate_flatMap_outerParts (closed : ∀ f ∈ l, Closed f) :
    " | ".intercalate (l.flatMap outerParts) = " | ".intercalate l := by
  by_cases some : l = []
  · rw [some, List.flatMap_nil]
  · rw [← outerParts_intercalate some closed, intercalate_outerParts]

theorem eq_nil_of_joined_empty (closed : ∀ f ∈ l, Closed f) (none : " | ".intercalate l = "") :
    l = [] := by
  cases l with
  | nil => rfl
  | cons f l =>
    have filled : "" ∉ f :: l := fun member => not_closed_empty (closed "" member)
    have longer : " | ".intercalate (f :: l ++ []) ≠ " | ".intercalate [] :=
      Text.intercalate_append_ne [] (by decide) (List.cons_ne_nil f l) filled
    rw [List.append_nil, none] at longer
    exact absurd rfl longer

/-- Closed texts are joined to one text exactly if they have the same parts. -/
theorem outerParts_eq_iff (closed : ∀ f ∈ l, Closed f) (closed' : ∀ f ∈ l', Closed f) :
    " | ".intercalate l = " | ".intercalate l' ↔ l.flatMap outerParts = l'.flatMap outerParts := by
  constructor
  · intro same
    by_cases none : l = []
    · subst none
      rw [eq_nil_of_joined_empty closed' (by simpa using same.symm)]
    · by_cases none' : l' = []
      · subst none'
        exact absurd (eq_nil_of_joined_empty closed (by simpa using same)) none
      · rw [← outerParts_intercalate none closed, same, outerParts_intercalate none' closed']
  · intro parts
    rw [← intercalate_flatMap_outerParts closed, parts, intercalate_flatMap_outerParts closed']

namespace Formula

theorem Reads.closed_strip {text : String} (h : Reads text) :
    Closed (stripDoubleNegation text) := by
  obtain ⟨c, last, ends⟩ := h.last
  exact ⟨strip_balanced h, c, strip_last last ends, ends⟩

end Formula

end Premise
