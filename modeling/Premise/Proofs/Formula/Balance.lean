import Premise.Proofs.Formula.Reading
import Premise.Validation

/-!
Parentheses in texts. Every text that reads is balanced, and so the outermost texts in parentheses
can be told from whatever stands between them. Main statements: `Reads.balanced` and
`groups_intercalate`.
-/
namespace Premise

/-! ### Parentheses of words -/

def isParen (c : Char) : Bool :=
  c == '(' || c == ')'

def Word.paren? : Word → Option Char
  | leftParen => some '('
  | rightParen => some ')'
  | _ => none

theorem not_paren {p : Char → Bool} (left : p '(' = false) (right : p ')' = false) {c : Char}
    (h : p c = true) : isParen c = false := by
  unfold isParen
  rw [Bool.or_eq_false_iff, beq_eq_false_iff_ne, beq_eq_false_iff_ne]
  constructor
  · rintro rfl
    rw [left] at h
    cases h
  · rintro rfl
    rw [right] at h
    cases h

theorem identifierChar_not_paren {c : Char} (h : isIdentifierChar c = true) : isParen c = false :=
  not_paren (by decide) (by decide) h

theorem symbol_parens {cs rest : List Char} {op : Operator}
    (h : Operator.ofSymbol? cs = some (op, rest)) : cs.filter isParen = rest.filter isParen := by
  unfold Operator.ofSymbol? at h
  split at h <;> cases h <;> rfl

theorem ofRun_paren (run : List Char) : (Word.ofRun run).paren? = none := by
  unfold Word.ofRun
  dsimp only
  split <;> rfl

theorem Spells.parens {cs : List Char} {ws : List Word} (h : Spells cs ws) :
    cs.filter isParen = ws.filterMap Word.paren? := by
  induction h with
  | nil => rfl
  | @blank c cs _ blank _ ih =>
    have outside : isParen c = false := not_paren (by decide) (by decide) blank
    rw [List.filter_cons_of_neg (by simp [outside]), ih]
  | leftParen _ ih => exact congrArg ('(' :: ·) ih
  | rightParen _ ih => exact congrArg (')' :: ·) ih
  | symbol found _ ih => rw [symbol_parens found, ih]; rfl
  | @run c more rest ws letter run _ _ ih =>
    have none : (more.filter isParen) = [] := by
      rw [List.filter_eq_nil_iff]
      intro d member
      simp [identifierChar_not_paren (run d member)]
    have first := identifierChar_not_paren (identifierChar_of_letter letter)
    rw [List.filter_cons_of_neg (by simp [first]), List.filter_append, none, ih,
      List.filterMap_cons_none (ofRun_paren _), List.nil_append]

/-! ### Balance -/

namespace Validation

theorem other_not_paren {depth : Nat} {c : Char} (noLeft : c = '(' → False)
    (noFirst : depth = 0 → c = ')' → False) (noLater : ∀ d, depth = d + 1 → c = ')' → False) :
    isParen c = false := by
  have noRight : c ≠ ')' := by
    cases depth with
    | zero => exact noFirst rfl
    | succ d => exact noLater d rfl
  simp [isParen, noRight, show c ≠ '(' from noLeft]

theorem balancedFrom_other {c : Char} (depth : Nat) (rest : List Char) (h : isParen c = false) :
    balancedFrom depth (c :: rest) = balancedFrom depth rest := by
  have left : c ≠ '(' := by rintro rfl; cases h
  have right : c ≠ ')' := by rintro rfl; cases h
  rw [balancedFrom] <;> simp [left, right]

theorem balancedFrom_filter (depth : Nat) (cs : List Char) :
    balancedFrom depth (cs.filter isParen) = balancedFrom depth cs := by
  fun_induction balancedFrom depth cs with
  | case1 depth => rfl
  | case2 depth rest ih => exact ih
  | case3 rest => rfl
  | case4 depth rest ih => exact ih
  | case5 depth c rest noLeft noFirst noLater ih =>
    have outside := other_not_paren noLeft noFirst noLater
    rw [List.filter_cons_of_neg (by simp [outside]), ih]

end Validation

theorem Phrase.balanced {e : Extent} {ws : List Word} (h : Phrase e ws) (depth : Nat)
    (rest : List Char) : Validation.balancedFrom depth (ws.filterMap Word.paren? ++ rest) =
      Validation.balancedFrom depth rest := by
  induction h generalizing depth rest with
  | identifier name => rfl
  | parenthesized _ ih =>
    simp only [List.filterMap_cons, Word.paren?, List.filterMap_append, List.cons_append,
      List.append_assoc]
    exact ih (depth + 1) (')' :: rest)
  | not _ ih => exact ih depth rest
  | operand _ ih => exact ih depth rest
  | join op _ _ left right =>
    rw [List.filterMap_append, List.filterMap_cons_none rfl, List.append_assoc, left, right]

theorem Formula.Reads.balanced {text : String} (h : Reads text) :
    Validation.balancedFrom 0 text.toList = true := by
  obtain ⟨t, parsed⟩ := h
  obtain ⟨ws, spelled, derived⟩ := parse_ok_iff.mp parsed
  have closed := derived.phrase.1.balanced 0 []
  rw [← Validation.balancedFrom_filter, spelled.parens]
  simpa [Validation.balancedFrom] using closed

theorem Formula.strip_balanced {text : String} (h : Reads text) :
    Validation.balancedFrom 0 (stripDoubleNegation text).toList = true := by
  refine (strip_invariant (P := fun text => Validation.balancedFrom 0 text.toList = true)
    (fun other => ?_) text).mpr h.balanced
  rw [String.toList_append]
  rfl

/-! ### Outermost parentheses -/

open Validation (balancedFrom)

/-- The texts in parentheses that stand in no others. `depth` are open, and `inner` was read since
the outermost of them. -/
def groups : Nat → List Char → List Char → List (List Char)
  | _, _, [] => []
  | depth, inner, '(' :: rest => groups (depth + 1) (inner ++ ['(']) rest
  | 0, inner, _ :: rest => groups 0 inner rest
  | 1, inner, ')' :: rest => (inner ++ [')']) :: groups 0 [] rest
  | depth + 2, inner, ')' :: rest => groups (depth + 1) (inner ++ [')']) rest
  | depth + 1, inner, c :: rest => groups (depth + 1) (inner ++ [c]) rest

theorem groups_other {c : Char} (depth : Nat) (inner rest : List Char) (h : isParen c = false) :
    groups (depth + 1) inner (c :: rest) = groups (depth + 1) (inner ++ [c]) rest := by
  have left : c ≠ '(' := by rintro rfl; cases h
  have right : c ≠ ')' := by rintro rfl; cases h
  rw [groups] <;> simp [left, right]

/-- Inside parentheses, balanced characters are passed over. -/
theorem groups_balanced {depth : Nat} {cs : List Char} (h : balancedFrom depth cs = true)
    (outer : Nat) (inner rest : List Char) :
    groups (outer + 1 + depth) inner (cs ++ rest) = groups (outer + 1) (inner ++ cs) rest := by
  fun_induction balancedFrom depth cs generalizing inner with
  | case1 depth =>
    have closed : depth = 0 := by simpa using h
    subst closed
    simp
  | case2 depth cs ih =>
    rw [List.cons_append, groups, Nat.add_assoc, ih h]
    simp
  | case3 => cases h
  | case4 depth cs ih =>
    have deeper : outer + 1 + (depth + 1) = outer + depth + 2 := by omega
    rw [List.cons_append, deeper, groups, show outer + depth + 1 = outer + 1 + depth by omega, ih h]
    simp
  | case5 depth c cs noLeft noFirst noLater ih =>
    have outside : isParen c = false := Validation.other_not_paren noLeft noFirst noLater
    have deeper : outer + 1 + depth = outer + depth + 1 := by omega
    rw [List.cons_append, deeper, groups_other _ _ _ outside, ← deeper, ih h]
    simp

theorem groups_append {depth : Nat} {inner cs : List Char} (h : balancedFrom depth cs = true)
    (fresh : depth = 0 → inner = []) (rest : List Char) :
    groups depth inner (cs ++ rest) = groups depth inner cs ++ groups 0 [] rest := by
  -- Along the recursion of `groups`: outside all parentheses nothing has been read into a group.
  fun_induction groups depth inner cs with
  | case1 depth inner =>
    have closed : depth = 0 := by simpa [balancedFrom] using h
    subst closed
    simp [fresh rfl]
  | case2 depth inner cs ih =>
    rw [List.cons_append, groups]
    exact ih h (by simp)
  | case3 inner c cs noLeft ih =>
    have outside : isParen c = false := by
      refine @Validation.other_not_paren 0 c noLeft ?_ ?_
      · rintro - rfl
        simp [balancedFrom] at h
      · intro d same
        omega
    rw [Validation.balancedFrom_other _ _ outside] at h
    rw [List.cons_append, groups]
    · exact ih h fresh
    · exact noLeft
  | case4 inner cs ih =>
    rw [List.cons_append, groups, ih h (fun _ => rfl), List.cons_append]
  | case5 depth inner cs ih =>
    rw [List.cons_append, groups]
    exact ih h (by simp)
  | case6 depth inner c cs noLeft noFirst noLater ih =>
    have outside := Validation.other_not_paren noLeft noFirst noLater
    rw [Nat.succ_eq_add_one, Validation.balancedFrom_other _ _ outside] at h
    rw [List.cons_append, groups_other _ _ _ outside]
    exact ih h (by simp)

theorem groups_intercalate {ls : List (List Char)} (h : ∀ cs ∈ ls, balancedFrom 0 cs = true) :
    groups 0 [] (List.intercalate " | ".toList ls) = ls.flatMap (groups 0 []) := by
  induction ls with
  | nil => rfl
  | cons cs ls ih =>
    obtain ⟨first, rest⟩ := List.forall_mem_cons.mp h
    cases ls with
    | nil => simp
    | cons ds ls =>
      rw [List.intercalate_cons_cons, List.append_assoc, groups_append first (fun _ => rfl),
        List.flatMap_cons, ← ih rest]
      rfl

theorem balancedFrom_append {depth : Nat} {cs : List Char} (h : balancedFrom depth cs = true)
    (rest : List Char) : balancedFrom depth (cs ++ rest) = balancedFrom 0 rest := by
  fun_induction balancedFrom depth cs with
  | case1 depth =>
    have closed : depth = 0 := by simpa using h
    rw [closed, List.nil_append]
  | case2 depth cs ih => exact ih h
  | case3 => cases h
  | case4 depth cs ih => exact ih h
  | case5 depth c cs noLeft noFirst noLater ih =>
    have outside := Validation.other_not_paren noLeft noFirst noLater
    rw [List.cons_append, Validation.balancedFrom_other _ _ outside, ih h]

/-- A joined text is a single text in parentheses. -/
theorem groups_joinText (op : Connective) {a b : String} (left : balancedFrom 0 a.toList = true)
    (right : balancedFrom 0 b.toList = true) :
    groups 0 [] (Formula.joinText op a b).toList = [(Formula.joinText op a b).toList] := by
  have middle : balancedFrom 0 (' ' :: (op.symbol.toList ++ ' ' :: b.toList)) = true := by
    cases op <;> exact right
  have body := (balancedFrom_append left _).trans middle
  have whole : (Formula.joinText op a b).toList =
      '(' :: ((a.toList ++ ' ' :: (op.symbol.toList ++ ' ' :: b.toList)) ++ [')']) := by
    simp [Formula.joinText_toList]
  rw [whole, groups, groups_balanced body 0]
  simp [groups]

end Premise
