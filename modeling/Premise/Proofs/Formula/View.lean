import Premise.Proofs.Formula.Parser

/-!
What of its state the reader goes by. A view forgets about formulas and about counts of negation signs
no more than reading forgets about them, so that states with the same view take the same course over
the same words, and come to states with the same view. Main statement: `shifts_view`.
-/
namespace Premise

/-- A way to look at formulas, and at counts of negations, that goes through joining and negating. -/
structure View where
  formula : Formula → Formula
  count : Nat → Nat
  again : ∀ t, formula (formula t) = formula t
  joined : ∀ op l r, formula (.binary op (formula l) (formula r)) = formula (.binary op l r)
  negated : ∀ n t, formula ((formula t).negs (count n)) = formula (t.negs n)
  counted : ∀ n, count (count n) = count n
  next : ∀ n, count (count n + 1) = count (n + 1)

variable {v : View} {t u : Formula}

namespace Level

def view (v : View) (l : Level) : Level where
  equivalent := l.equivalent.map v.formula
  antecedents := l.antecedents.map v.formula
  disjunct := l.disjunct.map v.formula
  conjunct := l.conjunct.map v.formula
  negations := v.count l.negations

theorem view_view (l : Level) : (l.view v).view v = l.view v := by
  simp [view, Function.comp_def, v.again, v.counted]

theorem view_join (op : Connective) (left : Option Formula) (x : Formula) :
    v.formula (join op (left.map v.formula) (v.formula x)) = v.formula (join op left x) := by
  cases left with
  | none => exact v.again x
  | some l => exact v.joined op l x

/-- What is joined to the same operand looks the same where it looked the same before. -/
theorem view_join_congr {op : Connective} (left : Option Formula)
    (same : v.formula t = v.formula u) :
    v.formula (join op (left.map v.formula) t) = v.formula (join op left u) := by
  have twice : (left.map v.formula).map v.formula = left.map v.formula := by
    simp [Function.comp_def, v.again]
  rw [← view_join, twice, same, view_join]

theorem view_closeAnd (l : Level) (x : Formula) :
    v.formula ((l.view v).closeAnd (v.formula x)) = v.formula (l.closeAnd x) :=
  view_join .and l.conjunct x

theorem view_closeOr (l : Level) (x : Formula) :
    v.formula ((l.view v).closeOr (v.formula x)) = v.formula (l.closeOr x) :=
  view_join_congr l.disjunct (view_closeAnd l x)

theorem view_closeImplies (l : Level) (x : Formula) :
    v.formula ((l.view v).closeImplies (v.formula x)) = v.formula (l.closeImplies x) := by
  have fold (fs : List Formula) {y z : Formula} (same : v.formula y = v.formula z) :
      v.formula ((fs.map v.formula).foldl (fun right left => .binary .implies left right) y) =
        v.formula (fs.foldl (fun right left => .binary .implies left right) z) := by
    induction fs generalizing y z with
    | nil => exact same
    | cons f fs ih => exact ih (view_join_congr (some f) same)
  exact fold l.antecedents (view_closeOr l x)

theorem view_close (l : Level) (x : Formula) :
    v.formula ((l.view v).close (v.formula x)) = v.formula (l.close x) :=
  view_join_congr l.equivalent (view_closeImplies l x)

theorem close_congr {l l' : Level} (level : l.view v = l'.view v)
    (read : v.formula t = v.formula u) : v.formula (l.close t) = v.formula (l'.close u) := by
  rw [← view_close, level, read, view_close]

theorem view_extend (l : Level) (x : Formula) (op : Connective) :
    ((l.view v).extend (v.formula x) op).view v = (l.extend x op).view v := by
  cases op with
  | and => simp [extend, view, v.again, Function.comp_def, ← view_closeAnd l x]
  | or => simp [extend, view, v.again, Function.comp_def, ← view_closeOr l x]
  | implies => simp [extend, view, v.again, Function.comp_def, ← view_closeOr l x]
  | iff => simp [extend, view, ← view_close l x]

theorem extend_congr {l l' : Level} (level : l.view v = l'.view v)
    (read : v.formula t = v.formula u) (op : Connective) :
    (l.extend t op).view v = (l'.extend u op).view v := by
  rw [← view_extend, level, read, view_extend]

end Level

namespace Parser

def view (v : View) (p : Parser) : Parser where
  enclosing := p.enclosing.map (Level.view v)
  level := p.level.view v
  operand := p.operand.map v.formula

theorem take_view {ls ls' : List Level} {l l' : Level}
    (enclosing : ls.map (Level.view v) = ls'.map (Level.view v)) (level : l.view v = l'.view v)
    (read : v.formula t = v.formula u) : (take ls l t).view v = (take ls' l' u).view v := by
  obtain ⟨equivalent, antecedents, disjunct, conjunct, count⟩ := Level.mk.inj level
  have operand : v.formula (t.negs l.negations) = v.formula (u.negs l'.negations) := by
    rw [← v.negated, read, count, v.negated]
  simp only [take, view, Level.view, enclosing, equivalent, antecedents, disjunct, conjunct,
    Option.map_some, operand]

/-- What the reader does next depends on the view alone. -/
theorem shift_view (p : Parser) (w : Word) :
    ((p.view v).shift? w).map (view v) = (p.shift? w).map (view v) := by
  have levels (ls : List Level) :
      (ls.map (Level.view v)).map (Level.view v) = ls.map (Level.view v) := by
    simp [Level.view_view]
  obtain ⟨enclosing, l, _ | x⟩ := p
  · cases w with
    | operator op =>
      cases op with
      | not =>
        simp [view, shift?, step, Except.toOption, levels, Level.view, Function.comp_def, v.again,
          v.next]
      | connective op => rfl
    | identifier name => exact congrArg some (take_view (levels enclosing) l.view_view rfl)
    | leftParen => simp [view, shift?, step, Except.toOption, levels, Level.view_view]
    | rightParen => rfl
  · cases w with
    | operator op =>
      cases op with
      | not => rfl
      | connective op =>
        simp [view, shift?, step, Except.toOption, Level.view_extend, levels]
    | rightParen =>
      cases enclosing with
      | nil => rfl
      | cons outer rest =>
        exact congrArg some (take_view (levels rest) outer.view_view (l.view_close x))
    | identifier name => rfl
    | leftParen => rfl

/-- States of one view take the same course over the same words. -/
theorem shifts_view {p q : Parser} (same : p.view v = q.view v) (ws : List Word) :
    (p.shifts? ws).map (view v) = (q.shifts? ws).map (view v) := by
  induction ws generalizing p q with
  | nil => exact congrArg some same
  | cons w ws ih =>
    have course : (p.shift? w).map (view v) = (q.shift? w).map (view v) := by
      rw [← shift_view, same, shift_view]
    rw [shifts?_cons, shifts?_cons]
    cases first : p.shift? w with
    | none =>
      rw [first] at course
      rw [Option.map_eq_none_iff.mp course.symm]
    | some p₁ =>
      rw [first] at course
      obtain ⟨q₁, first', same'⟩ := Option.map_eq_some_iff.mp course.symm
      rw [first']
      exact ih same'.symm

end Parser

end Premise
