import Premise.Proofs.Formula.Reading

/-!
Reading a rendering, or a tree in more parentheses than its rendering has, under a limit on nesting.
Main statement: `parse_render_within`, that the limit refuses no tree whose height it allows.
-/
namespace Premise

/-- How many formulas are open at once while the rendering is read. -/
def Formula.height : Formula → Nat
  | atom _ => 0
  | neg t => t.height
  | binary op l r => 1 + max l.height (r.height + if op = .implies then 1 else 0)

theorem Formula.nesting_le_height (t : Formula) : t.nesting ≤ t.height := by
  induction t with
  | atom name => exact Nat.le_refl 0
  | neg t ih => exact ih
  | binary op l r left right =>
    have deeper : max l.nesting r.nesting ≤
        max l.height (r.height + if op = .implies then 1 else 0) := by
      omega
    simp only [nesting, height]
    omega

/-- A binary formula opens a parenthesis, and a side to be read after it. -/
theorem Formula.height_le_nesting (t : Formula) : t.height ≤ 2 * t.nesting := by
  induction t with
  | atom name => exact Nat.le_refl 0
  | neg t ih => exact ih
  | binary op l r left right =>
    simp only [nesting, height]
    split <;> omega

theorem Formula.height_within {limit : Option Nat} {t u : Formula} (nested : u.nesting = t.nesting)
    (room : ∀ n ∈ limit, 2 * t.nesting ≤ n) : ∀ n ∈ limit, u.height ≤ n := by
  intro n bound
  have enough := room n bound
  have bounded := u.height_le_nesting
  omega

/-- The words write the tree with each binary formula in parentheses, and perhaps more parentheses
around any part. The number is how many formulas are open at once while the words are read. -/
inductive Writes : List Word → Formula → Nat → Prop where
  | atom (name : String) : Writes [.identifier name] (.atom name) 0
  | neg {ws : List Word} {t : Formula} {n : Nat} :
      Writes ws t n → Writes (.operator .not :: ws) (.neg t) n
  | binary (op : Connective) {ws us : List Word} {l r : Formula} {m n : Nat} :
      Writes ws l m → Writes us r n →
      Writes (.leftParen :: (ws ++ .operator (.connective op) :: us ++ [.rightParen]))
        (.binary op l r) (1 + max m (n + if op = .implies then 1 else 0))
  | parens {ws : List Word} {t : Formula} {n : Nat} :
      Writes ws t n → Writes (.leftParen :: (ws ++ [.rightParen])) t (n + 1)

theorem Formula.words_write (t : Formula) : Writes t.words t t.height := by
  induction t with
  | atom name => exact .atom name
  | neg t ih => exact .neg ih
  | binary op l r left right => exact .binary op left right

namespace Parser

/-! ### Depth -/

theorem depth_add (ls : List Level) (n k : Nat) :
    ls.foldl (fun n l => n + 1 + l.antecedents.length) (n + k) =
      ls.foldl (fun n l => n + 1 + l.antecedents.length) n + k := by
  induction ls generalizing n with
  | nil => rfl
  | cons l ls ih =>
    rw [List.foldl_cons, List.foldl_cons, ← ih]
    congr 1
    omega

theorem depth_open (ls : List Level) (l : Level) (x y : Option Formula) :
    depth ⟨l :: ls, {}, x⟩ = depth ⟨ls, l, y⟩ + 1 := by
  have moved := depth_add ls l.antecedents.length 1
  simp only [depth, List.foldl_cons]
  rw [← moved]
  congr 1
  simp only [List.length_nil]
  omega

theorem depth_extend (ls : List Level) (x : Formula) (op : Connective) :
    depth ⟨ls, Level.extend {} x op, none⟩ =
      depth ⟨ls, {}, none⟩ + if op = .implies then 1 else 0 := by
  cases op with
  | implies => exact depth_add ls 0 1
  | _ => rfl

/-! ### Runs within the limit -/

variable {limit : Option Nat}

theorem run_append (p : Parser) (ts us : List Token) :
    p.run limit (ts ++ us) = (p.run limit ts >>= fun q => q.run limit us) := by
  induction ts generalizing p with
  | nil => rfl
  | cons t ts ih =>
    rw [List.cons_append, run, run]
    cases p.advance limit t with
    | error e => rfl
    | ok q => exact ih q

theorem run_cons {p q : Parser} {t : Token} (ts : List Token) (shifted : p.shift? t.word = some q)
    (within : ∀ n ∈ limit, q.depth ≤ n) : p.run limit (t :: ts) = q.run limit ts := by
  have allowed : limit.any (· < q.depth) = false := by
    cases limit with
    | none => rfl
    | some n =>
      have bound := within n rfl
      simpa using bound
  rw [run, advance, step_ok_iff.mpr shifted]
  simp only [allowed]
  rfl

theorem exists_of_parens {ws : List Word} {ts : List Token}
    (spelled : ts.map Token.word = .leftParen :: (ws ++ [.rightParen])) :
    ∃ first xs last, ts = first :: (xs ++ [last]) ∧ first.word = .leftParen ∧
      xs.map Token.word = ws ∧ last.word = .rightParen := by
  obtain ⟨first, rest, rfl, opening, inner⟩ := List.map_eq_cons_iff.mp spelled
  obtain ⟨xs, rest, rfl, inside, after⟩ := List.map_eq_append_iff.mp inner
  obtain ⟨last, rest, rfl, closing, ended⟩ := List.map_eq_cons_iff.mp after
  rw [List.map_eq_nil_iff] at ended
  subst ended
  exact ⟨first, xs, last, rfl, opening, inside, closing⟩

theorem exists_of_binary_words {op : Connective} {ws us : List Word} {ts : List Token}
    (spelled : ts.map Token.word =
      .leftParen :: (ws ++ .operator (.connective op) :: us ++ [.rightParen])) :
    ∃ first xs middle ys last, ts = first :: (xs ++ middle :: (ys ++ [last])) ∧
      first.word = .leftParen ∧ xs.map Token.word = ws ∧
      middle.word = .operator (.connective op) ∧ ys.map Token.word = us ∧
      last.word = .rightParen := by
  obtain ⟨first, inner, last, rfl, opening, inside, closing⟩ := exists_of_parens spelled
  obtain ⟨xs, rest, rfl, left, after⟩ := List.map_eq_append_iff.mp inside
  obtain ⟨middle, ys, rfl, joining, right⟩ := List.map_eq_cons_iff.mp after
  exact ⟨first, xs, middle, ys, last, by simp, opening, left, joining, right, closing⟩

/-- Two operands that are read in their places are read together in parentheses. -/
theorem run_joined {op : Connective} {x y : Formula} {ls : List Level} {l : Level}
    {first middle last : Token} {xs ys : List Token} (opening : first.word = .leftParen)
    (joining : middle.word = .operator (.connective op)) (closing : last.word = .rightParen)
    (left : run limit ⟨l :: ls, {}, none⟩ xs = .ok (take (l :: ls) {} x))
    (right : run limit ⟨l :: ls, Level.extend {} x op, none⟩ ys =
      .ok (take (l :: ls) (Level.extend {} x op) y))
    (room : ∀ n ∈ limit, depth ⟨l :: ls, {}, none⟩ ≤ n ∧
      depth ⟨l :: ls, Level.extend {} x op, none⟩ ≤ n ∧ depth ⟨ls, l, none⟩ ≤ n) :
    run limit ⟨ls, l, none⟩ (first :: (xs ++ middle :: (ys ++ [last]))) =
      .ok (take ls l (.binary op x y)) := by
  have opened : shift? ⟨ls, l, none⟩ first.word = some ⟨l :: ls, {}, none⟩ := by
    rw [opening]
    rfl
  have joined : shift? (take (l :: ls) {} x) middle.word =
      some ⟨l :: ls, Level.extend {} x op, none⟩ := by
    rw [joining]
    rfl
  have closed : shift? (take (l :: ls) (Level.extend {} x op) y) last.word =
      some (take ls l (.binary op x y)) := by
    rw [closing]
    cases op <;> rfl
  rw [run_cons _ opened (fun n bound => (room n bound).1), run_append, left]
  change run limit (take (l :: ls) {} x) (middle :: (ys ++ [last])) = _
  rw [run_cons _ joined (fun n bound => (room n bound).2.1), run_append, right]
  exact run_cons [] closed fun n bound => (room n bound).2.2

/-- Words that write a tree are read from any state without operand, if the limit allows what they
open on top of the depth of the state. -/
theorem run_writes {t : Formula} {ws : List Word} {height : Nat} (writes : Writes ws t height)
    {ts : List Token} (spelled : ts.map Token.word = ws) (ls : List Level) (l : Level)
    (within : ∀ n ∈ limit, depth ⟨ls, l, none⟩ + height ≤ n) :
    run limit ⟨ls, l, none⟩ ts = .ok (take ls l t) := by
  induction writes generalizing ts ls l with
  | atom name =>
    obtain ⟨tok, rest, rfl, word, none⟩ := List.map_eq_cons_iff.mp spelled
    have ended : rest = [] := List.map_eq_nil_iff.mp none
    subst ended
    have shifted : shift? ⟨ls, l, .none⟩ tok.word = some (take ls l (.atom name)) := by
      rw [word]
      rfl
    rw [run_cons [] shifted within]
    rfl
  | @neg ws t height _ ih =>
    obtain ⟨tok, rest, rfl, word, words⟩ := List.map_eq_cons_iff.mp spelled
    let negated : Level := { l with negations := l.negations + 1 }
    have same : depth ⟨ls, negated, none⟩ = depth ⟨ls, l, none⟩ := rfl
    have shifted : shift? ⟨ls, l, none⟩ tok.word = some ⟨ls, negated, none⟩ := by
      rw [word]
      rfl
    have read : run limit ⟨ls, negated, none⟩ rest = .ok (take ls negated t) :=
      ih words ls negated within
    rw [run_cons rest shifted, read]
    · simp [take, negated, negs_neg]
    · intro n bound
      have whole := within n bound
      omega
  | @binary op ws us x y m k _ _ left right =>
    obtain ⟨first, xs, middle, ys, last, rfl, opening, words, joining, words', closing⟩ :=
      exists_of_binary_words spelled
    have inside : depth ⟨l :: ls, {}, none⟩ = depth ⟨ls, l, none⟩ + 1 := depth_open ls l none none
    -- An implication holds its left side open while its right side is read.
    have behind := depth_extend (l :: ls) x op
    have room : ∀ n ∈ limit, depth ⟨l :: ls, {}, none⟩ + m ≤ n ∧
        depth ⟨l :: ls, Level.extend {} x op, none⟩ + k ≤ n := by
      intro n bound
      have whole := within n bound
      omega
    have read := left words (l :: ls) {} fun n bound => (room n bound).1
    have read' := right words' (l :: ls) (Level.extend {} x op) fun n bound => (room n bound).2
    refine run_joined opening joining closing read read' fun n bound => ?_
    obtain ⟨first, second⟩ := room n bound
    omega
  | @parens ws t height _ ih =>
    obtain ⟨first, xs, last, rfl, opening, words, closing⟩ := exists_of_parens spelled
    have inside : depth ⟨l :: ls, {}, none⟩ = depth ⟨ls, l, none⟩ + 1 := depth_open ls l none none
    have opened : shift? ⟨ls, l, none⟩ first.word = some ⟨l :: ls, {}, none⟩ := by
      rw [opening]
      rfl
    have read : run limit ⟨l :: ls, {}, none⟩ xs = .ok (take (l :: ls) {} t) := by
      refine ih words (l :: ls) {} fun n bound => ?_
      have whole := within n bound
      omega
    have closed : shift? (take (l :: ls) {} t) last.word = some (take ls l t) := by
      rw [closing]
      rfl
    rw [run_cons _ opened, run_append, read]
    · refine run_cons [] closed fun n bound => ?_
      have whole := within n bound
      exact Nat.le_trans (Nat.le_add_right _ _) whole
    · intro n bound
      have whole := within n bound
      omega

end Parser

namespace Formula

variable {limit : Option Nat} {t : Formula}

theorem parse_of_writes {text : String} {ws : List Word} {height : Nat}
    (spells : Spells text.toList ws) (writes : Writes ws t height)
    (within : ∀ n ∈ limit, height ≤ n) : parse limit text = .ok t := by
  obtain ⟨ts, cut, spelled⟩ := ofText_ok.mpr spells
  have start : Parser.depth ⟨[], {}, none⟩ = 0 := rfl
  have ran := Parser.run_writes writes spelled [] {} fun n bound => by
    have := within n bound
    omega
  rw [parse, cut]
  dsimp only
  rw [ofTokens, ran]
  rfl

theorem parse_render_within (proper : t.Proper) (within : ∀ n ∈ limit, t.height ≤ n) :
    parse limit t.render = .ok t :=
  parse_of_writes (render_spells proper) t.words_write within

theorem read_render_within (proper : t.Proper) (within : ∀ n ∈ limit, t.height ≤ n) :
    read limit t.render = .ok t.normalize := by
  have allowed : limit.any (· < t.nesting) = false := by
    cases limit with
    | none => rfl
    | some n =>
      have bound := within n rfl
      have nested := t.nesting_le_height
      simp
      omega
  rw [read, parse_render_within proper within]
  simp only [allowed]
  rfl

end Formula

end Premise
