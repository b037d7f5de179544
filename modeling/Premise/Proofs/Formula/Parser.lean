import Premise.Formula.Parser
import Premise.Proofs.Formula.Grammar

/-!
The reader against the grammar. A machine state spans the words read so far, which gives a derivation
for whatever is returned; and the machine shifts over every derivation, which gives the converse.
Main statement: `ofTokens_accepts_grammar`.
-/
namespace Premise

theorem negs_neg (n : Nat) (t : Formula) : (Formula.neg t).negs n = t.negs (n + 1) := by
  induction n with
  | zero => rfl
  | succ n ih => rw [Formula.negs, ih]; rfl

theorem Derives.negs {ws : List Word} {t : Formula} (h : Derives .negation ws t) (n : Nat) :
    Derives .negation (List.replicate n (.operator .not) ++ ws) (t.negs n) := by
  induction n with
  | zero => exact h
  | succ n ih => exact .not ih

namespace Parser

/-! ### The machine on words -/

def shift? (p : Parser) (w : Word) : Option Parser :=
  (p.step ⟨w, 0⟩).toOption

def shifts? (p : Parser) (ws : List Word) : Option Parser :=
  ws.foldlM shift? p

theorem shifts?_append (p : Parser) (ws us : List Word) :
    p.shifts? (ws ++ us) = (p.shifts? ws).bind (·.shifts? us) :=
  List.foldlM_append

theorem shifts?_cons (p : Parser) (w : Word) (ws : List Word) :
    p.shifts? (w :: ws) = (p.shift? w).bind (·.shifts? ws) :=
  List.foldlM_cons

theorem step_ok_iff {p q : Parser} {t : Token} : p.step t = .ok q ↔ p.shift? t.word = some q := by
  obtain ⟨w, n⟩ := t
  obtain ⟨enclosing, level, _ | x⟩ := p
  · cases w with
    | operator op => cases op <;> simp [shift?, step, Except.toOption]
    | _ => simp [shift?, step, Except.toOption]
  · cases w with
    | operator op => cases op <;> simp [shift?, step, Except.toOption]
    | rightParen => cases enclosing <;> simp [shift?, step, Except.toOption]
    | _ => simp [shift?, step, Except.toOption]

theorem advance_none (p : Parser) (t : Token) : p.advance none t = p.step t := by
  unfold advance
  cases p.step t <;> rfl

theorem run_ok_iff {p q : Parser} {ts : List Token} :
    p.run none ts = .ok q ↔ p.shifts? (ts.map Token.word) = some q := by
  induction ts generalizing p with
  | nil => simp [run, shifts?]
  | cons t rest ih =>
    rw [run, advance_none, List.map_cons, shifts?_cons]
    cases stepped : p.step t with
    | ok next =>
      rw [step_ok_iff.mp stepped]
      exact ih
    | error e =>
      cases shifted : p.shift? t.word with
      | none => simp
      | some next => rw [step_ok_iff.mpr shifted] at stepped; cases stepped

/-! ### What a state spans -/

/-- The words of a left operand that waits for a right one, with its connective. -/
inductive Waiting (c : Category) (op : Connective) : Option Formula → List Word → Prop where
  | none : Waiting c op none []
  | some {ws : List Word} {t : Formula} :
      Derives c ws t → Waiting c op (some t) (ws ++ [.operator (.connective op)])

/-- The words of antecedents that wait for a consequent, the latest first. -/
inductive Antecedents : List Formula → List Word → Prop where
  | nil : Antecedents [] []
  | cons {ws us : List Word} {fs : List Formula} {t : Formula} :
      Antecedents fs ws → Derives .disjunction us t →
      Antecedents (t :: fs) (ws ++ (us ++ [.operator (.connective .implies)]))

/-- The words read in a level before its present operand. -/
def LevelSpans (l : Level) (ws : List Word) : Prop :=
  ∃ e a d c, Waiting .equivalence .iff l.equivalent e ∧ Antecedents l.antecedents a ∧
    Waiting .disjunction .or l.disjunct d ∧ Waiting .conjunction .and l.conjunct c ∧
    ws = e ++ (a ++ (d ++ (c ++ List.replicate l.negations (.operator .not))))

/-- The words read before the innermost level. -/
inductive Enclosing : List Level → List Word → Prop where
  | nil : Enclosing [] []
  | cons {ws us : List Word} {ls : List Level} {l : Level} :
      Enclosing ls ws → LevelSpans l us → Enclosing (l :: ls) (ws ++ (us ++ [.leftParen]))

/-- All words read. The present operand, if there is one, has taken up its negation signs. -/
def Spans (p : Parser) (ws : List Word) : Prop :=
  ∃ outer inner, Enclosing p.enclosing outer ∧ LevelSpans p.level inner ∧
    match p.operand with
    | none => ws = outer ++ inner
    | some x => ∃ last, Derives .negation last x ∧ p.level.negations = 0 ∧
        ws = outer ++ (inner ++ last)

theorem levelSpans_nil : LevelSpans {} [] :=
  ⟨[], [], [], [], .none, .nil, .none, .none, rfl⟩

theorem spans_nil : Spans {} [] :=
  ⟨[], [], .nil, levelSpans_nil, rfl⟩

theorem waiting_derives {c tighter : Category} {op : Connective} {left : Option Formula}
    {ws us : List Word} {x : Formula}
    (single : ∀ {vs t}, Derives tighter vs t → Derives c vs t)
    (joined : ∀ {vs zs l r}, Derives c vs l → Derives tighter zs r →
      Derives c (vs ++ .operator (.connective op) :: zs) (.binary op l r))
    (waits : Waiting c op left ws) (right : Derives tighter us x) :
    Derives c (ws ++ us) (Level.join op left x) := by
  cases waits with
  | none => exact single right
  | some derived =>
    rw [List.append_assoc]
    exact joined derived right

theorem antecedents_derives {fs : List Formula} {ws us : List Word} {x : Formula}
    (waits : Antecedents fs ws) (right : Derives .implication us x) :
    Derives .implication (ws ++ us)
      (fs.foldl (fun right left => .binary .implies left right) x) := by
  induction waits generalizing us x with
  | nil => exact right
  | cons _ derived ih =>
    rw [List.append_assoc, List.append_assoc]
    exact ih (.implies derived right)

section
variable {l : Level} {ws us : List Word} {x : Formula}

theorem close_derives (level : LevelSpans l ws) (settled : l.negations = 0)
    (last : Derives .negation us x) : Derives .equivalence (ws ++ us) (l.close x) := by
  obtain ⟨e, a, d, c, equivalent, antecedents, disjunct, conjunct, rfl⟩ := level
  have conjunction := waiting_derives .negation .and conjunct last
  have disjunction := waiting_derives .conjunction .or disjunct conjunction
  have implication := antecedents_derives antecedents (.disjunction disjunction)
  have equivalence := waiting_derives .implication .iff equivalent implication
  simpa [settled, Level.close, Level.closeImplies, Level.closeOr, Level.closeAnd] using equivalence

theorem extend_spans (op : Connective) (level : LevelSpans l ws) (settled : l.negations = 0)
    (last : Derives .negation us x) :
    LevelSpans (l.extend x op) (ws ++ (us ++ [.operator (.connective op)])) := by
  have closed := close_derives level settled last
  obtain ⟨e, a, d, c, equivalent, antecedents, disjunct, conjunct, rfl⟩ := level
  have conjunction := waiting_derives .negation .and conjunct last
  have disjunction := waiting_derives .conjunction .or disjunct conjunction
  cases op with
  | and =>
    refine ⟨e, a, d, _, equivalent, antecedents, disjunct, .some conjunction, ?_⟩
    simp [settled, Level.extend]
  | or =>
    refine ⟨e, a, _, [], equivalent, antecedents, .some disjunction, .none, ?_⟩
    simp [settled, Level.extend]
  | implies =>
    refine ⟨e, _, [], [], equivalent, .cons antecedents disjunction, .none, .none, ?_⟩
    simp [settled, Level.extend]
  | iff =>
    refine ⟨_, [], [], [], .some closed, .nil, .none, .none, ?_⟩
    simp [settled, Level.extend]

theorem negate_spans (level : LevelSpans l ws) :
    LevelSpans { l with negations := l.negations + 1 } (ws ++ [.operator .not]) := by
  obtain ⟨e, a, d, c, equivalent, antecedents, disjunct, conjunct, rfl⟩ := level
  refine ⟨e, a, d, c, equivalent, antecedents, disjunct, conjunct, ?_⟩
  simp [List.replicate_succ']

theorem take_spans {ls : List Level} {outer : List Word} (enclosing : Enclosing ls outer)
    (level : LevelSpans l ws) (read : Derives .primary us x) :
    Spans (take ls l x) (outer ++ (ws ++ us)) := by
  obtain ⟨e, a, d, c, equivalent, antecedents, disjunct, conjunct, rfl⟩ := level
  refine ⟨outer, e ++ (a ++ (d ++ c)), enclosing, ?_, _, (Derives.primary read).negs l.negations,
    rfl, by simp⟩
  exact ⟨e, a, d, c, equivalent, antecedents, disjunct, conjunct, by simp [take]⟩

end

theorem shift_spans {p q : Parser} {ws : List Word} {w : Word} (before : p.Spans ws)
    (shifted : p.shift? w = some q) : q.Spans (ws ++ [w]) := by
  obtain ⟨enclosing, level, operand⟩ := p
  obtain ⟨outer, inner, enclosed, spanned, read⟩ := before
  cases operand with
  | none =>
    subst read
    rw [List.append_assoc]
    cases w with
    | identifier name =>
      cases shifted
      exact take_spans enclosed spanned (.identifier name)
    | operator op =>
      cases op with
      | not =>
        cases shifted
        exact ⟨outer, _, enclosed, negate_spans spanned, rfl⟩
      | connective op => cases shifted
    | leftParen =>
      cases shifted
      exact ⟨_, [], .cons enclosed spanned, levelSpans_nil, by simp⟩
    | rightParen => cases shifted
  | some x =>
    obtain ⟨last, derived, settled, rfl⟩ := read
    cases w with
    | operator op =>
      cases op with
      | not => cases shifted
      | connective op =>
        cases shifted
        exact ⟨outer, _, enclosed, extend_spans op spanned settled derived, by simp⟩
    | rightParen =>
      cases enclosed with
      | nil => cases shifted
      | cons enclosed outside =>
        cases shifted
        have closed := Derives.parenthesized (close_derives spanned settled derived)
        simpa using take_spans enclosed outside closed
    | identifier name => cases shifted
    | leftParen => cases shifted

theorem shifts_spans {p q : Parser} {ws us : List Word} (before : p.Spans ws)
    (shifted : p.shifts? us = some q) : q.Spans (ws ++ us) := by
  induction us generalizing p ws with
  | nil => cases shifted; simpa using before
  | cons w us ih =>
    rw [shifts?_cons] at shifted
    obtain ⟨next, first, rest⟩ := Option.bind_eq_some_iff.mp shifted
    simpa using ih (shift_spans before first) rest

theorem finish_derives {p : Parser} {ws : List Word} {stop : Nat} {t : Formula}
    (spanned : p.Spans ws) (finished : p.finish stop = .ok t) : Derives .equivalence ws t := by
  obtain ⟨enclosing, level, operand⟩ := p
  obtain ⟨outer, inner, enclosed, within, read⟩ := spanned
  cases operand with
  | none => cases finished
  | some x =>
    obtain ⟨last, derived, settled, rfl⟩ := read
    cases enclosed with
    | nil =>
      cases finished
      rw [List.nil_append]
      exact close_derives within settled derived
    | cons _ _ => cases finished

/-! ### Shifting over a derivation -/

/-- How the machine gets over the words of a derivation. At the tighter levels the state before is
any without operand; at the looser ones nothing that they would join with may wait. -/
def Shifts : Category → List Word → Formula → Prop
  | .primary, ws, t | .negation, ws, t => ∀ ls l,
      shifts? ⟨ls, l, none⟩ ws = some (take ls l t)
  | .conjunction, ws, t => ∀ ls l, l.conjunct = none → l.negations = 0 →
      ∃ k x, shifts? ⟨ls, l, none⟩ ws = some ⟨ls, { l with conjunct := k }, some x⟩ ∧
        Level.join .and k x = t
  | .disjunction, ws, t => ∀ ls l, l.disjunct = none → l.conjunct = none → l.negations = 0 →
      ∃ d k x, shifts? ⟨ls, l, none⟩ ws =
          some ⟨ls, { l with disjunct := d, conjunct := k }, some x⟩ ∧
        Level.join .or d (Level.join .and k x) = t
  | .implication, ws, t => ∀ ls l, l.disjunct = none → l.conjunct = none → l.negations = 0 →
      ∃ fs d k x, shifts? ⟨ls, l, none⟩ ws =
          some ⟨ls, { l with antecedents := fs ++ l.antecedents, disjunct := d, conjunct := k },
            some x⟩ ∧
        fs.foldl (fun right left => .binary .implies left right)
          (Level.join .or d (Level.join .and k x)) = t
  | .equivalence, ws, t => ∀ ls, ∃ l x, shifts? ⟨ls, {}, none⟩ ws = some ⟨ls, l, some x⟩ ∧
      l.negations = 0 ∧ l.close x = t

theorem shifts?_connective (ls : List Level) (l : Level) (x : Formula) (op : Connective)
    (ws : List Word) : shifts? ⟨ls, l, some x⟩ (.operator (.connective op) :: ws) =
      shifts? ⟨ls, l.extend x op, none⟩ ws :=
  shifts?_cons _ _ _

theorem derives_shifts {c : Category} {ws : List Word} {t : Formula} (h : Derives c ws t) :
    Shifts c ws t := by
  induction h with
  | identifier name => exact fun ls l => rfl
  | @parenthesized ws t _ ih =>
    intro ls l
    obtain ⟨inner, x, shifted, -, closed⟩ := ih (l :: ls)
    change shifts? ⟨l :: ls, {}, none⟩ (ws ++ [.rightParen]) = _
    rw [shifts?_append, shifted, ← closed]
    rfl
  | primary _ ih => exact ih
  | @not ws t _ ih =>
    intro ls l
    change shifts? ⟨ls, { l with negations := l.negations + 1 }, none⟩ ws = _
    rw [ih]
    simp [take, negs_neg]
  | negation _ ih =>
    intro ls l free settled
    refine ⟨none, _, (ih ls l).trans ?_, rfl⟩
    obtain ⟨e, a, d, k, n⟩ := l
    simp only at free settled
    subst free settled
    rfl
  | and _ _ left right =>
    intro ls l free settled
    obtain ⟨k, x, shifted, rfl⟩ := left ls l free settled
    refine ⟨some (Level.join .and k x), _, ?_, rfl⟩
    rw [shifts?_append, shifted, Option.bind_some, shifts?_connective, right]
    simp [take, Level.extend, Level.closeAnd, settled, Formula.negs]
  | conjunction _ ih =>
    intro ls l free free' settled
    obtain ⟨k, x, shifted, rfl⟩ := ih ls l free' settled
    refine ⟨none, k, x, shifted.trans ?_, rfl⟩
    rw [← free]
  | or _ _ left right =>
    intro ls l free free' settled
    obtain ⟨d, k, x, shifted, rfl⟩ := left ls l free free' settled
    obtain ⟨k', x', shifted', rfl⟩ := right ls
      { l with disjunct := some (Level.join .or d (Level.join .and k x)), conjunct := none }
      rfl settled
    refine ⟨some (Level.join .or d (Level.join .and k x)), k', x', ?_, rfl⟩
    rw [shifts?_append, shifted, Option.bind_some, shifts?_connective]
    simpa [Level.extend, Level.closeOr, Level.closeAnd, settled] using shifted'
  | disjunction _ ih => exact fun ls l free free' settled => ⟨[], ih ls l free free' settled⟩
  | implies _ _ left right =>
    intro ls l free free' settled
    obtain ⟨d, k, x, shifted, rfl⟩ := left ls l free free' settled
    let antecedent := Level.join .or d (Level.join .and k x)
    obtain ⟨fs, d', k', x', shifted', rfl⟩ := right ls
      { l with antecedents := antecedent :: l.antecedents, disjunct := none, conjunct := none }
      rfl rfl settled
    refine ⟨fs ++ [antecedent], d', k', x', ?_, by simp [antecedent]⟩
    rw [shifts?_append, shifted, Option.bind_some, shifts?_connective]
    simpa [Level.extend, Level.closeOr, Level.closeAnd, settled, antecedent] using shifted'
  | implication _ ih =>
    intro ls
    obtain ⟨fs, d, k, x, shifted, rfl⟩ := ih ls {} rfl rfl rfl
    refine ⟨_, x, shifted, rfl, ?_⟩
    simp [Level.close, Level.closeImplies, Level.closeOr, Level.closeAnd, Level.join]
  | iff _ _ left right =>
    intro ls
    obtain ⟨l, x, shifted, settled, rfl⟩ := left ls
    obtain ⟨fs, d, k, x', shifted', rfl⟩ := right ls { equivalent := some (l.close x) } rfl rfl rfl
    refine ⟨⟨some (l.close x), fs ++ [], d, k, 0⟩, x', ?_, rfl, ?_⟩
    · rw [shifts?_append, shifted, Option.bind_some, shifts?_connective]
      exact shifted'
    · simp [Level.close, Level.closeImplies, Level.closeOr, Level.closeAnd, Level.join]

theorem phrase_shifts {e : Extent} {ws : List Word} (h : Phrase e ws) (ls : List Level)
    (l : Level) : ∃ l' x, shifts? ⟨ls, l, none⟩ ws = some ⟨ls, l', some x⟩ := by
  induction h generalizing ls l with
  | identifier name => exact ⟨_, _, rfl⟩
  | @parenthesized ws _ ih =>
    obtain ⟨inner, x, shifted⟩ := ih (l :: ls) {}
    refine ⟨{ l with negations := 0 }, (inner.close x).negs l.negations, ?_⟩
    change shifts? ⟨l :: ls, {}, none⟩ (ws ++ [.rightParen]) = _
    rw [shifts?_append, shifted]
    rfl
  | not _ ih => exact ih ls { l with negations := l.negations + 1 }
  | operand _ ih => exact ih ls l
  | join op _ _ left right =>
    obtain ⟨l', x, shifted⟩ := left ls l
    obtain ⟨l'', x', shifted'⟩ := right ls (l'.extend x op)
    refine ⟨l'', x', ?_⟩
    rw [shifts?_append, shifted, Option.bind_some, shifts?_connective, shifted']

/-! ### Errors and limits -/

theorem step_refuses {p : Parser} {t : Token} {e : ParseError} (refused : p.step t = .error e) :
    e = .missingOperand (some t) t.position ∨ e = .unclosed (some t) t.position ∨
      e = .trailing t := by
  obtain ⟨w, n⟩ := t
  obtain ⟨enclosing, level, _ | x⟩ := p
  · cases w with
    | operator op =>
      cases op with
      | not => cases refused
      | connective op =>
        cases refused
        simp
    | _ => cases refused <;> simp
  · cases w with
    | operator op => cases op <;> cases refused; cases enclosing <;> simp [refuse]
    | rightParen => cases enclosing <;> cases refused; simp
    | _ => cases refused; cases enclosing <;> simp [refuse]

theorem run_refuses {p : Parser} {ts : List Token} {e : ParseError}
    (refused : p.run none ts = .error e) : ∃ t ∈ ts,
      e = .missingOperand (some t) t.position ∨ e = .unclosed (some t) t.position ∨
        e = .trailing t := by
  induction ts generalizing p with
  | nil => cases refused
  | cons t rest ih =>
    rw [run, advance_none] at refused
    cases stepped : p.step t with
    | ok q =>
      rw [stepped] at refused
      obtain ⟨found, member, shape⟩ := ih refused
      exact ⟨found, List.mem_cons_of_mem _ member, shape⟩
    | error e' =>
      rw [stepped] at refused
      cases refused
      exact ⟨t, List.mem_cons_self, step_refuses stepped⟩

theorem advance_ok {limit : Option Nat} {p q : Parser} {t : Token}
    (h : p.advance limit t = .ok q) : p.step t = .ok q := by
  unfold advance at h
  cases stepped : p.step t with
  | ok next =>
    rw [stepped] at h
    dsimp only at h
    split at h
    · cases h
    · exact h
  | error e => rw [stepped] at h; cases h

theorem run_none {limit : Option Nat} {p q : Parser} {ts : List Token}
    (h : p.run limit ts = .ok q) : p.run none ts = .ok q := by
  induction ts generalizing p with
  | nil => exact h
  | cons t rest ih =>
    rw [run] at h ⊢
    cases advanced : p.advance limit t with
    | ok next =>
      rw [advanced] at h
      rw [advance_none, advance_ok advanced]
      exact ih h
    | error e => rw [advanced] at h; cases h

end Parser

/-! ### The reader and the grammar -/

def Tokens.words (ts : Tokens) : List Word :=
  ts.list.map Token.word

theorem ofTokens_none {limit : Option Nat} {ts : Tokens} {t : Formula}
    (h : Formula.ofTokens limit ts = .ok t) : Formula.ofTokens none ts = .ok t := by
  unfold Formula.ofTokens at h ⊢
  cases ran : Parser.run limit {} ts.list with
  | ok p =>
    rw [ran] at h
    rw [Parser.run_none ran]
    exact h
  | error e => rw [ran] at h; cases h

theorem ofTokens_ok_iff {ts : Tokens} {t : Formula} :
    Formula.ofTokens none ts = .ok t ↔ Derives .equivalence ts.words t := by
  unfold Formula.ofTokens
  constructor
  · intro h
    cases ran : Parser.run none {} ts.list with
    | ok p =>
      rw [ran] at h
      exact Parser.finish_derives
        (Parser.shifts_spans Parser.spans_nil (Parser.run_ok_iff.mp ran)) h
    | error e => rw [ran] at h; cases h
  · intro h
    obtain ⟨l, x, shifted, -, rfl⟩ := Parser.derives_shifts h []
    rw [Parser.run_ok_iff.mpr shifted]
    rfl

theorem ofTokens_phrase {ts : Tokens} (h : Phrase .sequence ts.words) :
    ∃ t, Formula.ofTokens none ts = .ok t := by
  obtain ⟨l, x, shifted⟩ := Parser.phrase_shifts h [] {}
  refine ⟨l.close x, ?_⟩
  rw [Formula.ofTokens, Parser.run_ok_iff.mpr shifted]
  rfl

theorem Phrase.derives {ws : List Word} (h : Phrase .sequence ws) :
    ∃ t, Derives .equivalence ws t := by
  let ts : Tokens := ⟨ws.map (⟨·, 0⟩), 0⟩
  have same : ts.words = ws := by simp [ts, Tokens.words, Function.comp_def]
  rw [← same] at h ⊢
  obtain ⟨t, read⟩ := ofTokens_phrase h
  exact ⟨t, ofTokens_ok_iff.mp read⟩

/-- The error stands at a token of the list and names it, or at the end. -/
def ParseError.PointsInto (e : ParseError) (ts : Tokens) : Prop :=
  match e with
  | .missingOperand found p | .unclosed found p =>
    (∃ t ∈ ts.list, found = some t ∧ p = t.position) ∨ (found = none ∧ p = ts.stop)
  | .trailing t => t ∈ ts.list
  | .tooDeep _ => False

theorem ofTokens_error {ts : Tokens} {e : ParseError}
    (h : Formula.ofTokens none ts = .error e) : e.PointsInto ts := by
  unfold Formula.ofTokens at h
  cases ran : Parser.run none {} ts.list with
  | ok p =>
    rw [ran] at h
    dsimp only at h
    unfold Parser.finish at h
    split at h
    · cases h; exact Or.inr ⟨rfl, rfl⟩
    · cases h
    · cases h; exact Or.inr ⟨rfl, rfl⟩
  | error e' =>
    rw [ran] at h
    cases h
    obtain ⟨t, member, rfl | rfl | rfl⟩ := Parser.run_refuses ran
    · exact Or.inl ⟨t, member, rfl, rfl⟩
    · exact Or.inl ⟨t, member, rfl, rfl⟩
    · exact member

/-- The reader without limit returns a tree exactly where the grammar derives it, and that tree is
the only one. All other lists it refuses, at a token of theirs or at their end. The lists it accepts
are those of operands with connectives between them. -/
theorem ofTokens_accepts_grammar (ts : Tokens) :
    (∀ t, Formula.ofTokens none ts = .ok t ↔ Derives .equivalence ts.words t) ∧
    (∀ t u, Derives .equivalence ts.words t → Derives .equivalence ts.words u → t = u) ∧
    ((¬ ∃ t, Derives .equivalence ts.words t) →
      ∃ e, Formula.ofTokens none ts = .error e ∧ e.PointsInto ts) ∧
    ((∃ t, Formula.ofTokens none ts = .ok t) ↔ Phrase .sequence ts.words) := by
  refine ⟨fun t => ofTokens_ok_iff, ?_, ?_, ?_⟩
  · intro t u left right
    have same := (ofTokens_ok_iff.mpr left).symm.trans (ofTokens_ok_iff.mpr right)
    exact Except.ok.inj same
  · intro underivable
    cases read : Formula.ofTokens none ts with
    | ok t => exact absurd ⟨t, ofTokens_ok_iff.mp read⟩ underivable
    | error e => exact ⟨e, rfl, ofTokens_error read⟩
  · constructor
    · rintro ⟨t, read⟩
      exact (ofTokens_ok_iff.mp read).phrase.1
    · exact ofTokens_phrase

end Premise
