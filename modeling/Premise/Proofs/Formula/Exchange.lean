import Premise.Proofs.Formula.Cancellation

/-!
One text in the place of another. An operand binds tighter than all connectives, so that in a joined
text it can be replaced by another operand that means the same, whatever stands on the other side: the
reader comes to states that differ in double negations alone. Main statement: `Exchange.joinText`.
-/
namespace Premise

variable {a a' b b' c text : String} {ws us : List Word} {t u : Formula}

theorem Formula.normalize_negs (n : Nat) (t : Formula) :
    (t.normalize.negs n).normalize = (t.negs n).normalize := by
  induction n with
  | zero => exact normalize_normalize t
  | succ n ih => rw [negs, negs, normalize, normalize, ih]

/-- Formulas up to double negations. -/
def View.normal : View where
  formula := Formula.normalize
  count n := n
  again := Formula.normalize_normalize
  joined op l r := by
    rw [Formula.normalize, Formula.normalize, Formula.normalize_normalize,
      Formula.normalize_normalize]
  negated := Formula.normalize_negs
  counted _ := rfl
  next _ := rfl

/-! ### Operands -/

theorem Phrase.operand_derives (h : Phrase .operand ws) : ∃ t, Derives .negation ws t := by
  generalize extent : Extent.operand = e at h
  induction h with
  | identifier name => exact ⟨_, .primary (.identifier name)⟩
  | parenthesized inner _ =>
    obtain ⟨t, derived⟩ := inner.derives
    exact ⟨t, .primary (.parenthesized derived)⟩
  | not _ ih =>
    obtain ⟨t, derived⟩ := ih extent
    exact ⟨_, .not derived⟩
  | operand | join => cases extent

namespace Formula

/-- The text reads as a single operand: its connectives are all in parentheses. -/
def IsOperand (text : String) : Prop :=
  ∃ ws, Spells text.toList ws ∧ Phrase .operand ws

/-- The texts read, and to the same formula up to double negations. -/
def Agree (a b : String) : Prop :=
  ∃ c, canonical none a = .ok c ∧ canonical none b = .ok c

theorem Agree.symm (h : Agree a b) : Agree b a :=
  h.imp fun _ => And.symm

theorem Agree.trans (h : Agree a b) (h' : Agree b c) : Agree a c := by
  obtain ⟨d, left, middle⟩ := h
  obtain ⟨e, middle', right⟩ := h'
  cases middle.symm.trans middle'
  exact ⟨d, left, right⟩

theorem agree_self (reads : Reads a) : Agree a a := by
  obtain ⟨t, parsed⟩ := reads
  exact ⟨_, canonical_of_parse parsed, canonical_of_parse parsed⟩

theorem agree_iff (parsed : parse none a = .ok t) (parsed' : parse none b = .ok u) :
    Agree a b ↔ t.normalize = u.normalize := by
  constructor
  · rintro ⟨c, left, right⟩
    exact normalize_eq_of_canonical left right parsed parsed'
  · intro same
    refine ⟨_, canonical_of_parse parsed, ?_⟩
    rw [canonical_of_parse parsed', same]

/-- Joined texts are in parentheses. -/
theorem isOperand_joinText (op : Connective) (left : Reads a) (right : Reads b) :
    IsOperand (joinText op a b) := by
  obtain ⟨l, parsed⟩ := left
  obtain ⟨r, parsed'⟩ := right
  obtain ⟨ws, spelled, derived⟩ := parse_ok_iff.mp parsed
  obtain ⟨us, spelled', derived'⟩ := parse_ok_iff.mp parsed'
  exact ⟨_, joinText_spells op spelled spelled',
    .parenthesized (derived.phrase.1.append op derived'.phrase.1)⟩

theorem isOperand_doubled : IsOperand ("~~" ++ a) ↔ IsOperand a := by
  unfold IsOperand
  rw [doubled_toList]
  constructor
  · rintro ⟨ws, spelled, phrase⟩
    obtain ⟨us, rfl, spelled'⟩ := spells_doubled.mp spelled
    cases phrase with
    | not inner =>
      cases inner with
      | not operand => exact ⟨us, spelled', operand⟩
  · rintro ⟨ws, spelled, operand⟩
    exact ⟨_, spells_doubled.mpr ⟨ws, rfl, spelled⟩, .not (.not operand)⟩

/-- What has one leaf has no connective at all. -/
theorem isOperand_of_leaf (parsed : parse none a = .ok t) (single : t.leaves.length = 1) :
    IsOperand a := by
  obtain ⟨ws, spelled, derived⟩ := parse_ok_iff.mp parsed
  rcases derived.operand_or_split with operand | ⟨op, us, vs, l, r, -, rfl, -, -⟩
  · exact ⟨ws, spelled, operand⟩
  · have left := l.leaves_pos
    have right := r.leaves_pos
    rw [leaves, List.length_append] at single
    omega

/-- One text can stand in the place of the other. -/
def Exchange (a b : String) : Prop :=
  a = b ∨ IsOperand a ∧ IsOperand b ∧ Agree a b

theorem Exchange.shifts {p q : Parser} (exchange : Exchange a b) (spelled : Spells a.toList ws)
    (spelled' : Spells b.toList us) (same : p.view .normal = q.view .normal)
    (ready : p.operand = none) :
    (p.shifts? ws).map (Parser.view .normal) = (q.shifts? us).map (Parser.view .normal) := by
  rcases exchange with rfl | ⟨⟨ws', left, phrase⟩, ⟨us', right, phrase'⟩, agree⟩
  · rw [spelled.unique spelled']
    exact Parser.shifts_view same us
  · obtain rfl := spelled.unique left
    obtain rfl := spelled'.unique right
    obtain ⟨t, derived⟩ := phrase.operand_derives
    obtain ⟨u, derived'⟩ := phrase'.operand_derives
    have read := parse_ok_iff.mpr ⟨ws, spelled, derived.of_negation⟩
    have read' := parse_ok_iff.mpr ⟨us, spelled', derived'.of_negation⟩
    obtain ⟨ls, l, o⟩ := p
    obtain ⟨ls', l', o'⟩ := q
    obtain ⟨enclosing, level, operand⟩ := Parser.mk.inj same
    dsimp only at ready enclosing level operand
    subst ready
    cases Option.map_eq_none_iff.mp operand.symm
    rw [Parser.derives_shifts derived ls l, Parser.derives_shifts derived' ls' l']
    exact congrArg some (Parser.take_view enclosing level ((agree_iff read read').mp agree))

theorem Exchange.reads (exchange : Exchange a b) (reads : Reads a) : Reads b := by
  rcases exchange with rfl | ⟨-, -, c, -, read⟩
  · exact reads
  · obtain ⟨t, parsed, -⟩ := canonical_ok read
    exact ⟨t, parsed⟩

/-- Joined texts agree where each side can stand in the place of the other. -/
theorem Exchange.joinText (op : Connective) (left : Exchange a a') (right : Exchange b b')
    (reads : Reads a) (reads' : Reads b) :
    Agree (joinText op a b) (joinText op a' b') := by
  obtain ⟨l, parsed⟩ := reads
  obtain ⟨r, parsed'⟩ := reads'
  obtain ⟨l', read⟩ := left.reads ⟨l, parsed⟩
  obtain ⟨r', read'⟩ := right.reads ⟨r, parsed'⟩
  obtain ⟨ws, spelled, first⟩ := parse_ok_iff.mp parsed
  obtain ⟨us, spelled', second⟩ := parse_ok_iff.mp parsed'
  obtain ⟨ws', respelled, first'⟩ := parse_ok_iff.mp read
  obtain ⟨us', respelled', second'⟩ := parse_ok_iff.mp read'
  obtain ⟨t, whole⟩ := (first.phrase.1.append op second.phrase.1).derives
  obtain ⟨u, whole'⟩ := (first'.phrase.1.append op second'.phrase.1).derives
  -- The two readers stand at the same connective in states that differ in double negations alone.
  obtain ⟨m, x, ran, -, -⟩ := Parser.derives_shifts first []
  obtain ⟨m', x', ran', -, -⟩ := Parser.derives_shifts first' []
  have start : Parser.view .normal {} = Parser.view .normal {} := rfl
  have before := left.shifts spelled respelled start rfl
  rw [ran, ran'] at before
  obtain ⟨-, level, operand⟩ := Parser.mk.inj (Option.some.inj before)
  have between : Parser.view .normal ⟨[], m.extend x op, none⟩ =
      Parser.view .normal ⟨[], m'.extend x' op, none⟩ := by
    rw [Parser.view, Parser.view, Level.extend_congr level (Option.some.inj operand) op]
  have after := right.shifts spelled' respelled' between rfl
  obtain ⟨n, y, ended, -, rfl⟩ := Parser.derives_shifts whole []
  obtain ⟨n', y', ended', -, rfl⟩ := Parser.derives_shifts whole' []
  rw [Parser.shifts?_append, ran, Option.bind_some, Parser.shifts?_connective] at ended
  rw [Parser.shifts?_append, ran', Option.bind_some, Parser.shifts?_connective] at ended'
  rw [ended, ended'] at after
  obtain ⟨-, level', operand'⟩ := Parser.mk.inj (Option.some.inj after)
  have inside := parse_ok_iff.mpr
    ⟨_, joinText_spells op spelled spelled', (Derives.parenthesized whole).of_primary⟩
  have inside' := parse_ok_iff.mpr
    ⟨_, joinText_spells op respelled respelled', (Derives.parenthesized whole').of_primary⟩
  exact (agree_iff inside inside').mpr (Level.close_congr level' (Option.some.inj operand'))

end Formula

end Premise
