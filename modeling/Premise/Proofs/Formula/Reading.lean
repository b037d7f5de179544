import Premise.Formula.Reading
import Premise.Proofs.Token.Lexer

/-!
Formulas as texts. A text reads to a tree where it spells words that derive the tree. Main
statements: `parse_render`, that a rendering reads back, and that the atoms of every tree that is
read are identifiers.
-/
namespace Premise

namespace Formula

/-- Every atom is an identifier, so that the rendering can be read. -/
def Proper (t : Formula) : Prop :=
  ∀ name ∈ t.leaves, isIdentifier name = true

theorem proper_atom {name : String} : (atom name).Proper ↔ isIdentifier name = true := by
  simp [Proper, leaves]

theorem proper_neg {t : Formula} : (neg t).Proper ↔ t.Proper :=
  Iff.rfl

theorem proper_binary {op : Connective} {l r : Formula} :
    (binary op l r).Proper ↔ l.Proper ∧ r.Proper := by
  simp [Proper, leaves, or_imp, forall_and]

/-! ### Reading -/

section
variable {limit : Option Nat} {text : String} {t u : Formula}

theorem parse_ok_iff :
    parse none text = .ok t ↔ ∃ ws, Spells text.toList ws ∧ Derives .equivalence ws t := by
  unfold parse
  constructor
  · intro h
    cases cut : Tokens.ofText text with
    | error e => rw [cut] at h; cases h
    | ok ts =>
      rw [cut] at h
      dsimp only at h
      cases read : ofTokens none ts with
      | error e => rw [read] at h; cases h
      | ok f =>
        rw [read] at h
        cases h
        exact ⟨ts.words, ofText_ok.mp ⟨ts, cut, rfl⟩, ofTokens_ok_iff.mp read⟩
  · rintro ⟨ws, spelled, derived⟩
    obtain ⟨ts, cut, rfl⟩ := ofText_ok.mpr spelled
    rw [cut]
    dsimp only
    rw [ofTokens_ok_iff.mpr derived]

theorem parse_none (h : parse limit text = .ok t) : parse none text = .ok t := by
  unfold parse at h ⊢
  cases cut : Tokens.ofText text with
  | error e => rw [cut] at h; cases h
  | ok ts =>
    rw [cut] at h
    dsimp only at h ⊢
    cases read : ofTokens limit ts with
    | error e => rw [read] at h; cases h
    | ok f => rw [read] at h; rw [ofTokens_none read]; exact h

theorem read_ok (h : read limit text = .ok u) :
    ∃ t, parse limit text = .ok t ∧ u = t.normalize := by
  unfold read at h
  cases parsed : parse limit text with
  | error e => rw [parsed] at h; cases h
  | ok t =>
    rw [parsed] at h
    dsimp only at h
    split at h
    · cases h
    · cases h; exact ⟨t, rfl, rfl⟩

theorem read_none_ok (h : parse none text = .ok t) : read none text = .ok t.normalize := by
  simp [read, h]

theorem canonical_of_parse (h : parse none text = .ok t) :
    canonical none text = .ok t.normalize.render := by
  simp [canonical, read_none_ok h, Except.map]

theorem atomsOf_ok (h : parse none text = .ok t) :
    atomsOf none text = .ok t.normalize.atoms := by
  simp [atomsOf, read_none_ok h, Except.map]

/-- The text is a formula, however deeply it nests. -/
def Reads (text : String) : Prop :=
  ∃ t, parse none text = .ok t

end

/-! ### Rendering -/

def words : Formula → List Word
  | atom name => [.identifier name]
  | neg t => .operator .not :: t.words
  | binary op l r => .leftParen :: (l.words ++ .operator (.connective op) :: r.words ++ [.rightParen])

theorem identifier_run {name : String} (h : isIdentifier name = true) :
    ∃ c more, name.toList = c :: more ∧ isLetter c = true ∧
      (∀ d ∈ more, isIdentifierChar d = true) ∧ Word.ofRun (c :: more) = .identifier name := by
  unfold isIdentifier at h
  split at h
  · cases h
  · rename_i c rest text
    simp only [Bool.and_eq_true, List.all_eq_true] at h
    obtain ⟨⟨letter, more⟩, noWord⟩ := h
    have whole : String.ofList (c :: rest) = name := by rw [← text, String.ofList_toList]
    refine ⟨c, rest, text, letter, more, ?_⟩
    simp only [Word.ofRun, whole]
    rw [Option.isNone_iff_eq_none.mp noWord]

theorem identifier_spells {name : String} (h : isIdentifier name = true) :
    Spells name.toList [.identifier name] := by
  obtain ⟨c, more, chars, letter, run, same⟩ := identifier_run h
  have spelled := Spells.run letter run stops_nil .nil
  rw [List.append_nil, same] at spelled
  rw [chars]
  exact spelled

theorem symbol_spells (op : Connective) {cs : List Char} {ws : List Word} (h : Spells cs ws) :
    Spells (op.symbol.toList ++ cs) (.operator (.connective op) :: ws) := by
  cases op <;> exact .symbol rfl h

theorem joinText_toList (op : Connective) (a b : String) : (joinText op a b).toList =
    '(' :: (a.toList ++ ' ' :: (op.symbol.toList ++ ' ' :: (b.toList ++ [')']))) := by
  simp [joinText]

/-- Nothing is stripped off a text that does not start with a pair of negation signs. -/
theorem strip_unpaired {text : String} (unpaired : ∀ rest, text.toList ≠ '~' :: '~' :: rest) :
    stripDoubleNegation text = text := by
  unfold stripDoubleNegation stripChars
  split
  · rename_i rest chars
    exact absurd chars (unpaired rest)
  · exact String.ofList_toList

/-- What one pair of negation signs in front does not matter to, all the pairs in front do not matter
to. -/
theorem strip_invariant {P : String → Prop} (doubled : ∀ text, P ("~~" ++ text) ↔ P text)
    (text : String) : P (stripDoubleNegation text) ↔ P text := by
  have chars : ∀ cs, P (String.ofList (stripChars cs)) ↔ P (String.ofList cs) := by
    intro cs
    fun_induction stripChars cs with
    | case1 rest ih =>
      have signed : "~~" ++ String.ofList rest = String.ofList ('~' :: '~' :: rest) := by
        apply String.toList_inj.mp
        simp
      rw [ih, ← signed, doubled]
    | case2 => rfl
  rw [stripDoubleNegation, chars, String.ofList_toList]

theorem joinText_spells (op : Connective) {a b : String} {ws us : List Word}
    (left : Spells a.toList ws) (right : Spells b.toList us) :
    Spells (joinText op a b).toList
      (.leftParen :: (ws ++ .operator (.connective op) :: us ++ [.rightParen])) := by
  have closed : Spells (b.toList ++ [')']) (us ++ [.rightParen]) :=
    right.append (.rightParen .nil) (stops_cons _ (by decide))
  have tail : Spells (' ' :: (op.symbol.toList ++ ' ' :: (b.toList ++ [')'])))
      (.operator (.connective op) :: (us ++ [.rightParen])) :=
    .blank (by decide) (symbol_spells op (.blank (by decide) closed))
  rw [joinText_toList, List.append_assoc]
  exact .leftParen (left.append tail (stops_cons _ (by decide)))

theorem render_spells {t : Formula} (h : t.Proper) : Spells t.render.toList t.words := by
  induction t with
  | atom name => exact identifier_spells (proper_atom.mp h)
  | neg t ih =>
    rw [render, String.toList_append]
    exact .symbol rfl (ih h)
  | binary op l r left right =>
    obtain ⟨proper, proper'⟩ := proper_binary.mp h
    exact joinText_spells op (left proper) (right proper')

theorem binary_derives (op : Connective) {ws us : List Word} {l r : Formula}
    (left : Derives .negation ws l) (right : Derives .negation us r) :
    Derives .equivalence (ws ++ .operator (.connective op) :: us) (.binary op l r) := by
  have left' := Derives.negation left
  have right' := Derives.negation right
  cases op with
  | and => exact .implication (.disjunction (.conjunction (.and left' right)))
  | or => exact .implication (.disjunction (.or (.conjunction left') right'))
  | implies =>
    exact .implication (.implies (.conjunction left') (.disjunction (.conjunction right')))
  | iff => exact .iff left.of_negation (.disjunction (.conjunction right'))

theorem words_derives (t : Formula) : Derives .negation t.words t := by
  induction t with
  | atom name => exact .primary (.identifier name)
  | neg t ih => exact .not ih
  | binary op l r left right => exact .primary (.parenthesized (binary_derives op left right))

/-- A rendering reads back to the very tree. -/
theorem parse_render {t : Formula} (h : t.Proper) : parse none t.render = .ok t :=
  parse_ok_iff.mpr ⟨t.words, render_spells h, (words_derives t).of_negation⟩

/-- Joined texts read where both texts do, though perhaps to another tree than the joined one. -/
theorem joinText_reads (op : Connective) {a b : String} (left : Reads a) (right : Reads b) :
    Reads (joinText op a b) := by
  obtain ⟨l, parsed⟩ := left
  obtain ⟨r, parsed'⟩ := right
  obtain ⟨ws, spelled, derived⟩ := parse_ok_iff.mp parsed
  obtain ⟨us, spelled', derived'⟩ := parse_ok_iff.mp parsed'
  obtain ⟨t, joined⟩ := (derived.phrase.1.append op derived'.phrase.1).derives
  have whole := (Derives.parenthesized joined).of_primary
  exact ⟨t, parse_ok_iff.mpr ⟨_, joinText_spells op spelled spelled', whole⟩⟩

/-! ### Atoms -/

theorem leaves_pos (t : Formula) : 0 < t.leaves.length := by
  induction t with
  | atom name => simp [leaves]
  | neg t ih => exact ih
  | binary op l r left _ =>
    rw [leaves, List.length_append]
    omega

theorem leaves_normalize (t : Formula) : t.normalize.leaves = t.leaves := by
  have flip (u : Formula) : u.flip.leaves = u.leaves := by cases u <;> rfl
  induction t with
  | atom name => rfl
  | neg t ih => rw [normalize, flip, ih, leaves]
  | binary op l r left right => rw [normalize, leaves, leaves, left, right]

theorem proper_normalize {t : Formula} (h : t.Proper) : t.normalize.Proper := by
  rw [Proper, leaves_normalize]
  exact h

end Formula

def Word.name? : Word → Option String
  | identifier name => some name
  | _ => none

@[simp] theorem Word.name?_identifier (name : String) : (identifier name).name? = some name := rfl
@[simp] theorem Word.name?_operator (op : Operator) : (operator op).name? = none := rfl
@[simp] theorem Word.name?_leftParen : leftParen.name? = none := rfl
@[simp] theorem Word.name?_rightParen : rightParen.name? = none := rfl

theorem Derives.leaves {c : Category} {ws : List Word} {t : Formula} (h : Derives c ws t) :
    t.leaves = ws.filterMap Word.name? := by
  induction h with
  | identifier name => rfl
  | parenthesized _ ih => simp [List.filterMap_cons, ih]
  | not _ ih => simp [Formula.leaves, List.filterMap_cons, ih]
  | and _ _ left right => simp [Formula.leaves, List.filterMap_cons, left, right]
  | or _ _ left right => simp [Formula.leaves, List.filterMap_cons, left, right]
  | implies _ _ left right => simp [Formula.leaves, List.filterMap_cons, left, right]
  | iff _ _ left right => simp [Formula.leaves, List.filterMap_cons, left, right]
  | _ => assumption

theorem ofRun_name {c : Char} {more : List Char} {name : String} (letter : isLetter c = true)
    (run : ∀ d ∈ more, isIdentifierChar d = true)
    (named : (Word.ofRun (c :: more)).name? = some name) : isIdentifier name = true := by
  have chars : (String.ofList (c :: more)).toList = c :: more := String.toList_ofList
  unfold Word.ofRun at named
  generalize String.ofList (c :: more) = text at chars named
  cases word : Operator.ofWord? text with
  | some op => simp [word] at named
  | none =>
    have same : text = name := by simpa [word] using named
    subst same
    simpa [isIdentifier, chars, letter, word] using run

theorem Spells.names {cs : List Char} {ws : List Word} (h : Spells cs ws) :
    ∀ name ∈ ws.filterMap Word.name?, isIdentifier name = true := by
  induction h with
  | nil => simp
  | blank _ _ ih => exact ih
  | leftParen _ ih => simpa using ih
  | rightParen _ ih => simpa using ih
  | symbol _ _ ih => simpa using ih
  | run letter run _ _ ih =>
    intro name member
    obtain ⟨word, found, named⟩ := List.mem_filterMap.mp member
    rcases List.mem_cons.mp found with rfl | later
    · exact ofRun_name letter run named
    · exact ih name (List.mem_filterMap.mpr ⟨word, later, named⟩)

theorem Formula.proper_of_parse {limit : Option Nat} {text : String} {t : Formula}
    (h : parse limit text = .ok t) : t.Proper := by
  obtain ⟨ws, spelled, derived⟩ := parse_ok_iff.mp (parse_none h)
  intro name member
  rw [derived.leaves] at member
  exact spelled.names name member

theorem Formula.identifier_of_atomsOf {limit : Option Nat} {text name : String} {names : List String}
    (named : atomsOf limit text = .ok names) (member : name ∈ names) : isIdentifier name = true := by
  cases read : read limit text with
  | error e => simp [atomsOf, read, Except.map] at named
  | ok u =>
    have same : u.atoms = names := by simpa [atomsOf, read, Except.map] using named
    obtain ⟨t, parsed, rfl⟩ := read_ok read
    have proper := proper_normalize (proper_of_parse parsed)
    rw [← same] at member
    exact proper name (List.mem_eraseDups.mp member)

end Premise
