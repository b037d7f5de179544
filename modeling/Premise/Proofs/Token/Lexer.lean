import Premise.Proofs.Formula.Parser

/-!
Texts and the words they spell. `Spells` says what a text spells without positions; the main
statements are that cutting a text into tokens finds exactly these words, and that spellings can be
put side by side where no identifier would run on.
-/
namespace Premise

/-- The characters begin with none that would prolong an identifier. -/
def Stops (cs : List Char) : Prop :=
  ∀ c rest, cs = c :: rest → isIdentifierChar c = false

/-- The characters spell the words. An identifier or operator word takes all characters it can. -/
inductive Spells : List Char → List Word → Prop where
  | nil : Spells [] []
  | blank {c : Char} {cs : List Char} {ws : List Word} :
      Text.isBlank c = true → Spells cs ws → Spells (c :: cs) ws
  | leftParen {cs : List Char} {ws : List Word} :
      Spells cs ws → Spells ('(' :: cs) (.leftParen :: ws)
  | rightParen {cs : List Char} {ws : List Word} :
      Spells cs ws → Spells (')' :: cs) (.rightParen :: ws)
  | symbol {cs rest : List Char} {op : Operator} {ws : List Word} :
      Operator.ofSymbol? cs = some (op, rest) → Spells rest ws → Spells cs (.operator op :: ws)
  | run {c : Char} {more rest : List Char} {ws : List Word} :
      isLetter c = true → (∀ d ∈ more, isIdentifierChar d = true) → Stops rest →
      Spells rest ws → Spells (c :: (more ++ rest)) (Word.ofRun (c :: more) :: ws)

theorem stops_nil : Stops [] :=
  fun _ _ h => nomatch h

theorem stops_cons {c : Char} (cs : List Char) (h : isIdentifierChar c = false) :
    Stops (c :: cs) := by
  rintro _ _ ⟨⟩
  exact h

/-! ### Kinds of characters -/

theorem letter_range {c : Char} (h : isLetter c = true) : 65 ≤ c.toNat ∧ c.toNat ≤ 122 := by
  simp only [isLetter, Bool.or_eq_true, Bool.and_eq_true, decide_eq_true_eq, Char.le_def,
    UInt32.le_iff_toNat_le] at h
  unfold Char.toNat
  rcases h with lower | upper
  · change 97 ≤ c.val.toNat ∧ c.val.toNat ≤ 122 at lower
    omega
  · change 65 ≤ c.val.toNat ∧ c.val.toNat ≤ 90 at upper
    omega

theorem identifierChar_of_letter {c : Char} (h : isLetter c = true) :
    isIdentifierChar c = true := by
  simp [isIdentifierChar, h]

theorem identifier_front {name : String} (h : isIdentifier name = true) :
    ∃ c rest, name.toList = c :: rest ∧ isLetter c = true := by
  unfold isIdentifier at h
  split at h
  · cases h
  · rename_i c rest chars
    simp only [Bool.and_eq_true] at h
    exact ⟨c, rest, chars, h.1.1⟩

theorem identifier_unsigned {name : String} (h : isIdentifier name = true) (rest : List Char) :
    name.toList ≠ '~' :: rest := by
  intro signed
  obtain ⟨c, more, chars, letter⟩ := identifier_front h
  rw [chars] at signed
  cases signed
  cases letter

theorem letter_not_blank {c : Char} (h : isLetter c = true) : Text.isBlank c = false := by
  have range := letter_range h
  simp only [Text.isBlank, Bool.or_eq_false_iff, Bool.and_eq_false_imp, decide_eq_true_eq,
    decide_eq_false_iff_not, beq_eq_false_iff_ne]
  omega

theorem blank_stops {c : Char} (blank : Text.isBlank c = true) : isIdentifierChar c = false := by
  cases inside : isIdentifierChar c with
  | false => rfl
  | true =>
    simp only [isIdentifierChar, Bool.or_eq_true, Bool.and_eq_true, decide_eq_true_eq, beq_iff_eq,
      Char.le_def, UInt32.le_iff_toNat_le] at inside
    rcases inside with (letter | digit) | rfl
    · rw [letter_not_blank letter] at blank
      cases blank
    · change 48 ≤ c.toNat ∧ c.toNat ≤ 57 at digit
      simp only [Text.isBlank, Bool.or_eq_true, Bool.and_eq_true, decide_eq_true_eq,
        beq_iff_eq] at blank
      omega
    · revert blank
      decide

theorem symbol_head {c : Char} {cs rest : List Char} {op : Operator}
    (h : Operator.ofSymbol? (c :: cs) = some (op, rest)) :
    c ∈ ['<', '-', '=', '∧', '&', '∨', '|', '→', '↔', '~', '!'] := by
  unfold Operator.ofSymbol? at h
  split at h <;> simp_all

theorem symbol_head_kind {c : Char} {cs rest : List Char} {op : Operator}
    (h : Operator.ofSymbol? (c :: cs) = some (op, rest)) :
    Text.isBlank c = false ∧ c ≠ '(' ∧ c ≠ ')' ∧ isLetter c = false := by
  have heads : (['<', '-', '=', '∧', '&', '∨', '|', '→', '↔', '~', '!'].all fun d =>
      !Text.isBlank d && d != '(' && d != ')' && !isLetter d) = true := by decide
  have kind := List.all_eq_true.mp heads c (symbol_head h)
  simpa [and_assoc] using kind

theorem symbol_head_stops {c : Char} {cs rest : List Char} {op : Operator}
    (found : Operator.ofSymbol? (c :: cs) = some (op, rest)) : isIdentifierChar c = false := by
  have heads : (['<', '-', '=', '∧', '&', '∨', '|', '→', '↔', '~', '!'].all fun d =>
      !isIdentifierChar d) = true := by decide
  have kind := List.all_eq_true.mp heads c (symbol_head found)
  simpa using kind

theorem symbol_append {cs rest : List Char} {op : Operator} (ds : List Char)
    (h : Operator.ofSymbol? cs = some (op, rest)) :
    Operator.ofSymbol? (cs ++ ds) = some (op, rest ++ ds) := by
  unfold Operator.ofSymbol? at h
  split at h <;> cases h <;> rfl

/-! ### Cutting a text -/

namespace Cursor

theorem tokens_stop {c : Cursor} {p : Nat} (h : c.next = .stop p) : c.tokens = .ok ⟨[], p⟩ := by
  rw [tokens]
  split <;> simp_all

theorem tokens_invalid {c : Cursor} {e : LexError} (h : c.next = .invalid e) :
    c.tokens = .error e := by
  rw [tokens]
  split <;> simp_all

theorem tokens_token {c after : Cursor} {t : Token} (h : c.next = .token t after) :
    c.tokens = after.tokens.map fun ts => ⟨t :: ts.list, ts.stop⟩ := by
  rw [tokens]
  split
  · simp_all
  · simp_all
  · rename_i read
    rw [h] at read
    cases read
    cases after.tokens <;> rfl

theorem tokens_of_next_eq {c d : Cursor} (h : c.next = d.next) : c.tokens = d.tokens := by
  cases read : d.next with
  | stop p => rw [tokens_stop read, tokens_stop (h.trans read)]
  | invalid e => rw [tokens_invalid read, tokens_invalid (h.trans read)]
  | token t after => rw [tokens_token read, tokens_token (h.trans read)]

theorem next_blank {p : Nat} {c : Char} {cs : List Char} (h : Text.isBlank c = true) :
    next ⟨p, c :: cs⟩ = next ⟨p + 1, cs⟩ := by
  simp only [next, skipBlanks, List.takeWhile_cons, List.dropWhile_cons, h, if_true,
    List.length_cons]
  congr 2
  omega

theorem next_of_not_blank {c : Char} (p : Nat) (cs : List Char) (h : Text.isBlank c = false) :
    next ⟨p, c :: cs⟩ = scan ⟨p, c :: cs⟩ := by
  simp [next, skipBlanks, h]

theorem scan_symbol {p : Nat} {cs rest : List Char} {op : Operator}
    (h : Operator.ofSymbol? cs = some (op, rest)) :
    scan ⟨p, cs⟩ = .token ⟨.operator op, p⟩ ⟨p + (cs.length - rest.length), rest⟩ := by
  cases cs with
  | nil => cases h
  | cons c cs =>
    have kind := symbol_head_kind h
    simp [scan, kind, h]

theorem scan_run {p : Nat} {c : Char} {more rest : List Char} (letter : isLetter c = true)
    (run : ∀ d ∈ more, isIdentifierChar d = true) (stops : Stops rest) :
    scan ⟨p, c :: (more ++ rest)⟩ =
      .token ⟨Word.ofRun (c :: more), p⟩ ⟨p + (more.length + 1), rest⟩ := by
  have range := letter_range letter
  have noLeft : c ≠ '(' := by rintro rfl; revert range; decide
  have noRight : c ≠ ')' := by rintro rfl; revert range; decide
  have noSymbol : Operator.ofSymbol? (c :: (more ++ rest)) = none := by
    cases found : Operator.ofSymbol? (c :: (more ++ rest)) with
    | none => rfl
    | some pair =>
      have kind := symbol_head_kind found
      simp [letter] at kind
  have taken : (more ++ rest).takeWhile isIdentifierChar = more := by
    rw [List.takeWhile_append_of_pos run]
    cases rest with
    | nil => simp
    | cons d rest => simp [stops d rest rfl]
  have dropped : (more ++ rest).dropWhile isIdentifierChar = rest := by
    rw [List.dropWhile_append_of_pos run]
    cases rest with
    | nil => rfl
    | cons d rest => simp [stops d rest rfl]
  simp [scan, noSymbol, letter, taken, dropped]

end Cursor

/-! ### Tokens are what the text spells -/

theorem Spells.indent {gap cs : List Char} {ws : List Word}
    (blank : ∀ c ∈ gap, Text.isBlank c = true) (rest : Spells cs ws) : Spells (gap ++ cs) ws := by
  induction gap with
  | nil => exact rest
  | cons c gap ih =>
    obtain ⟨first, others⟩ := List.forall_mem_cons.mp blank
    exact .blank first (ih others)

theorem spells_of_dropWhile {cs : List Char} {ws : List Word}
    (h : Spells (cs.dropWhile Text.isBlank) ws) : Spells cs ws := by
  have indented := h.indent (List.all_eq_true.mp (List.all_takeWhile (l := cs)))
  rwa [List.takeWhile_append_dropWhile] at indented

theorem spells_scan {c after : Cursor} {t : Token} {ws : List Word}
    (read : c.scan = .token t after) (rest : Spells after.rest ws) :
    Spells c.rest (t.word :: ws) := by
  obtain ⟨p, cs⟩ := c
  unfold Cursor.scan at read
  split at read
  · cases read
  · rename_i text; cases text; cases read; exact .leftParen rest
  · rename_i text; cases text; cases read; exact .rightParen rest
  · rename_i ch more _ _ text
    cases text
    split at read
    · rename_i found; cases read; exact .symbol found rest
    · split at read
      · rename_i letter
        cases read
        have split := List.takeWhile_append_dropWhile (p := isIdentifierChar) (l := more)
        have run : ∀ d ∈ more.takeWhile isIdentifierChar, isIdentifierChar d = true :=
          List.all_eq_true.mp List.all_takeWhile
        have stops : Stops (more.dropWhile isIdentifierChar) := by
          intro d tail text
          have head := List.head?_dropWhile_not isIdentifierChar more
          simpa [text] using head
        have spelled := Spells.run letter run stops rest
        rwa [split] at spelled
      · split at read <;> cases read

theorem spells_of_tokens {c : Cursor} {ts : Tokens} (h : c.tokens = .ok ts) :
    Spells c.rest ts.words := by
  fun_induction Cursor.tokens c generalizing ts with
  | case1 c p read =>
    cases h
    apply spells_of_dropWhile
    have ended : c.rest.dropWhile Text.isBlank = [] := by
      simp only [Cursor.next, Cursor.scan, Cursor.skipBlanks] at read
      split at read
      · assumption
      · cases read
      · cases read
      · split at read
        · cases read
        · split at read
          · cases read
          · split at read <;> cases read
    rw [ended]
    exact .nil
  | case2 => cases h
  | case3 c t after read shorter rest tail ih =>
    cases h
    exact spells_of_dropWhile (spells_scan read (ih tail))
  | case4 => cases h

/-- What a text spells is what it is cut into, wherever the count of positions starts. -/
theorem tokens_of_spells {cs : List Char} {ws : List Word} (h : Spells cs ws) (p : Nat) :
    ∃ ts, (Cursor.mk p cs).tokens = .ok ts ∧ ts.words = ws := by
  have prepend : ∀ {c after : Cursor} {t : Token} {us : List Word},
      c.next = .token t after → (∃ ts, after.tokens = .ok ts ∧ ts.words = us) →
      ∃ ts, c.tokens = .ok ts ∧ ts.words = t.word :: us := by
    rintro c after t us read ⟨ts, tail, rfl⟩
    rw [Cursor.tokens_token read, tail]
    exact ⟨_, rfl, rfl⟩
  induction h generalizing p with
  | nil => exact ⟨_, Cursor.tokens_stop rfl, rfl⟩
  | blank blank _ ih =>
    obtain ⟨ts, tail, same⟩ := ih (p + 1)
    exact ⟨ts, (Cursor.tokens_of_next_eq (Cursor.next_blank blank)).trans tail, same⟩
  | @leftParen cs _ _ ih =>
    have read := Cursor.next_of_not_blank p cs (show Text.isBlank '(' = false by decide)
    exact prepend read (ih (p + 1))
  | @rightParen cs _ _ ih =>
    have read := Cursor.next_of_not_blank p cs (show Text.isBlank ')' = false by decide)
    exact prepend read (ih (p + 1))
  | @symbol cs rest op ws found _ ih =>
    cases cs with
    | nil => cases found
    | cons c cs =>
      have read := Cursor.next_of_not_blank p cs (symbol_head_kind found).1
      rw [Cursor.scan_symbol found] at read
      exact prepend read (ih _)
  | @run c more rest ws letter run stops _ ih =>
    have read := Cursor.next_of_not_blank p (more ++ rest) (letter_not_blank letter)
    rw [Cursor.scan_run letter run stops] at read
    exact prepend read (ih _)

theorem ofText_ok {text : String} {ws : List Word} :
    (∃ ts, Tokens.ofText text = .ok ts ∧ ts.words = ws) ↔ Spells text.toList ws := by
  constructor
  · rintro ⟨ts, read, rfl⟩
    exact spells_of_tokens read
  · intro h
    exact tokens_of_spells h 0

theorem Spells.unique {cs : List Char} {ws us : List Word} (left : Spells cs ws)
    (right : Spells cs us) : ws = us := by
  obtain ⟨ts, read, rfl⟩ := tokens_of_spells left 0
  obtain ⟨ts', read', rfl⟩ := tokens_of_spells right 0
  rw [read] at read'
  cases read'
  rfl

/-! ### Side by side -/

theorem Spells.append {cs ds : List Char} {ws us : List Word} (left : Spells cs ws)
    (right : Spells ds us) (stops : Stops ds) : Spells (cs ++ ds) (ws ++ us) := by
  induction left with
  | nil => exact right
  | blank blank _ ih => exact .blank blank ih
  | leftParen _ ih => exact .leftParen ih
  | rightParen _ ih => exact .rightParen ih
  | symbol found _ ih => exact .symbol (symbol_append ds found) ih
  | @run c more rest ws letter run stops' _ ih =>
    rw [List.cons_append, List.append_assoc]
    refine .run letter run ?_ ih
    cases rest with
    | nil => exact stops
    | cons d rest => exact stops_cons _ (stops' d rest rfl)

end Premise
