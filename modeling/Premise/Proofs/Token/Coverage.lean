import Premise.Proofs.Formula.Spelling

/-!
Tokens in their text. Each token stands at its position in one of its spellings, and what no token
takes up is blank. A text that cannot be cut is cut as far as the character at which no token
begins. Main statement: `tokens_cover`.
-/
namespace Premise

variable {text : String} {cs : List Char} {op : Operator} {t : Token} {x y : Lexeme} {p : Nat}

/-! ### Spellings as they stand in a text -/

/-- No spelling of an operator begins with another one. -/
theorem Operator.spellings_apart {a b : String} (listed : a ∈ op.spellings)
    (listed' : b ∈ op.spellings) (front : a.toList <+: cs) (front' : b.toList <+: cs) : a = b := by
  have table : ∀ a ∈ op.spellings, ∀ b ∈ op.spellings, a.toList <+: b.toList → a = b := by
    rcases op with _ | (_ | _ | _ | _) <;> decide
  rcases List.prefix_or_prefix_of_prefix front front' with shorter | longer
  · exact table a listed b listed' shorter
  · exact (table b listed' a listed longer).symm

namespace Lexeme

theorem text_ne_nil (x : Lexeme) : x.text.toList ≠ [] := by
  rcases x.run_or_symbol with ⟨c, more, chars, -⟩ | ⟨c, more, chars, -⟩ <;> simp [chars]

/-- What a lexeme stands in front of is no text at which the scanner fails. -/
theorem begins (x : Lexeme) (front : x.text.toList <+: cs) :
    ∃ c more, cs = c :: more ∧
      (c = '(' ∨ c = ')' ∨ isLetter c = true ∨ (Operator.ofSymbol? cs).isSome = true) := by
  obtain ⟨behind, rfl⟩ := front
  cases x with
  | name text named =>
    obtain ⟨c, more, chars, letter, -⟩ := Formula.identifier_run named
    refine ⟨c, more ++ behind, ?_, by simp [letter]⟩
    simp [Lexeme.text, chars]
  | sign op text listed =>
    have read := Operator.mem_spellings.mp listed
    unfold Operator.ofSpelling? at read
    split at read
    · rename_i found
      have whole := symbol_append behind found
      cases chars : text.toList with
      | nil => rw [chars] at found; cases found
      | cons c more =>
        rw [chars] at whole
        refine ⟨c, more ++ behind, ?_, ?_⟩
        · simp [Lexeme.text, chars]
        · simp only [Lexeme.text, chars, whole]
          simp
    · obtain ⟨c, more, chars, letter, -⟩ := Operator.ofWord?_run read
      refine ⟨c, more ++ behind, ?_, by simp [letter]⟩
      simp [Lexeme.text, chars]
  | leftParen => exact ⟨'(', behind, rfl, by simp⟩
  | rightParen => exact ⟨')', behind, rfl, by simp⟩

theorem not_blank (x : Lexeme) : ∀ c ∈ x.text.toList, Text.isBlank c = false := by
  have of_run : ∀ {c}, isIdentifierChar c = true → Text.isBlank c = false := by
    intro c inside
    cases blank : Text.isBlank c with
    | false => rfl
    | true => rw [blank_stops blank] at inside; cases inside
  cases x with
  | name text named =>
    obtain ⟨c, more, chars, letter, run, -⟩ := Formula.identifier_run named
    intro d member
    rw [Lexeme.text, chars] at member
    rcases List.mem_cons.mp member with rfl | inside
    · exact letter_not_blank letter
    · exact of_run (run d inside)
  | sign op text listed =>
    have table : ∀ a ∈ op.spellings, a.toList.all (!Text.isBlank ·) = true := by
      rcases op with _ | (_ | _ | _ | _) <;> decide
    simpa [Lexeme.text] using table text listed
  | leftParen => simp [Lexeme.text, Text.isBlank]
  | rightParen => simp [Lexeme.text, Text.isBlank]

/-- What is no word has no identifier character. -/
theorem symbol_stops (symbol : x.isWord = false) :
    ∀ c ∈ x.text.toList, isIdentifierChar c = false := by
  cases x with
  | name text named =>
    obtain ⟨c, more, chars, letter, run, -⟩ := Formula.identifier_run named
    rw [isWord_of_run (x := .name text named) chars letter run] at symbol
    cases symbol
  | sign op text listed =>
    have table : ∀ a ∈ op.spellings, a.toList.all isIdentifierChar = false →
        a.toList.all (!isIdentifierChar ·) = true := by
      rcases op with _ | (_ | _ | _ | _) <;> decide
    simpa [Lexeme.text] using table text listed symbol
  | leftParen => simp [Lexeme.text, isIdentifierChar, isLetter]
  | rightParen => simp [Lexeme.text, isIdentifierChar, isLetter]

theorem text_unique (same : x.word = y.word) (front : x.text.toList <+: cs)
    (front' : y.text.toList <+: cs) : x.text = y.text := by
  cases x with
  | name a _ => cases y <;> cases same; rfl
  | sign op a listed =>
    cases y with
    | sign op' b listed' =>
      cases same
      exact Operator.spellings_apart listed listed' front front'
    | name | leftParen | rightParen => cases same
  | leftParen => cases y <;> cases same; rfl
  | rightParen => cases y <;> cases same; rfl

theorem of_name {name : String} (named : x.word = .identifier name) :
    x.text = name ∧ x.isWord = true := by
  cases x with
  | name text proper =>
    cases named
    obtain ⟨c, more, chars, letter, run, -⟩ := Formula.identifier_run proper
    exact ⟨rfl, isWord_of_run (x := .name _ proper) chars letter run⟩
  | sign | leftParen | rightParen => cases named

end Lexeme

/-! ### One token -/

/-- No token begins here, and yet there is more than blanks. -/
def Stuck (cs : List Char) : Prop :=
  ∃ c more, cs = c :: more ∧ Text.isBlank c = false ∧ ∀ x : Lexeme, ¬ x.text.toList <+: cs

namespace Cursor

/-- Past blanks the token is read in one of its spellings; a word takes all characters it can. -/
structure Takes (c : Cursor) (gap : List Char) (t : Token) (x : Lexeme) (after : Cursor) :
    Prop where
  blank : ∀ d ∈ gap, Text.isBlank d = true
  word : x.word = t.word
  chars : c.rest = gap ++ (x.text.toList ++ after.rest)
  place : t.position = c.position + gap.length
  past : after.position = t.position + x.text.length
  stops : x.isWord = true → Stops after.rest

variable {c after : Cursor}

theorem ofRun_lexeme {ch : Char} {more : List Char} (letter : isLetter ch = true)
    (run : ∀ d ∈ more, isIdentifierChar d = true) :
    ∃ x : Lexeme, x.word = Word.ofRun (ch :: more) ∧ x.text.toList = ch :: more := by
  have chars : (String.ofList (ch :: more)).toList = ch :: more := String.toList_ofList
  cases word : Operator.ofWord? (String.ofList (ch :: more)) with
  | some op =>
    refine ⟨.sign op _ (Operator.ofWord?_spelling word), ?_, chars⟩
    rw [Word.ofRun, word]
    rfl
  | none =>
    have named : Word.ofRun (ch :: more) = .identifier (String.ofList (ch :: more)) := by
      rw [Word.ofRun, word]
    refine ⟨.name _ (ofRun_name letter run ?_), named.symm, chars⟩
    rw [named]
    rfl

theorem scan_takes (read : c.scan = .token t after) : ∃ x, c.Takes [] t x after := by
  obtain ⟨p, cs⟩ := c
  unfold scan at read
  split at read
  · cases read
  · rename_i text
    cases text
    cases read
    exact ⟨.leftParen, by simp, rfl, rfl, rfl, rfl, by rintro ⟨⟩⟩
  · rename_i text
    cases text
    cases read
    exact ⟨.rightParen, by simp, rfl, rfl, rfl, rfl, by rintro ⟨⟩⟩
  · rename_i ch more _ _ text
    cases text
    split at read
    · rename_i op rest found
      cases read
      obtain ⟨symbol, listed, split⟩ := Operator.ofSymbol?_split found
      have length : (ch :: more).length - rest.length = symbol.length := by
        rw [split, List.length_append, Nat.add_sub_cancel, String.length_toList]
      refine ⟨.sign op symbol listed, by simp, rfl, split, rfl, congrArg (p + ·) length, ?_⟩
      intro word
      -- A word begins with an identifier character, and a symbol does not.
      cases chars : symbol.toList with
      | nil => exact absurd chars (Lexeme.sign op symbol listed).text_ne_nil
      | cons d tail =>
        rw [chars] at split
        obtain ⟨rfl, -⟩ := List.cons.inj split
        have inside : isIdentifierChar ch = true :=
          List.all_eq_true.mp word ch (by rw [Lexeme.text, chars]; exact List.mem_cons_self)
        rw [symbol_head_stops found] at inside
        cases inside
    · split at read
      · rename_i letter
        cases read
        have run : ∀ d ∈ more.takeWhile isIdentifierChar, isIdentifierChar d = true :=
          List.all_eq_true.mp List.all_takeWhile
        obtain ⟨x, word, chars⟩ := ofRun_lexeme letter run
        refine ⟨x, by simp, word, ?_, rfl, ?_, fun _ => ?_⟩
        · simp [chars]
        · rw [← String.length_toList, chars]
        · intro d tail text
          have behind : more.dropWhile isIdentifierChar = d :: tail := text
          have head := List.head?_dropWhile_not isIdentifierChar more
          simpa [behind] using head
      · split at read <;> cases read

theorem scan_stops (read : c.scan = .stop p) : c.rest = [] ∧ p = c.position := by
  unfold scan at read
  split at read
  · rename_i text
    cases read
    exact ⟨text, rfl⟩
  · cases read
  · cases read
  · split at read
    · cases read
    · split at read
      · cases read
      · split at read <;> cases read

theorem scan_stuck {e : LexError} (read : c.scan = .invalid e)
    (bare : ∀ d more, c.rest = d :: more → Text.isBlank d = false) :
    e.position = c.position ∧ Stuck c.rest := by
  unfold scan at read
  split at read
  · cases read
  · cases read
  · cases read
  · rename_i ch more noLeft noRight text
    split at read
    · cases read
    · rename_i noSymbol
      split at read
      · cases read
      · rename_i noLetter
        have place : e.position = c.position := by split at read <;> cases read <;> rfl
        refine ⟨place, ch, more, text, bare ch more text, fun x front => ?_⟩
        rw [text] at front
        obtain ⟨d, tail, same, left | right | letter | symbol⟩ := x.begins front
        all_goals obtain ⟨rfl, rfl⟩ := List.cons.inj same
        · exact noLeft left
        · exact noRight right
        · exact noLetter letter
        · rw [noSymbol] at symbol
          cases symbol

theorem next_takes (read : c.next = .token t after) : ∃ gap x, c.Takes gap t x after := by
  obtain ⟨x, takes⟩ := scan_takes read
  refine ⟨c.rest.takeWhile Text.isBlank, x, List.all_eq_true.mp List.all_takeWhile, takes.word, ?_,
    takes.place, takes.past, takes.stops⟩
  have chars : c.rest.dropWhile Text.isBlank = x.text.toList ++ after.rest := takes.chars
  rw [← chars, List.takeWhile_append_dropWhile]

theorem next_stops (read : c.next = .stop p) :
    (∀ d ∈ c.rest, Text.isBlank d = true) ∧ p = c.position + c.rest.length := by
  obtain ⟨ended, place⟩ := scan_stops read
  have behind : c.rest.dropWhile Text.isBlank = [] := ended
  have whole : c.rest.takeWhile Text.isBlank = c.rest := by
    have split := List.takeWhile_append_dropWhile (p := Text.isBlank) (l := c.rest)
    rwa [behind, List.append_nil] at split
  constructor
  · rw [← whole]
    exact List.all_eq_true.mp List.all_takeWhile
  · rw [place, skipBlanks, whole]

theorem next_stuck {e : LexError} (read : c.next = .invalid e) : ∃ gap back,
    (∀ d ∈ gap, Text.isBlank d = true) ∧ c.rest = gap ++ back ∧
      e.position = c.position + gap.length ∧ Stuck back := by
  have bare : ∀ d more, c.rest.dropWhile Text.isBlank = d :: more → Text.isBlank d = false := by
    intro d more text
    have head := List.head?_dropWhile_not Text.isBlank c.rest
    simpa [text] using head
  obtain ⟨place, stuck⟩ := scan_stuck read bare
  exact ⟨_, _, List.all_eq_true.mp List.all_takeWhile,
    (List.takeWhile_append_dropWhile (p := Text.isBlank)).symm, place, stuck⟩

end Cursor

/-! ### Tokens in a text -/

/-- The token stands at its position, in this spelling. -/
def Token.StandsAs (t : Token) (text : String) (x : Lexeme) : Prop :=
  x.word = t.word ∧ x.text.toList <+: text.toList.drop t.position

/-- The character with this index belongs to the token. -/
def Token.Covers (t : Token) (text : String) (i : Nat) : Prop :=
  ∃ x, t.StandsAs text x ∧ t.position ≤ i ∧ i < t.position + x.text.length

namespace Token.StandsAs

variable {i : Nat} {c : Char}

theorem unique (stands : t.StandsAs text x) (stands' : t.StandsAs text y) : x.text = y.text :=
  Lexeme.text_unique (stands.1.trans stands'.1.symm) stands.2 stands'.2

theorem within (stands : t.StandsAs text x) :
    t.position < t.position + x.text.length ∧ t.position + x.text.length ≤ text.length := by
  have filled := List.length_pos_iff.mpr x.text_ne_nil
  have fits := stands.2.length_le
  rw [List.length_drop, String.length_toList, String.length_toList] at fits
  rw [String.length_toList] at filled
  omega

theorem char (stands : t.StandsAs text x) (start : t.position ≤ i)
    (stop : i < t.position + x.text.length) (here : text.toList[i]? = some c) :
    c ∈ x.text.toList := by
  obtain ⟨-, behind, split⟩ := stands
  have inside : i - t.position < x.text.toList.length := by
    rw [String.length_toList]
    omega
  have moved : (text.toList.drop t.position)[i - t.position]? = some c := by
    rw [List.getElem?_drop, Nat.add_sub_cancel' start, here]
  rw [← split, List.getElem?_append_left inside] at moved
  exact List.mem_of_getElem? moved

end Token.StandsAs

/-- From a position on, the tokens lie in the text with blanks before them and behind the last. -/
inductive Laid (text : String) : Nat → List Token → Prop where
  | stop {p : Nat} : (∀ c ∈ text.toList.drop p, Text.isBlank c = true) → Laid text p []
  | token {p : Nat} {t : Token} {x : Lexeme} {ts : List Token} :
      t.StandsAs text x → p ≤ t.position →
      (∀ i c, p ≤ i → i < t.position → text.toList[i]? = some c → Text.isBlank c = true) →
      (x.isWord = true → Stops (text.toList.drop (t.position + x.text.length))) →
      Laid text (t.position + x.text.length) ts → Laid text p (t :: ts)

section
variable {c after : Cursor} {gap : List Char}

/-- Where a cursor is at a place in the text, so it is behind the token. -/
theorem Cursor.Takes.inside (takes : c.Takes gap t x after)
    (inside : c.rest = text.toList.drop c.position) :
    text.toList.drop t.position = x.text.toList ++ after.rest ∧
      after.rest = text.toList.drop after.position := by
  have behind : text.toList.drop t.position = x.text.toList ++ after.rest := by
    rw [takes.place, ← List.drop_drop, ← inside, takes.chars, List.drop_left]
  refine ⟨behind, ?_⟩
  rw [takes.past, ← List.drop_drop, behind, ← String.length_toList, List.drop_left]

theorem laid_of_tokens {ts : Tokens} (read : c.tokens = .ok ts)
    (inside : c.rest = text.toList.drop c.position) (bound : c.position ≤ text.length) :
    Laid text c.position ts.list ∧ ts.stop = text.length := by
  fun_induction Cursor.tokens c generalizing ts with
  | case1 c p ended =>
    cases read
    obtain ⟨blank, place⟩ := Cursor.next_stops ended
    rw [inside] at blank place
    refine ⟨.stop blank, ?_⟩
    rw [List.length_drop, String.length_toList] at place
    change p = text.length
    omega
  | case2 => cases read
  | case3 c t after found shorter rest tail ih =>
    cases read
    obtain ⟨gap, x, takes⟩ := Cursor.next_takes found
    obtain ⟨front, behind⟩ := takes.inside inside
    have stands : t.StandsAs text x := ⟨takes.word, after.rest, front.symm⟩
    have past := takes.past
    have room := stands.within
    obtain ⟨laid, stop⟩ := ih tail behind (by omega)
    refine ⟨.token stands ?_ ?_ ?_ (past ▸ laid), stop⟩
    · rw [takes.place]
      exact Nat.le_add_right _ _
    · intro i d start before here
      have place := takes.place
      have inGap : i - c.position < gap.length := by omega
      have moved : c.rest[i - c.position]? = some d := by
        rw [inside, List.getElem?_drop, Nat.add_sub_cancel' start, here]
      rw [takes.chars, List.getElem?_append_left inGap] at moved
      exact takes.blank d (List.mem_of_getElem? moved)
    · intro word
      rw [← past, ← behind]
      exact takes.stops word
  | case4 => cases read

end

/-- No identifier character stands right before the first place, nor at the second. -/
def Alone (text : String) (start stop : Nat) : Prop :=
  (∀ i c, i + 1 = start → text.toList[i]? = some c → isIdentifierChar c = false) ∧
    ∀ c, text.toList[stop]? = some c → isIdentifierChar c = false

theorem Stops.here {q : Nat} {c : Char} (stops : Stops (cs.drop q)) (here : cs[q]? = some c) :
    isIdentifierChar c = false := by
  obtain ⟨inside, rfl⟩ := List.getElem?_eq_some_iff.mp here
  exact stops _ _ (List.drop_eq_getElem_cons inside)

namespace Laid

variable {ts : List Token}

theorem start_le (laid : Laid text p ts) : ∀ t ∈ ts, p ≤ t.position := by
  induction laid with
  | stop => exact fun t member => absurd member List.not_mem_nil
  | token stands start _ _ _ ih =>
    have length := stands.within
    refine List.forall_mem_cons.mpr ⟨start, fun u member => ?_⟩
    have later := ih u member
    omega

theorem stands (laid : Laid text p ts) : ∀ t ∈ ts, ∃ x, t.StandsAs text x := by
  induction laid with
  | stop => exact fun t member => absurd member List.not_mem_nil
  | token stands _ _ _ _ ih => exact List.forall_mem_cons.mpr ⟨⟨_, stands⟩, ih⟩

theorem increasing (laid : Laid text p ts) : (ts.map (·.position)).Pairwise (· < ·) := by
  induction laid with
  | stop => exact .nil
  | token stands _ _ _ rest ih =>
    refine List.pairwise_cons.mpr ⟨fun q member => ?_, ih⟩
    obtain ⟨u, listed, rfl⟩ := List.mem_map.mp member
    exact Nat.lt_of_lt_of_le stands.within.1 (rest.start_le u listed)

/-- The blanks are the characters of no token. -/
theorem blank_iff (laid : Laid text p ts) {i : Nat} {c : Char} (start : p ≤ i)
    (here : text.toList[i]? = some c) :
    Text.isBlank c = true ↔ ∀ t ∈ ts, ¬ t.Covers text i := by
  induction laid with
  | @stop p blank =>
    have member : c ∈ text.toList.drop p := by
      apply List.mem_of_getElem?
      rw [List.getElem?_drop, Nat.add_sub_cancel' start, here]
    exact iff_of_true (blank c member) fun t member => absurd member List.not_mem_nil
  | @token p t x ts stands _ blank _ rest ih =>
    have later := rest.start_le
    rcases Nat.lt_or_ge i t.position with before | reached
    · refine iff_of_true (blank i c start before here) fun u member => ?_
      rintro ⟨y, -, first, -⟩
      rcases List.mem_cons.mp member with rfl | listed
      · omega
      · have := later u listed
        omega
    · rcases Nat.lt_or_ge i (t.position + x.text.length) with inside | past
      · have filled := x.not_blank c (stands.char reached inside here)
        rw [filled]
        exact iff_of_false (by simp) fun free =>
          free t List.mem_cons_self ⟨x, stands, reached, inside⟩
      · have apart : ¬ t.Covers text i := by
          rintro ⟨y, stands', -, last⟩
          rw [stands'.unique stands] at last
          omega
        rw [ih past, List.forall_mem_cons]
        exact ⟨fun free => ⟨apart, free⟩, And.right⟩

/-- Words are read as far as they go, and begin where they are read. -/
theorem alone (laid : Laid text p ts)
    (before : ∀ i c, i + 1 = p → text.toList[i]? = some c → isIdentifierChar c = true →
      Stops (text.toList.drop p)) :
    ∀ t ∈ ts, ∀ x, t.StandsAs text x → x.isWord = true →
      Alone text t.position (t.position + x.text.length) := by
  induction laid with
  | stop => exact fun t member => absurd member List.not_mem_nil
  | @token p t x ts stands start blank stops rest ih =>
    refine List.forall_mem_cons.mpr ⟨fun y stands' word => ?_, ih fun i c last here inside => ?_⟩
    · have same := stands'.unique stands
      rw [Lexeme.isWord, same] at word
      rw [same]
      refine ⟨fun i c last here => ?_, fun c here => (stops word).here here⟩
      rcases Nat.lt_or_ge i p with early | late
      · -- Nothing stands between the last token and this one, which begins with a letter.
        have touching : p = t.position := by omega
        obtain ⟨d, more, chars⟩ := List.exists_cons_of_ne_nil x.text_ne_nil
        obtain ⟨behind, split⟩ := stands.2
        have first : text.toList[p]? = some d := by
          rw [← Nat.add_zero p, ← List.getElem?_drop, touching, ← split, chars]
          rfl
        have letter : isIdentifierChar d = true :=
          List.all_eq_true.mp word d (by rw [chars]; exact List.mem_cons_self)
        refine Bool.eq_false_iff.mpr fun inside => ?_
        rw [(before i c (by omega) here inside).here first] at letter
        cases letter
      · exact blank_stops (blank i c late (by omega) here)
    · cases word : x.isWord with
      | true => exact stops word
      | false =>
        have member := stands.char (by have := stands.within; omega) (by omega) here
        rw [Lexeme.symbol_stops word c member] at inside
        cases inside

/-- No character belongs to two tokens. -/
theorem covers_unique (laid : Laid text p ts) {i : Nat} {u : Token} (member : t ∈ ts)
    (member' : u ∈ ts) (covers : t.Covers text i) (covers' : u.Covers text i) : t = u := by
  induction laid with
  | stop => cases member
  | @token p first x ts stands _ _ _ rest ih =>
    have apart : ∀ v ∈ ts, first.Covers text i → ¬ v.Covers text i := by
      rintro v listed ⟨y, stands', -, last⟩ ⟨-, -, start, -⟩
      rw [stands'.unique stands] at last
      have later := rest.start_le v listed
      omega
    rcases List.mem_cons.mp member with rfl | listed
    · rcases List.mem_cons.mp member' with rfl | listed'
      · rfl
      · exact absurd covers' (apart u listed' covers)
    · rcases List.mem_cons.mp member' with rfl | listed'
      · exact absurd covers (apart t listed covers')
      · exact ih listed listed'

end Laid

theorem laid_of_ofText {ts : Tokens} (read : Tokens.ofText text = .ok ts) :
    Laid text 0 ts.list ∧ ts.stop = text.length :=
  laid_of_tokens read rfl (Nat.zero_le _)

theorem ofText_increasing {ts : Tokens} (read : Tokens.ofText text = .ok ts) :
    (ts.list.map (·.position) ++ [ts.stop]).Pairwise (· < ·) := by
  obtain ⟨laid, stop⟩ := laid_of_ofText read
  refine List.pairwise_append.mpr ⟨laid.increasing, List.pairwise_singleton _ _, ?_⟩
  intro q member stop' last
  obtain ⟨t, listed, rfl⟩ := List.mem_map.mp member
  obtain ⟨x, stands⟩ := laid.stands t listed
  rw [List.mem_singleton.mp last, stop]
  exact Nat.lt_of_lt_of_le stands.within.1 stands.within.2

/-- Where token `k` stands, or the end behind all tokens. -/
def Tokens.place (ts : Tokens) (k : Nat) : Nat :=
  (ts.list[k]?.map (·.position)).getD ts.stop

theorem Tokens.place_le {ts : Tokens} (read : ofText text = .ok ts) (k : Nat) :
    ts.place k ≤ text.length := by
  obtain ⟨laid, stop⟩ := laid_of_ofText read
  unfold Tokens.place
  cases here : ts.list[k]? with
  | none => exact Nat.le_of_eq stop
  | some t =>
    obtain ⟨x, stands⟩ := laid.stands t (List.mem_of_getElem? here)
    exact Nat.le_of_lt (Nat.lt_of_lt_of_le stands.within.1 stands.within.2)

/-! ### Where cutting fails -/

theorem Stops.front {ds : List Char} (stops : Stops (cs ++ ds)) : Stops cs := by
  rintro c more rfl
  exact stops c (more ++ ds) rfl

/-- What stands behind a token and spells words by itself, spells the token and these words with
it. -/
theorem Cursor.Takes.before {c after : Cursor} {gap front back : List Char} {ws : List Word}
    (takes : c.Takes gap t x after) (split : after.rest = front ++ back)
    (spelled : Spells front ws) :
    c.rest = gap ++ (x.text.toList ++ front) ++ back ∧
      c.position + (gap ++ (x.text.toList ++ front)).length = after.position + front.length ∧
      Spells (gap ++ (x.text.toList ++ front)) (t.word :: ws) := by
  refine ⟨?_, ?_, ?_⟩
  · rw [takes.chars, split]
    simp
  · rw [takes.past, takes.place, List.length_append, List.length_append, String.length_toList]
    omega
  · rw [← takes.word]
    refine (x.spells spelled fun word => ?_).indent takes.blank
    have stops := takes.stops word
    rw [split] at stops
    exact stops.front

/-- Whatever stands behind it, what was cut before the failure spells words by itself. -/
theorem tokens_stuck {c : Cursor} {e : LexError} (read : c.tokens = .error e) :
    ∃ front back ws, c.rest = front ++ back ∧ c.position + front.length = e.position ∧
      Spells front ws ∧ Stuck back := by
  fun_induction Cursor.tokens c with
  | case1 => cases read
  | case2 c why failed =>
    cases read
    obtain ⟨gap, back, blank, split, place, stuck⟩ := Cursor.next_stuck failed
    refine ⟨gap, back, [], split, place.symm, ?_, stuck⟩
    simpa using Spells.nil.indent blank
  | case3 => cases read
  | case4 c t after found shorter why tail ih =>
    cases read
    obtain ⟨gap, x, takes⟩ := Cursor.next_takes found
    obtain ⟨front, back, ws, split, place, spelled, stuck⟩ := ih tail
    obtain ⟨chars, length, spelled⟩ := takes.before split spelled
    exact ⟨_, back, _, chars, length.trans place, spelled, stuck⟩

/-- What stands before a token spells the words before it. -/
theorem tokens_before {c : Cursor} {ts : Tokens} (read : c.tokens = .ok ts) (k : Nat) :
    ∃ front back, c.rest = front ++ back ∧ c.position + front.length = ts.place k ∧
      Spells front (ts.words.take k) := by
  fun_induction Cursor.tokens c generalizing ts k with
  | case1 c p ended =>
    cases read
    obtain ⟨blank, place⟩ := Cursor.next_stops ended
    refine ⟨c.rest, [], by simp, place.symm, ?_⟩
    simpa [Tokens.words] using Spells.nil.indent blank
  | case2 => cases read
  | case3 c t after found shorter rest tail ih =>
    cases read
    obtain ⟨gap, x, takes⟩ := Cursor.next_takes found
    cases k with
    | zero =>
      refine ⟨gap, _, takes.chars, takes.place.symm, ?_⟩
      simpa using Spells.nil.indent takes.blank
    | succ k =>
      obtain ⟨front, back, split, place, spelled⟩ := ih tail k
      obtain ⟨chars, length, spelled⟩ := takes.before split spelled
      exact ⟨_, back, chars, length.trans place, spelled⟩
  | case4 => cases read

/-! ### Cutting a text -/

/-- Where a text is cut, the positions increase up to the end, which is the length of the text; each
token stands at its position in one of its spellings, the blanks are the characters of no token, and
the others belong to one token each; names, and operators spelled with letters, have no identifier
character on either side. Where a text is not cut, the failure is inside it: the text before that
place is cut, and at the place stands no blank, and no token begins there. -/
theorem tokens_cover (text : String) :
    (∀ ts, Tokens.ofText text = .ok ts →
      (ts.list.map (·.position) ++ [ts.stop]).Pairwise (· < ·) ∧ ts.stop = text.length ∧
      (∀ t ∈ ts.list, ∃ x, t.StandsAs text x) ∧
      (∀ i c, text.toList[i]? = some c →
        (Text.isBlank c = true ↔ ∀ t ∈ ts.list, ¬ t.Covers text i)) ∧
      (∀ i, ∀ t ∈ ts.list, ∀ u ∈ ts.list, t.Covers text i → u.Covers text i → t = u) ∧
      (∀ t ∈ ts.list, ∀ name, t.word = .identifier name →
        Alone text t.position (t.position + name.length)) ∧
      ∀ t ∈ ts.list, ∀ x, t.StandsAs text x → x.isWord = true →
        Alone text t.position (t.position + x.text.length)) ∧
    ∀ e, Tokens.ofText text = .error e → e.position < text.length ∧
      (∃ ts, Tokens.ofText (String.ofList (text.toList.take e.position)) = .ok ts) ∧
      Stuck (text.toList.drop e.position) := by
  constructor
  · intro ts read
    obtain ⟨laid, stop⟩ := laid_of_ofText read
    have alone := laid.alone fun i c before => absurd before (Nat.succ_ne_zero i)
    refine ⟨ofText_increasing read, stop, laid.stands, fun i c => laid.blank_iff (Nat.zero_le i),
      fun i t listed u listed' => laid.covers_unique listed listed', ?_, alone⟩
    intro t listed name named
    obtain ⟨x, stands⟩ := laid.stands t listed
    obtain ⟨rfl, word⟩ := Lexeme.of_name (stands.1.trans named)
    exact alone t listed x stands word
  · intro e failed
    obtain ⟨front, back, ws, split, place, spelled, stuck⟩ := tokens_stuck failed
    have chars : text.toList = front ++ back := split
    have place : e.position = front.length := place.symm.trans (Nat.zero_add _)
    rw [place, chars, List.take_left, List.drop_left]
    refine ⟨?_, ?_, stuck⟩
    · obtain ⟨c, more, rfl, -⟩ := stuck
      rw [← String.length_toList, chars]
      simp
    · obtain ⟨ts, cut, -⟩ := ofText_ok.mpr (String.toList_ofList (l := front) ▸ spelled)
      exact ⟨ts, cut⟩

theorem arrow_covered : ∃ ts e, Tokens.ofText "  (Foo -> Bar)" = .ok ts ∧
    ts.list.map (·.position) ++ [ts.stop] = [2, 3, 7, 10, 13, 14] ∧
    Alone "  (Foo -> Bar)" 3 6 ∧ Tokens.ofText "A <- B" = .error e ∧ e.position = 2 ∧
    Stuck ("A <- B".toList.drop 2) := by
  have cut : Tokens.ofText "  (Foo -> Bar)" = .ok ⟨[⟨.leftParen, 2⟩, ⟨.identifier "Foo", 3⟩,
      ⟨.operator (.connective .implies), 7⟩, ⟨.identifier "Bar", 10⟩, ⟨.rightParen, 13⟩], 14⟩ := by
    cbv
  have failed : Tokens.ofText "A <- B" = .error (.badCharacter '<' 2) := by cbv
  obtain ⟨-, -, -, -, -, alone, -⟩ := (tokens_cover "  (Foo -> Bar)").1 _ cut
  obtain ⟨-, -, stuck⟩ := (tokens_cover "A <- B").2 _ failed
  exact ⟨_, _, cut, rfl, alone ⟨.identifier "Foo", 3⟩ (by simp) "Foo" rfl, failed, rfl, stuck⟩

end Premise
