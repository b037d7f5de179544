import Premise.Yaml.Scalar
/-!
Reading one YAML document: block mappings and sequences, flow collections, quoted scalars, plain
scalars of one line, and comments. Main definition: `Yaml.read?`, which is none where the text is
no document of this kind. Block structure is read line by line, by indentation; flow collections
and quoted scalars may run over lines.
-/
namespace Premise.Yaml

/-! ### Characters -/

def isBreak (c : Char) : Bool :=
  c == '\n' || c == '\x85' || c == '\u2028' || c == '\u2029'

def isSpace (c : Char) : Bool :=
  c == ' ' || c == '\t'

def endsWord : List Char → Bool
  | [] => true
  | c :: _ => isSpace c || isBreak c

def isAllowed (c : Char) : Bool :=
  let n := c.toNat
  n == 9 || n == 10 || n == 13 || (0x20 ≤ n && n ≤ 0x7e) || n == 0x85 ||
    (0xa0 ≤ n && n ≤ 0xfffd) || 0x10000 ≤ n

def isFlowMark (c : Char) : Bool :=
  c == ',' || c == '[' || c == ']' || c == '{' || c == '}'

def startsPlain (flow : Bool) : List Char → Bool
  | [] => false
  | c :: rest =>
    if c == '-' || ((c == '?' || c == ':') && !flow) then !endsWord rest
    else !(isSpace c || isBreak c || "-?:,[]\x7b\x7d#&*!|>'\"%@\x60".toList.contains c)

/-! ### Quoted scalars -/

/-- Line breaks inside quotes: blanks around them go, one break is a space, and of several the
first goes. -/
def foldBreak (before : List Char) (cs : List Char) : List Char × List Char :=
  let gap := cs.takeWhile fun c => isSpace c || isBreak c
  let breaks := (gap.filter isBreak).length
  let filled := if breaks ≤ 1 then [' '] else List.replicate (breaks - 1) '\n'
  (filled ++ before.dropWhile isSpace, cs.dropWhile fun c => isSpace c || isBreak c)

def escapes : List (Char × Char) :=
  [('0', '\x00'), ('a', '\x07'), ('b', '\x08'), ('t', '\t'), ('\t', '\t'), ('n', '\n'),
   ('v', '\x0b'), ('f', '\x0c'), ('r', '\r'), ('e', '\x1b'), (' ', ' '), ('"', '"'), ('\\', '\\'),
   ('/', '/'), ('N', '\x85'), ('_', '\xa0'), ('L', '\u2028'), ('P', '\u2029')]

/-- How many digits follow the letter of a character given by number. -/
def numberWidth? (c : Char) : Option Nat :=
  if c = 'x' then some 2 else if c = 'u' then some 4 else if c = 'U' then some 8 else none

def escape? : List Char → Option (Char × List Char)
  | [] => none
  | c :: rest =>
    match numberWidth? c with
    | some width =>
      let ds := rest.take width
      if ds.length = width then (digits? 16 ds).map fun n => (Char.ofNat n, rest.drop width)
      else none
    | none => (escapes.lookup c).map fun d => (d, rest)

/-- A scalar in double quotes, from behind the first; `read` has what was read, latest first. -/
def doubleQuoted (fuel : Nat) (read cs : List Char) : Option (String × List Char) :=
  match fuel, cs with
  | 0, _ | _, [] => none
  | _, '"' :: rest => some (String.ofList read.reverse, rest)
  | fuel + 1, '\\' :: rest =>
    if rest.head?.any isBreak then
      doubleQuoted fuel read ((rest.drop 1).dropWhile isSpace)
    else (escape? rest).bind fun e => doubleQuoted fuel (e.1 :: read) e.2
  | fuel + 1, c :: rest =>
    if isBreak c then
      let folded := foldBreak read (c :: rest)
      doubleQuoted fuel folded.1 folded.2
    else doubleQuoted fuel (c :: read) rest

/-- A scalar in single quotes, where a quote is written twice. -/
def singleQuoted (fuel : Nat) (read cs : List Char) : Option (String × List Char) :=
  match fuel, cs with
  | 0, _ | _, [] => none
  | fuel + 1, '\'' :: '\'' :: rest => singleQuoted fuel ('\'' :: read) rest
  | _, '\'' :: rest => some (String.ofList read.reverse, rest)
  | fuel + 1, c :: rest =>
    if isBreak c then
      let folded := foldBreak read (c :: rest)
      singleQuoted fuel folded.1 folded.2
    else singleQuoted fuel (c :: read) rest

def quotedScalar (cs : List Char) : Option (String × List Char) :=
  match cs with
  | '"' :: rest => doubleQuoted cs.length [] rest
  | '\'' :: rest => singleQuoted cs.length [] rest
  | _ => none

def isQuote (c : Char) : Bool :=
  c == '"' || c == '\''

/-! ### Flow collections -/

def skipFlow : Bool → List Char → List Char
  | _, [] => []
  | inComment, c :: rest =>
    if isBreak c then skipFlow false rest
    else if inComment || c == '#' then skipFlow true rest
    else if c == ' ' then skipFlow false rest
    else c :: rest

def plainFlow : List Char → List Char × List Char
  | [] => ([], [])
  | c :: rest =>
    let endsKey := c == ':' && (endsWord rest || rest.head?.any isFlowMark)
    let startsComment := isSpace c && rest.head? == some '#'
    if isBreak c || isFlowMark c || c == '?' || endsKey || startsComment then ([], c :: rest)
    else
      let more := plainFlow rest
      (c :: more.1, more.2)

def plainValue? (cs : List Char) : Option Value :=
  if cs.contains '\t' then none else some (resolve (cs.reverse.dropWhile (· == ' ')).reverse)

/-- A key and its colon stand on one line, the colon at most this far behind the key's first
character. -/
def maxKeyLength : Nat := 1024

/-- Whether what stands between the beginning of a key and its colon is a key; `behind` is what
follows the colon. -/
def keyEnds (cs behind : List Char) : Bool :=
  let text := cs.take (cs.length - behind.length - 1)
  text.length ≤ maxKeyLength && !text.any isBreak

def isScalar : Value → Bool
  | .list _ | .map _ => false
  | _ => true

mutual

def flowNode (fuel : Nat) (cs : List Char) : Option (Value × List Char) :=
  match fuel, cs with
  | 0, _ => none
  | fuel + 1, '[' :: rest => flowItems fuel [] (skipFlow false rest)
  | fuel + 1, '{' :: rest => flowEntries fuel [] (skipFlow false rest)
  | _, cs =>
    if cs.head?.any isQuote then (quotedScalar cs).map fun s => (.str s.1, s.2)
    else if startsPlain true cs then
      let plain := plainFlow cs
      (plainValue? plain.1).map fun v => (v, plain.2)
    else none

/-- A node and, behind a colon, the value it is the key of. -/
def flowPair (fuel : Nat) (cs : List Char) : Option (Value × Option Value × List Char) :=
  match fuel with
  | 0 => none
  | fuel + 1 =>
    match flowNode fuel cs with
    | none => none
    | some (key, rest) =>
      match skipFlow false rest with
      | ':' :: more =>
        match skipFlow false more with
        | c :: behind =>
          if !isScalar key || !keyEnds cs more then none
          else if c == ',' || c == ']' || c == '}' then some (key, some .null, c :: behind)
          else (flowNode fuel (c :: behind)).map fun v => (key, some v.1, skipFlow false v.2)
        | [] => none
      | behind => some (key, none, behind)

/-- The items of a flow sequence, from behind its bracket; one pair alone is a mapping. -/
def flowItems (fuel : Nat) (items : List Value) (cs : List Char) :
    Option (Value × List Char) :=
  match fuel, cs with
  | 0, _ | _, [] => none
  | _, ']' :: rest => some (.list items.reverse, rest)
  | fuel + 1, cs =>
    match flowPair fuel cs with
    | none => none
    | some (key, value, rest) =>
      let item := match value with
        | none => key
        | some v => .map [(key, v)]
      match rest with
      | ',' :: more => flowItems fuel (item :: items) (skipFlow false more)
      | ']' :: more => some (.list (item :: items).reverse, more)
      | _ => none

/-- The entries of a flow mapping, from behind its brace; a key alone has the value null. -/
def flowEntries (fuel : Nat) (entries : List (Value × Value)) (cs : List Char) :
    Option (Value × List Char) :=
  match fuel, cs with
  | 0, _ | _, [] => none
  | _, '}' :: rest => some (.map entries, rest)
  | fuel + 1, cs =>
    match flowPair fuel cs with
    | none => none
    | some (key, value, rest) =>
      let entries := Value.put entries key (value.getD .null)
      if !isScalar key then none
      else
        match rest with
        | ',' :: more => flowEntries fuel entries (skipFlow false more)
        | '}' :: more => some (.map entries, more)
        | _ => none

end

/-! ### Lines -/

abbrev Line := List Char

def indent (l : Line) : Nat :=
  (l.takeWhile (· == ' ')).length

def content (l : Line) : List Char :=
  l.dropWhile (· == ' ')

def isVoid (cs : List Char) : Bool :=
  match cs.dropWhile (· == ' ') with
  | [] => true
  | c :: _ => c == '#'

def skipVoid (lines : List Line) : List Line :=
  lines.dropWhile isVoid

def isDash : List Char → Bool
  | '-' :: rest => endsWord rest
  | _ => false

def plainBlock : List Char → List Char × List Char
  | [] => ([], [])
  | c :: rest =>
    let endsKey := c == ':' && endsWord rest
    let startsComment := isSpace c && rest.head? == some '#'
    if endsKey || startsComment then ([], c :: rest)
    else
      let more := plainBlock rest
      (c :: more.1, more.2)

def key? (cs : List Char) : Option (Value × List Char) :=
  if cs.head?.any isQuote then
    match quotedScalar cs with
    | some (s, rest) =>
      match rest.dropWhile (· == ' ') with
      | ':' :: more => if endsWord more && keyEnds cs more then some (.str s, more) else none
      | _ => none
    | none => none
  else if startsPlain false cs then
    match plainBlock cs with
    | (word, ':' :: more) =>
      if keyEnds cs more then (plainValue? word).map fun k => (k, more) else none
    | _ => none
  else none

def joinLines (first : List Char) (lines : List Line) : List Char :=
  first ++ lines.flatMap ('\n' :: ·)

def splitLines (cs : List Char) : List Line :=
  cs.foldr (fun c lines =>
    match lines with
    | [] => if isBreak c then [[], []] else [[c]]
    | l :: rest => if isBreak c then [] :: l :: rest else (c :: l) :: rest) [[]]

/-- A value on the line of its key or dash, or one that begins there. -/
def inlineValue (cs : List Char) (lines : List Line) : Option (Value × List Line) :=
  let finish (read : Option (Value × List Char)) : Option (Value × List Line) :=
    match read with
    | none => none
    | some (v, rest) =>
      match splitLines rest with
      | [] => some (v, [])
      | l :: more => if isVoid l then some (v, more) else none
  let whole := joinLines cs lines
  match cs with
  | [] => none
  | c :: _ =>
    if c == '[' || c == '{' then finish (flowNode (2 * whole.length) whole)
    else if isQuote c then finish ((quotedScalar whole).map fun s => (.str s.1, s.2))
    else if isDash cs || !startsPlain false cs then none
    else
      match plainBlock cs with
      | (word, rest) =>
        if isVoid rest then (plainValue? word).map fun v => (v, lines) else none

/-! ### Blocks -/

mutual

/-- The node that stands at an indentation of `least` or deeper; null if none does. -/
def blockNode (fuel : Nat) (least : Nat) (lines : List Line) : Option (Value × List Line) :=
  match fuel, skipVoid lines with
  | 0, _ => none
  | _, [] => some (.null, [])
  | fuel + 1, line :: rest =>
    if indent line < least then some (.null, line :: rest)
    else if isDash (content line) then blockItems fuel (indent line) [] (line :: rest)
    else if (key? (content line)).isSome then blockEntries fuel (indent line) [] (line :: rest)
    else inlineValue (content line) rest

/-- The items whose dashes stand at one indentation. What follows a dash is read as if it stood
alone on its line. -/
def blockItems (fuel : Nat) (column : Nat) (items : List Value) (lines : List Line) :
    Option (Value × List Line) :=
  match fuel, skipVoid lines with
  | 0, _ => none
  | _, [] => some (.list items.reverse, [])
  | fuel + 1, line :: rest =>
    if indent line = column ∧ isDash (content line) then
      let behind := (content line).drop 1
      let body :=
        if isVoid behind then rest
        else (List.replicate (column + 1) ' ' ++ behind) :: rest
      match blockNode fuel (column + 1) body with
      | none => none
      | some (v, rest) => blockItems fuel column (v :: items) rest
    else if column < indent line then none
    else some (.list items.reverse, line :: rest)

/-- The entries whose keys stand at one indentation. Dashes may stand under their key. -/
def blockEntries (fuel : Nat) (column : Nat) (entries : List (Value × Value))
    (lines : List Line) : Option (Value × List Line) :=
  match fuel, skipVoid lines with
  | 0, _ => none
  | _, [] => some (.map entries, [])
  | fuel + 1, line :: rest =>
    if indent line < column then some (.map entries, line :: rest)
    else if column < indent line then none
    else
      match key? (content line) with
      | none => none
      | some (key, behind) =>
        let value :=
          if isVoid behind then
            match skipVoid rest with
            | next :: more =>
              if indent next = column ∧ isDash (content next) then
                blockItems fuel column [] (next :: more)
              else blockNode fuel (column + 1) (next :: more)
            | [] => some (.null, [])
          else inlineValue (behind.dropWhile (· == ' ')) rest
        match value with
        | none => none
        | some (v, rest) => blockEntries fuel column (Value.put entries key v) rest

end

/-! ### Documents -/

def startsWith (mark : String) (l : Line) : Bool :=
  mark.toList.isPrefixOf l && endsWord (l.drop mark.length)

def isStart (l : Line) : Bool :=
  startsWith "---" l

def isEnd (l : Line) : Bool :=
  startsWith "..." l

/-- The lines before the first end mark, if there is nothing but end marks from there on. -/
def untilEnd? (lines : List Line) : Option (List Line) :=
  let inside := lines.takeWhile (!isEnd ·)
  if (lines.drop inside.length).all fun l => isEnd l || isVoid l then some inside else none

def marked? (fuel : Nat) (behind : List Char) (lines : List Line) : Option (Value × List Line) :=
  if isVoid behind then blockNode fuel 0 lines
  else inlineValue (behind.dropWhile (· == ' ')) lines

/-- The one document in the lines, behind a start mark if it has one. Without one it may not be
empty before an end mark. -/
def document? (fuel : Nat) (lines : List Line) : Option (Value × List Line) := do
  let body ← untilEnd? (skipVoid lines)
  match body with
  | [] => if (skipVoid lines).isEmpty then some (.null, []) else none
  | l :: rest =>
    if rest.any isStart then none
    else if isStart l then marked? fuel (l.drop 3) rest
    else blockNode fuel 0 (l :: rest)

def withoutMark : List Char → List Char
  | '\ufeff' :: rest => rest
  | cs => cs

def read? (text : String) : Option Value :=
  let cs := withoutMark text.toList
  if !cs.all isAllowed then none
  else
    match document? (2 * cs.length + 4) (splitLines cs) with
    | some (v, rest) => if (skipVoid rest).isEmpty then some v else none
    | none => none

end Premise.Yaml
