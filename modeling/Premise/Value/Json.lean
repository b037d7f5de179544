import Premise.Value
/-!
Values as JSON text, on one line or indented by two spaces a level. Text beyond ASCII stands for
itself; keys that are not text are written as the text of their JSON form.
-/
namespace Premise.Value

def jsonChar (c : Char) : List Char :=
  if c = '"' ∨ c = '\\' then ['\\', c]
  else if c = '\n' then ['\\', 'n']
  else if c = '\r' then ['\\', 'r']
  else if c = '\t' then ['\\', 't']
  else if c = '\x08' then ['\\', 'b']
  else if c = '\x0c' then ['\\', 'f']
  else if c.toNat < 0x20 then '\\' :: 'u' :: Text.hexDigits 4 c.toNat
  else [c]

def jsonText (s : String) : String :=
  String.ofList ('"' :: s.toList.flatMap jsonChar ++ ['"'])

def jsonFloat (x : Float) : String :=
  if x.isNaN then "NaN"
  else if x.isInf then if x < 0 then "-Infinity" else "Infinity"
  else Decimal.floatText x

/-- A key's text. -/
def jsonKey : Value → String
  | null => "null"
  | bool true => "true"
  | bool false => "false"
  | float x => jsonFloat x
  | v => v.text

/-- How entries are set apart: on one line, or on lines of their own at a depth. -/
inductive Layout where
  | line
  | block (depth : Nat)

namespace Layout

def inner : Layout → Layout
  | line => line
  | block depth => block (depth + 1)

/-- What stands before an entry, or before the closing bracket. -/
def lead : Layout → String
  | line => ""
  | block depth => "\n" ++ String.ofList (List.replicate (2 * depth) ' ')

def colon : Layout → String
  | line => ":"
  | block _ => ": "

end Layout

mutual

def jsonWith (layout : Layout) : Value → String
  | null => "null"
  | bool true => "true"
  | bool false => "false"
  | int n => toString n
  | float x => jsonFloat x
  | str s => jsonText s
  | list [] => "[]"
  | list (v :: rest) =>
    "[" ++ layout.inner.lead ++ v.jsonWith layout.inner ++ jsonItems layout.inner rest ++
      layout.lead ++ "]"
  | map [] => "\x7b\x7d"
  | map ((k, v) :: rest) =>
    "\x7b" ++ layout.inner.lead ++ jsonText k.jsonKey ++ layout.colon ++ v.jsonWith layout.inner ++
      jsonEntries layout.inner rest ++ layout.lead ++ "\x7d"

/-- The items after the first. -/
def jsonItems (layout : Layout) : List Value → String
  | [] => ""
  | v :: rest => "," ++ layout.lead ++ v.jsonWith layout ++ jsonItems layout rest

def jsonEntries (layout : Layout) : List (Value × Value) → String
  | [] => ""
  | (k, v) :: rest =>
    "," ++ layout.lead ++ jsonText k.jsonKey ++ layout.colon ++ v.jsonWith layout ++
      jsonEntries layout rest

end

/-- JSON on one line. -/
def json (v : Value) : String :=
  v.jsonWith .line

/-- JSON on many lines. -/
def jsonIndented (v : Value) : String :=
  v.jsonWith (.block 0)

end Premise.Value
