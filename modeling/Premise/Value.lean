import Premise.Decimal.Shortest
import Premise.Text.Quoted
/-!
Values as a scenario file, a settings table or a resolver may hold them: null, truth values, whole
and floating-point numbers, text, lists and mappings. Main definitions: `Value.isTrue`,
`Value.shown` (the quoted form that messages use) and `Value.text` (text stands for itself).
-/
namespace Premise

inductive Value where
  | null
  | bool (b : Bool)
  | int (n : Int)
  | float (x : Float)
  | str (s : String)
  | list (items : List Value)
  | map (entries : List (Value × Value))
  deriving Inhabited

namespace Value

def typeName : Value → String
  | null => "NoneType"
  | bool _ => "bool"
  | int _ => "int"
  | float _ => "float"
  | str _ => "str"
  | list _ => "list"
  | map _ => "dict"

def isTrue : Value → Bool
  | null => false
  | bool b => b
  | int n => n != 0
  | float x => x != 0
  | str s => s != ""
  | list items => !items.isEmpty
  | map entries => !entries.isEmpty

def texts (items : List String) : Value :=
  list (items.map str)

def record (entries : List (String × Value)) : Value :=
  map (entries.map fun e => (str e.1, e.2))

def textOrNull (text : Option String) : Value :=
  (text.map str).getD null

def index? : Value → Option Int
  | int n => some n
  | bool b => some (if b then 1 else 0)
  | _ => none

/-- The whole number that is left of a number without its fraction. A positive count is above a
number exactly if it is above this one. -/
def truncated? : Value → Option Int
  | float x => some (Decimal.truncated x)
  | v => v.index?

/-- The least whole number that is not below a number. A count reaches a number exactly if it
reaches this one. -/
def ceiling? : Value → Option Int
  | float x => some (Decimal.ceiling x)
  | v => v.index?

def isKey : Value → Bool
  | list _ | map _ => false
  | _ => true

/-- Whether two keys name the same entry: numbers do if they are equal, whatever their types. -/
def sameKey : Value → Value → Bool
  | null, null => true
  | str s, str t => s == t
  | float x, float y => x == y
  | float x, v | v, float x => v.index?.any fun n => Decimal.whole? x == some n
  | v, w => v.index?.any fun n => w.index? == some n

mutual

/-- Equality of values. The order of a mapping's entries does not matter. -/
def same : Value → Value → Bool
  | list items, list others => sameItems items others
  | map entries, map others =>
    entries.length == others.length && sameEntries entries others
  | v, w => v.sameKey w

def sameItems : List Value → List Value → Bool
  | [], [] => true
  | v :: rest, w :: others => v.same w && sameItems rest others
  | _, _ => false

def sameEntries : List (Value × Value) → List (Value × Value) → Bool
  | [], _ => true
  | (k, v) :: rest, others =>
    others.any (fun e => k.sameKey e.1 && v.same e.2) && sameEntries rest others

end

mutual

def anyInt (p : Int → Bool) : Value → Bool
  | int n => p n
  | list items => anyIntItem p items
  | map entries => anyIntEntry p entries
  | _ => false

def anyIntItem (p : Int → Bool) : List Value → Bool
  | [] => false
  | v :: rest => v.anyInt p || anyIntItem p rest

def anyIntEntry (p : Int → Bool) : List (Value × Value) → Bool
  | [] => false
  | (k, v) :: rest => k.anyInt p || v.anyInt p || anyIntEntry p rest

end

/-- The entry under a text key; null where there is none or the value is no mapping. -/
def get (v : Value) (key : String) : Value :=
  match v with
  | map entries => ((entries.find? fun e => e.1.sameKey (str key)).map (·.2)).getD null
  | _ => null

/-- Sets an entry: a key that is there keeps its place. -/
def put (entries : List (Value × Value)) (key value : Value) : List (Value × Value) :=
  if entries.any fun e => e.1.sameKey key then
    entries.map fun e => if e.1.sameKey key then (e.1, value) else e
  else entries ++ [(key, value)]

mutual

def shown : Value → String
  | null => "None"
  | bool true => "True"
  | bool false => "False"
  | int n => toString n
  | float x => Decimal.floatText x
  | str s => Text.quoted s
  | list items => "[" ++ shownItems items ++ "]"
  | map entries => "\x7b" ++ shownEntries entries ++ "\x7d"

def shownItems : List Value → String
  | [] => ""
  | [v] => v.shown
  | v :: rest => v.shown ++ ", " ++ shownItems rest

def shownEntries : List (Value × Value) → String
  | [] => ""
  | [(k, v)] => k.shown ++ ": " ++ v.shown
  | (k, v) :: rest => k.shown ++ ": " ++ v.shown ++ ", " ++ shownEntries rest

end

def text : Value → String
  | str s => s
  | v => v.shown

end Value

end Premise
