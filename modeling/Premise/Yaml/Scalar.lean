import Premise.Value
/-!
Plain YAML scalars. A word is null, a truth value, a whole number or a floating-point number if it
has the form of one by the YAML 1.1 types, and text otherwise. Main definition: `Yaml.resolve`.
-/
namespace Premise.Yaml

def nullWords : List String := ["", "~", "null", "Null", "NULL"]

def trueWords : List String :=
  ["yes", "Yes", "YES", "true", "True", "TRUE", "on", "On", "ON"]

def falseWords : List String :=
  ["no", "No", "NO", "false", "False", "FALSE", "off", "Off", "OFF"]

/-- The value of a digit up to fifteen. -/
def digitValue (c : Char) : Option Nat :=
  if '0' ≤ c && c ≤ '9' then some (c.toNat - 48)
  else if 'a' ≤ c && c ≤ 'f' then some (c.toNat - 87)
  else if 'A' ≤ c && c ≤ 'F' then some (c.toNat - 55)
  else none

/-- Digits of a base, between which underscores do not count; at least one must be there. -/
def digits? (base : Nat) (cs : List Char) : Option Nat :=
  let ds := cs.filter (· ≠ '_')
  if ds.isEmpty then none
  else ds.foldlM (fun n c => do
    let d ← digitValue c
    if d < base then some (base * n + d) else none) 0

/-- A whole number without its sign: `0b` and `0x` name their base, and a leading zero means base
eight. -/
def unsigned? : List Char → Option Nat
  | '0' :: 'b' :: rest => digits? 2 rest
  | '0' :: 'x' :: rest => digits? 16 rest
  | '0' :: rest => digits? 8 ('0' :: rest)
  | '_' :: _ => none
  | cs => digits? 10 cs

def splitSign : List Char → Bool × List Char
  | '-' :: rest => (true, rest)
  | '+' :: rest => (false, rest)
  | cs => (false, cs)

def integer? (cs : List Char) : Option Int :=
  let (negative, rest) := splitSign cs
  (unsigned? rest).map fun n => if negative then -(n : Int) else n

/-- The exponent of a floating-point number, which has to have a sign; nothing stands for zero. -/
def exponent? : List Char → Option Int
  | [] => some 0
  | e :: sign :: rest =>
    if (e = 'e' ∨ e = 'E') ∧ (sign = '-' ∨ sign = '+') ∧ rest ≠ [] ∧ rest.all Char.isDigit then
      (digits? 10 rest).map fun n => if sign = '-' then -(n : Int) else n
    else none
  | _ => none

def isFloatDigit (c : Char) : Bool :=
  c.isDigit || c == '_'

/-- A floating-point number has a point; one that begins with its point has no sign. -/
def float? (cs : List Char) : Option Float :=
  let (negative, rest) := splitSign cs
  let whole := rest.takeWhile isFloatDigit
  match rest.dropWhile isFloatDigit with
  | '.' :: more =>
    let fraction := more.takeWhile isFloatDigit
    let started := match whole, fraction with
      | c :: _, _ => c.isDigit
      | [], c :: _ => c.isDigit && rest.length == cs.length
      | [], [] => false
    if started then do
      let e ← exponent? (more.dropWhile isFloatDigit)
      let ds := (whole ++ fraction).filter (· ≠ '_')
      let places := (fraction.filter (· ≠ '_')).length
      let n ← digits? 10 ds
      return Decimal.floatOf negative n (e - places)
    else none
  | _ => none

/-- The floating-point values that are not finite. -/
def specialFloat? (word : String) : Option Float :=
  if [".inf", ".Inf", ".INF", "+.inf", "+.Inf", "+.INF"].contains word then some (1 / 0)
  else if ["-.inf", "-.Inf", "-.INF"].contains word then some (-1 / 0)
  else if [".nan", ".NaN", ".NAN"].contains word then some (0 / 0)
  else none

def resolve (cs : List Char) : Value :=
  let word := String.ofList cs
  if nullWords.contains word then .null
  else if trueWords.contains word then .bool true
  else if falseWords.contains word then .bool false
  else
    match integer? cs with
    | some n => .int n
    | none =>
      match (float? cs).or (specialFloat? word) with
      | some x => .float x
      | none => .str word

end Premise.Yaml
