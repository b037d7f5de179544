import Premise.Decimal.Binary
/-!
The shortest decimal that reads back as a given binary floating-point number. Main definition:
`Shortest.ofFloat`, the coarsest power-of-ten grid with a point that rounds to the number, and on
that grid the point nearest to it.
-/
namespace Premise.Decimal

/-- Digits and the power of ten that multiplies them. -/
structure Shortest where
  digits : Nat
  exponent : Int

/-- The best point of the grid of spacing `10 ^ k` among those that round to `b`. Points and the
interval's ends are compared as quarters of `2 ^ b.exponent`, over a common denominator. -/
def Binary.onGrid? (b : Binary) (k : Int) : Option Nat :=
  let two := scale 2 (b.exponent - 2)
  let ten := scale 10 k
  let quarter := two.1 * ten.2
  let spacing := ten.1 * two.2
  let value := 4 * b.mantissa * quarter
  let low := (4 * b.mantissa - if b.lowEdge then 1 else 2) * quarter
  let high := (4 * b.mantissa + 2) * quarter
  let inside (point : Nat) : Bool :=
    if b.mantissa % 2 = 0 then low ≤ point && point ≤ high else low < point && point < high
  let below := value / spacing
  let above := below + 1
  let belowFits := below ≠ 0 && inside (below * spacing)
  let aboveFits := inside (above * spacing)
  let belowGap := value - below * spacing
  let aboveGap := above * spacing - value
  if belowFits && aboveFits then
    some (if belowGap < aboveGap || (belowGap = aboveGap && below % 2 = 0) then below else above)
  else if belowFits then some below
  else if aboveFits then some above
  else none

/-- Tries the grids from `10 ^ (n - 345)` downwards. -/
def Binary.coarsest (b : Binary) : Nat → Shortest
  | 0 => ⟨0, 0⟩
  | n + 1 =>
    let k : Int := (n : Int) - 345
    match b.onGrid? k with
    | some digits => ⟨digits, k⟩
    | none => b.coarsest n

/-- Every finite double but zero has a point on the grid of `10 ^ (-345)`, and none above
`10 ^ 309`. -/
def Shortest.ofFloat (x : Float) : Shortest :=
  let b := Binary.ofBits x.toBits
  if b.mantissa = 0 then ⟨0, 0⟩ else b.coarsest 656

/-- Positional notation while the leading digit stands between `10 ^ (-4)` and `10 ^ 15`, else one
digit before the point and an exponent of two digits or more; a whole number keeps `.0`. -/
def Shortest.text (s : Shortest) : String :=
  let digits := Nat.toDigits 10 s.digits
  let point : Int := digits.length + s.exponent
  if s.digits = 0 then "0.0"
  else if -3 ≤ point && point ≤ 16 then
    if point ≤ 0 then
      "0." ++ String.ofList (List.replicate (-point).toNat '0' ++ digits)
    else if digits.length ≤ point.toNat then
      String.ofList (digits ++ List.replicate (point.toNat - digits.length) '0') ++ ".0"
    else
      String.ofList (digits.take point.toNat) ++ "." ++ String.ofList (digits.drop point.toNat)
  else
    let e := point - 1
    let power := Nat.toDigits 10 e.natAbs
    let fraction := digits.drop 1
    String.ofList (digits.take 1) ++
      (if fraction.isEmpty then "" else "." ++ String.ofList fraction) ++
      (if e < 0 then "e-" else "e+") ++
      String.ofList (List.replicate (2 - power.length) '0' ++ power)

def floatText (x : Float) : String :=
  if x.isNaN then "nan"
  else
    let sign := if isMinus x then "-" else ""
    if x.isInf then sign ++ "inf" else sign ++ (Shortest.ofFloat x).text

/-- The double nearest to `digits * 10 ^ exponent`, negated on request. -/
def floatOf (negative : Bool) (digits : Nat) (exponent : Int) : Float :=
  let magnitude :=
    if exponent < 0 then Float.ofScientific digits true (-exponent).toNat
    else Float.ofScientific digits false exponent.toNat
  if negative then -magnitude else magnitude

end Premise.Decimal
