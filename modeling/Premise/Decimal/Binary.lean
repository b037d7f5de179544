/-!
Doubles taken apart into whole numbers, and the whole numbers beside a double. Main definitions:
`Binary.ofBits`, `whole?`, which is exact, and `truncated` and `ceiling`, which round. What is not
finite rounds like a magnitude above every finite one.
-/
namespace Premise.Decimal

/-- A finite double: magnitude `mantissa * 2 ^ exponent`. `lowEdge` holds where the gap to the
double below is half the gap to the one above. -/
structure Binary where
  mantissa : Nat
  exponent : Int
  lowEdge : Bool

def Binary.ofBits (bits : UInt64) : Binary :=
  let unit := Nat.pow 2 52
  let fraction := bits.toNat % unit
  let field := bits.toNat / unit % Nat.pow 2 11
  if field = 0 then ⟨fraction, -1074, false⟩
  else ⟨unit + fraction, (field : Int) - 1075, fraction = 0 && 1 < field⟩

/-- Numerator and denominator by which `base ^ e` multiplies. -/
def scale (base : Nat) (e : Int) : Nat × Nat :=
  if 0 ≤ e then (Nat.pow base e.toNat, 1) else (1, Nat.pow base (-e).toNat)

def Binary.wholePart (b : Binary) : Nat :=
  let two := scale 2 b.exponent
  b.mantissa * two.1 / two.2

def Binary.hasFraction (b : Binary) : Bool :=
  let two := scale 2 b.exponent
  b.mantissa * two.1 % two.2 != 0

/-! ### Whole numbers beside a double -/

/-- The sign bit, which a negative zero has too. -/
def isMinus (x : Float) : Bool :=
  0x8000000000000000 ≤ x.toBits

def truncated (x : Float) : Int :=
  let n : Int := (Binary.ofBits x.toBits).wholePart
  if isMinus x then -n else n

def ceiling (x : Float) : Int :=
  if (Binary.ofBits x.toBits).hasFraction && !isMinus x then truncated x + 1 else truncated x

def whole? (x : Float) : Option Int :=
  if x.isFinite && !(Binary.ofBits x.toBits).hasFraction then some (truncated x) else none

end Premise.Decimal
