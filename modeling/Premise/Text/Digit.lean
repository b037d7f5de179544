import Premise.Text.Blank
/-!
Decimal digits of every script, and whole numbers written with them. Main definition: `integer?`,
which accepts one sign and single underscores between digits, up to a number of digits.
-/
namespace Premise.Text

/-- The zeros of the Unicode 14 decimal digit runs; each is followed by its one to nine. -/
def digitZeros : List Nat := [
  0x30, 0x660, 0x6f0, 0x7c0, 0x966, 0x9e6, 0xa66, 0xae6, 0xb66, 0xbe6, 0xc66, 0xce6, 0xd66,
  0xde6, 0xe50, 0xed0, 0xf20, 0x1040, 0x1090, 0x17e0, 0x1810, 0x1946, 0x19d0, 0x1a80, 0x1a90,
  0x1b50, 0x1bb0, 0x1c40, 0x1c50, 0xa620, 0xa8d0, 0xa900, 0xa9d0, 0xa9f0, 0xaa50, 0xabf0,
  0xff10, 0x104a0, 0x10d30, 0x11066, 0x110f0, 0x11136, 0x111d0, 0x112f0, 0x11450, 0x114d0,
  0x11650, 0x116c0, 0x11730, 0x118e0, 0x11950, 0x11c50, 0x11d50, 0x11da0, 0x16a60, 0x16ac0,
  0x16b50, 0x1d7ce, 0x1d7d8, 0x1d7e2, 0x1d7ec, 0x1d7f6, 0x1e140, 0x1e2f0, 0x1e950, 0x1fbf0]

def digit? (c : Char) : Option Nat :=
  (digitZeros.find? fun z => z ≤ c.toNat && c.toNat ≤ z + 9).map (c.toNat - ·)

/-- Reads on after a digit: more digits, each pair joined directly or by one underscore. -/
def digitsFrom? (value : Nat) : List Char → Option Nat
  | [] => some value
  | '_' :: c :: rest => (digit? c).bind fun d => digitsFrom? (10 * value + d) rest
  | c :: rest => (digit? c).bind fun d => digitsFrom? (10 * value + d) rest

def natural? : List Char → Option Nat
  | [] => none
  | c :: rest => (digit? c).bind fun d => digitsFrom? d rest

/-- Whole numbers have no more digits than these, leading zeros included. -/
def maxDigits : Nat := 4300

def digitCount (cs : List Char) : Nat :=
  cs.countP fun c => (digit? c).isSome

/-- A whole number with at most one sign in front and blanks around it; the ASCII separators do not
count as blanks here. -/
def integer? (s : String) : Option Int :=
  let cs := trimWhere (fun c => isBlank c && !isSeparator c) s.toList
  if maxDigits < digitCount cs then none
  else
    match cs with
    | '-' :: rest => (natural? rest).map fun n => -(n : Int)
    | '+' :: rest => (natural? rest).map fun n => (n : Int)
    | rest => (natural? rest).map fun n => (n : Int)

end Premise.Text
