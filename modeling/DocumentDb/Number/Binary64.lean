/-
  DocumentDb — 64-bit binary floating point numbers, held as their bits.

  * `Binary64` is the bit pattern: one sign bit, eleven exponent bits, fifty-two fraction bits.
  * `Binary64.units` is the exact value in units of `2^-1074`, the spacing of the smallest floats,
    so that every finite float is an integer and comparing floats is comparing integers.  An
    infinity reads as `±2^1024`, one binade beyond the largest finite float.
  * `Binary64.compare` orders floats by their values, with not-a-number at the end.
  * `Binary64.integer?` is the integer a float denotes, if it denotes one; `Binary64.toInt64` drops
    the fraction of any float.
  * `Binary64.ofInt` rounds an integer to the nearest float, ties to the even fraction.
  * `Binary64.ofSingle` widens the bits of a 32-bit float without loss.
-/

namespace DocumentDb

/-- A 64-bit binary float, given by its bits. -/
structure Binary64 where
  bits : UInt64
  deriving DecidableEq, Inhabited

namespace Binary64

/-! ## The three fields -/

/-- The sign bit: set for negative numbers and for `-0`. -/
def isNegative (x : Binary64) : Bool := Nat.pow 2 63 ≤ x.bits.toNat

/-- The eleven exponent bits. -/
def exponentField (x : Binary64) : Nat := x.bits.toNat / Nat.pow 2 52 % Nat.pow 2 11

/-- The fifty-two fraction bits. -/
def fractionField (x : Binary64) : Nat := x.bits.toNat % Nat.pow 2 52

/-- The float with the given fields. -/
def ofFields (negative : Bool) (exponent fraction : Nat) : Binary64 :=
  ⟨UInt64.ofNat ((if negative then Nat.pow 2 63 else 0) + exponent * Nat.pow 2 52 + fraction)⟩

/-- The quiet not-a-number. -/
def nan : Binary64 := ⟨0x7ff8000000000000⟩

/-- A number with full exponent and a fraction is not a number. -/
def isNaN (x : Binary64) : Bool := x.exponentField == 2047 && x.fractionField != 0

/-- A number with full exponent and no fraction is infinite. -/
def isInfinite (x : Binary64) : Bool := x.exponentField == 2047 && x.fractionField == 0

/-! ## The value -/

/-- The integer significand: the fraction with its leading bit, which subnormal numbers lack. -/
def significand (x : Binary64) : Nat :=
  if x.exponentField = 0 then x.fractionField else Nat.pow 2 52 + x.fractionField

/-- The power of two, in units of `2^-1074`, by which the significand counts. -/
def scale (x : Binary64) : Nat := x.exponentField - 1

/-- The absolute value in units of `2^-1074`. -/
def magnitude (x : Binary64) : Nat := x.significand * Nat.pow 2 x.scale

/-- The value in units of `2^-1074`. -/
def units (x : Binary64) : Int := if x.isNegative then -(x.magnitude : Int) else x.magnitude

/-- How many units of `2^-1074` make one. -/
def unitsPerOne : Nat := Nat.pow 2 1074

/-- The integer that a finite float denotes. -/
def integer? (x : Binary64) : Option Int :=
  if x.exponentField = 2047 then none
  else if x.units % unitsPerOne = 0 then some (x.units / unitsPerOne) else none

/-- The integer part of a finite float: its value without the fraction. -/
def whole (x : Binary64) : Int := x.units.tdiv unitsPerOne

/-- The integer part as a 64-bit integer, the nearest one where it lies beyond them. -/
def toInt64 (x : Binary64) : Int64 := .ofIntClamp x.whole

/-- The first place after the 64-bit integers, in units of `2^-1074`. -/
def int64Bound : Int := Int.pow 2 63 * unitsPerOne

/-- Floats in the order of their values, with not-a-number at the end. -/
def compare (x y : Binary64) : Ordering :=
  match x.isNaN, y.isNaN with
  | true, true => .eq
  | true, false => .gt
  | false, true => .lt
  | false, false => Ord.compare x.units y.units

/-! ## Rounding and widening -/

/-- `n / 2^k` rounded to the nearest integer, ties to even. -/
def roundShift (n k : Nat) : Nat :=
  let whole := n / Nat.pow 2 k
  let rest := n % Nat.pow 2 k
  if 2 * rest < Nat.pow 2 k then whole
  else if Nat.pow 2 k < 2 * rest then whole + 1
  else whole + whole % 2

/-- The float nearest to a natural number below `2^1024`, with the given sign. -/
def ofNat (negative : Bool) (n : Nat) : Binary64 :=
  if n = 0 then ofFields negative 0 0
  else
    let top := n.log2
    -- a significand that rounds up to `2^53` carries into the exponent field by itself
    let significand := if top ≤ 52 then n * Nat.pow 2 (52 - top) else roundShift n (top - 52)
    ofFields negative (top + 1022) significand

/-- The float nearest to an integer. -/
def ofInt (n : Int) : Binary64 := ofNat (n < 0) n.natAbs

/-- The float equal to the 32-bit float with the given bits. -/
def ofSingle (bits : UInt32) : Binary64 :=
  let negative := Nat.pow 2 31 ≤ bits.toNat
  let exponent := bits.toNat / Nat.pow 2 23 % Nat.pow 2 8
  let fraction := bits.toNat % Nat.pow 2 23
  if exponent = 255 then
    if fraction = 0 then ofFields negative 2047 0 else nan
  else if exponent = 0 then
    if fraction = 0 then ofFields negative 0 0
    else
      let top := fraction.log2
      ofFields negative (top + 874) ((fraction - Nat.pow 2 top) * Nat.pow 2 (52 - top))
  else ofFields negative (exponent + 896) (fraction * Nat.pow 2 29)

end Binary64

end DocumentDb
