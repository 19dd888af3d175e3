/-
  DocumentDb — decimal text of floats.

  * `Binary64.shortest` is the shortest decimal that reads back as a given positive float: the point
    `digits · 10^exponent` of the coarsest decimal grid that has a point among the reals rounding to
    the float.  Of two such points the nearer is taken, and of two equally near the larger.
  * `Decimal.positional` writes a decimal without an exponent part, and without a fraction
    when it is whole.
  * `Binary64.text` is the text of a float in messages: `1`, `-0`, `0.1`, `NaN`, `inf`, `-inf`.
-/
import DocumentDb.Number.Binary64

namespace DocumentDb

/-- The decimal number `digits · 10^exponent`. -/
structure Decimal where
  digits : Nat
  exponent : Int
  deriving DecidableEq, Repr

namespace Decimal

/-- `n` in at least `width` decimal digits. -/
def padded (width n : Nat) : String :=
  "".pushn '0' (width - n.repr.length) ++ n.repr

/-- A decimal in positional notation. -/
def positional (d : Decimal) : String :=
  if 0 ≤ d.exponent then (d.digits * Nat.pow 10 d.exponent.toNat).repr
  else
    let places := (-d.exponent).toNat
    (d.digits / Nat.pow 10 places).repr ++ "." ++ padded places (d.digits % Nat.pow 10 places)

end Decimal

/-! ## The reals that round to a float -/

/-- A float and the ends of the interval of reals that round to it, in units of `2^-1076`. -/
structure RoundingInterval where
  low : Nat
  value : Nat
  high : Nat
  /-- Whether the ends themselves round to the float. -/
  closed : Bool

/-- The interval reaches half way to both neighbours; below a power of two the neighbour is twice as
    near.  Its ends belong to it when the significand is even. -/
def Binary64.roundingInterval (x : Binary64) : RoundingInterval :=
  let step := Nat.pow 2 x.scale
  let value := 4 * x.magnitude
  { low := value - if x.fractionField = 0 ∧ 1 < x.exponentField then step else 2 * step
    value := value
    high := value + 2 * step
    closed := x.significand % 2 == 0 }

namespace RoundingInterval

/-- Whether `n / d` lies in the interval. -/
def contains (r : RoundingInterval) (n d : Nat) : Bool :=
  if r.closed then r.low * d ≤ n && n ≤ r.high * d else r.low * d < n && n < r.high * d

/-- The point of the grid of multiples of `10^exponent` that stands for the interval, if one of the
    two grid points around its value lies in it. -/
def gridPoint? (r : RoundingInterval) (exponent : Int) : Option Nat :=
  let num := Nat.pow 10 exponent.toNat * Nat.pow 2 1076
  let den := Nat.pow 10 (-exponent).toNat
  let below := r.value * den / num
  let fits := fun digits => r.contains (digits * num) den
  if fits below then
    if fits (below + 1) && (below + 1) * num + below * num ≤ 2 * (r.value * den) then
      some (below + 1)
    else some below
  else if fits (below + 1) then some (below + 1) else none

/-- The representative on the coarsest of the grids `10^(steps - 324), …, 10^-324`.  The last is
    finer than any interval is wide. -/
def coarsest (r : RoundingInterval) : Nat → Decimal
  | 0 => ⟨(r.gridPoint? (-324)).getD 0, -324⟩
  | steps + 1 =>
    let exponent : Int := (steps + 1 : Nat) - 324
    match r.gridPoint? exponent with
    | some digits => ⟨digits, exponent⟩
    | none => r.coarsest steps

end RoundingInterval

namespace Binary64

/-- The shortest decimal that reads back as the absolute value of a finite float other than zero. -/
def shortest (x : Binary64) : Decimal := x.roundingInterval.coarsest (309 + 324)

/-- The text of a float: its sign and the shortest decimal that reads back. -/
def text (x : Binary64) : String :=
  if x.isNaN then "NaN"
  else
    let body :=
      if x.isInfinite then "inf"
      else if x.magnitude = 0 then "0"
      else x.shortest.positional
    if x.isNegative then "-" ++ body else body

end Binary64

end DocumentDb
