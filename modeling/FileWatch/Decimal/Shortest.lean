import FileWatch.Decimal.Binary64

/-!
# The shortest decimal that reads back

Of all decimals that round to a given number of the format, the one with the fewest digits is
shown, and of two the nearer; of two equally near the greater.  The decimals that round to
`m * 2 ^ q` fill an interval around it: halfway to each neighbour, where the neighbour below is
twice as near when `m` is the least mantissa of its grid.  The ends belong to it when `m` is even.

`shortest` walks the decimal grids from coarse to fine and stops at the first that has a point in
the interval.  A grid has a point there exactly if one of the two grid points around the number is
there, so only those two are tried.
-/

namespace FileWatch.Binary64

/-- An interval of positive rationals over one denominator, around a number. -/
structure Interval where
  low : Nat
  value : Nat
  high : Nat
  den : Nat
  /-- Whether the ends belong to the interval. -/
  closed : Bool

/-- The decimals that round to `m * 2 ^ q`, in quarters of the grid's step. -/
def roundingInterval (m : Nat) (q : Int) : Interval :=
  let below := if m = Nat.pow 2 52 ∧ minExponent < q then 1 else 2
  let p := q - 2
  let up := if 0 ≤ p then Nat.pow 2 p.toNat else 1
  { low := (4 * m - below) * up
    value := 4 * m * up
    high := (4 * m + 2) * up
    den := if 0 ≤ p then 1 else Nat.pow 2 (-p).toNat
    closed := m % 2 = 0 }

/-- The interval measured in units of `10 ^ g`. -/
def Interval.inUnits (i : Interval) (g : Int) : Interval :=
  if 0 ≤ g then { i with den := i.den * Nat.pow 10 g.toNat }
  else
    let s := Nat.pow 10 (-g).toNat
    { i with low := i.low * s, value := i.value * s, high := i.high * s }

/-- Whether an integer lies in the interval. -/
def Interval.holds (i : Interval) (c : Nat) : Bool :=
  if i.closed then i.low ≤ c * i.den && c * i.den ≤ i.high
  else i.low < c * i.den && c * i.den < i.high

/-- The integer in the interval that is nearest to its number, if there is one. -/
def Interval.nearest? (i : Interval) : Option Nat :=
  let below := i.value / i.den
  let above := below + 1
  match i.holds below, i.holds above with
  | true, true =>
    if i.value - below * i.den < above * i.den - i.value then some below else some above
  | true, false => some below
  | false, true => some above
  | false, false => none

/-- The first grid, from `10 ^ g` towards finer ones, with a point in the interval. -/
def shortestFrom (i : Interval) : Nat → Int → Option (Nat × Int)
  | 0, _ => none
  | steps + 1, g =>
    match (i.inUnits g).nearest? with
    | some c => some (c, g)
    | none => shortestFrom i steps (g - 1)

/-- The digits and the decimal exponent of the shortest decimal that rounds to `m * 2 ^ q`.  No
number of the format needs a grid outside the ones tried. -/
def shortest (m : Nat) (q : Int) : Nat × Int :=
  if m = 0 then (0, 0) else (shortestFrom (roundingInterval m q) 660 310).getD (0, 0)

/-- A decimal without an exponent, always with a point. -/
def positional (digits : Nat) (exponent : Int) : String :=
  let ds := Nat.toDigits 10 digits
  if 0 ≤ exponent then
    String.ofList (ds ++ List.replicate exponent.toNat '0' ++ ".0".toList)
  else
    let places := (-exponent).toNat
    let padded := List.replicate (places + 1 - ds.length) '0' ++ ds
    String.ofList
      (padded.take (padded.length - places) ++ '.' :: padded.drop (padded.length - places))

/-- The text of a number: its shortest decimal, in full. -/
def shown : Binary64 → String
  | .nan => "NaN"
  | .infinite negative => if negative then "-inf" else "inf"
  | .finite negative m q =>
    let (digits, exponent) := shortest m q
    (if negative then "-" else "") ++ positional digits exponent

end FileWatch.Binary64
