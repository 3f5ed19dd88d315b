import EventTree.Number.Binary

/-!
# Shortest decimal digits

The fewest significant digits that lie in the interval of numbers rounding to a
given binary value. Grids of 1, 2, 3, … digits are tried in turn; on each, only
the two neighbours of the value can be the first hit. Of two hits the nearer is
taken, and an exact tie goes where the caller says. How the digits are laid out
(plain, with an exponent) is not decided here.
-/
namespace EventTree.Number

/-- Where a decimal exactly between two candidates goes. -/
inductive Tie where
  | toEven
  | up
deriving DecidableEq, Repr

/-- The number `digits * 10 ^ exponent`. -/
structure Decimal where
  digits : Nat
  exponent : Int
deriving DecidableEq, Repr

/-- The numbers that round to one value: between `low / den` and `high / den`,
the ends belonging to it when `closed`. The value itself is `mid / den`. -/
structure RoundingInterval where
  low : Nat
  mid : Nat
  high : Nat
  den : Nat
  closed : Bool
deriving DecidableEq, Repr

namespace RoundingInterval

/-- The interval of `significand * 2 ^ exponent`. Below a power of two the
neighbour is half as far away, unless the step can shrink no further. -/
def of (f : BinaryFormat) (significand : Nat) (exponent : Int) : RoundingInterval :=
  let atPower := significand == 1 <<< f.fractionBits && exponent != f.minExponent
  let (unit, den) := scale 2 1 4 exponent
  { low := (4 * significand - if atPower then 1 else 2) * unit
    mid := 4 * significand * unit
    high := (4 * significand + 2) * unit
    den
    closed := significand % 2 == 0 }

def contains (r : RoundingInterval) (d : Decimal) : Bool :=
  let (n, den) := scale 10 d.digits 1 d.exponent
  if r.closed then r.low * den ≤ n * r.den && n * r.den ≤ r.high * den
  else r.low * den < n * r.den && n * r.den < r.high * den

/-- The greatest `k` with `10 ^ k ≤ mid / den`, found by moving up or down from
a start that is at most `fuel` steps away. -/
def floorLog10 (r : RoundingInterval) : (fuel : Nat) → (start : Int) → Int
  | 0, k => k
  | fuel + 1, k =>
    let (n, d) := scale 10 r.mid r.den (-k)
    if n < d then r.floorLog10 fuel (k - 1)
    else if 10 * d ≤ n then r.floorLog10 fuel (k + 1)
    else k

/-- The better of the value's two neighbours among the multiples of `10 ^ grid`,
if one of them lies in the interval. -/
def onGrid? (r : RoundingInterval) (tie : Tie) (grid : Int) : Option Decimal :=
  let (n, d) := scale 10 r.mid r.den (-grid)
  let below : Decimal := ⟨n / d, grid⟩
  let above : Decimal := ⟨n / d + 1, grid⟩
  match 0 < below.digits && r.contains below, r.contains above with
  | false, false => none
  | true, false => some below
  | false, true => some above
  | true, true =>
    let twice := 2 * (n % d)
    if twice < d then some below
    else if d < twice then some above
    else match tie with
      | .up => some above
      | .toEven => some (if below.digits % 2 == 0 then below else above)

/-- The first grid with a hit, each ten times finer than the one before. -/
def search (r : RoundingInterval) (tie : Tie) : (fuel : Nat) → (grid : Int) → Decimal
  | 0, grid => ⟨r.mid, grid⟩
  | fuel + 1, grid => (r.onGrid? tie grid).getD (r.search tie fuel (grid - 1))

end RoundingInterval

/-- The shortest decimal that rounds to a positive finite value of the format.
Seventeen digits single out any value of the formats used here. -/
def shortest (f : BinaryFormat) (tie : Tie) (significand : Nat) (exponent : Int) : Decimal :=
  let r := RoundingInterval.of f significand exponent
  let log2 : Int := significand.log2 + exponent
  let k := r.floorLog10 8 (log2 * 30103 / 100000)
  r.search tie 20 k

/-- The digits of a natural number, most significant first. -/
def decimalDigits (n : Nat) : List Char := Nat.toDigits 10 n

/-- Trailing zeros of the digits moved into the exponent; `count` bounds how many. -/
def Decimal.trim (d : Decimal) : (count : Nat) → Decimal
  | 0 => d
  | count + 1 =>
    if d.digits % 10 == 0 && d.digits != 0 then Decimal.trim ⟨d.digits / 10, d.exponent + 1⟩ count
    else d

/-- The 64-bit value that the shortest decimal of a 32-bit one names. Widening the
bits instead would bring in digits that nobody wrote: one tenth stays one tenth here. -/
def Binary32.widen (x : Binary32) : Binary64 :=
  match x.value with
  | .nan => .nan
  | .infinite negative => .infinity negative
  | .finite negative 0 _ => .ofRatio negative 0 1
  | .finite negative m e =>
    let d := shortest .binary32 .up m e
    let (n, den) := scale 10 d.digits 1 d.exponent
    .ofRatio negative n den

end EventTree.Number
