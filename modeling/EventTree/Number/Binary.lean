/-!
# Binary floating-point values

A value is kept as its bit pattern. `BinaryFormat.decode` reads a pattern as an
exact binary fraction and `BinaryFormat.round` writes a ratio of naturals back,
to the nearest value and on a tie to the even one. All arithmetic between the two
is exact, so nothing here depends on the machine's own floating-point unit.
-/
namespace EventTree.Number

/-- A binary format: the widths of the stored fraction and of the exponent field. -/
structure BinaryFormat where
  fractionBits : Nat
  exponentBits : Nat
deriving DecidableEq, Repr

/-- A decoded pattern. A finite value is `significand * 2 ^ exponent` with its sign. -/
inductive BinaryValue where
  | nan
  | infinite (negative : Bool)
  | finite (negative : Bool) (significand : Nat) (exponent : Int)
deriving DecidableEq, Repr

namespace BinaryFormat

def binary32 : BinaryFormat := ⟨23, 8⟩
def binary64 : BinaryFormat := ⟨52, 11⟩

/-- The exponent of the smallest step, that of the subnormal numbers. -/
def minExponent (f : BinaryFormat) : Int :=
  2 - (1 <<< (f.exponentBits - 1) : Nat) - f.fractionBits

/-- The pattern of positive infinity, the first that is not finite. -/
def infinityBits (f : BinaryFormat) : Nat :=
  ((1 <<< f.exponentBits) - 1) <<< f.fractionBits

def signBit (f : BinaryFormat) : Nat := 1 <<< (f.fractionBits + f.exponentBits)

def decode (f : BinaryFormat) (bits : Nat) : BinaryValue :=
  let negative := bits / f.signBit % 2 == 1
  let field := (bits >>> f.fractionBits) % (1 <<< f.exponentBits)
  let fraction := bits % (1 <<< f.fractionBits)
  if field == (1 <<< f.exponentBits) - 1 then
    if fraction == 0 then .infinite negative else .nan
  else if field == 0 then .finite negative fraction f.minExponent
  else .finite negative ((1 <<< f.fractionBits) + fraction) (f.minExponent + field - 1)

end BinaryFormat

/-- `num / den` to the nearest natural, a half to the even neighbour. -/
def roundHalfEven (num den : Nat) : Nat :=
  let q := num / den
  let r := num % den
  if den < 2 * r || (2 * r == den && q % 2 == 1) then q + 1 else q

/-- The ratio `num * base ^ exponent / den` as a pair of naturals. -/
def scale (base num den : Nat) (exponent : Int) : Nat × Nat :=
  if 0 ≤ exponent then (num * base.pow exponent.toNat, den)
  else (num, den * base.pow (-exponent).toNat)

/-- The greatest `k` with `2 ^ k ≤ num / den`, for positive `num` and `den`. -/
def floorLog2 (num den : Nat) : Int :=
  let k : Int := (num.log2 : Int) - den.log2
  let (n, d) := scale 2 num den (-k)
  if d ≤ n then k else k - 1

namespace BinaryFormat

/-- The pattern of the value nearest to `num / den`, without its sign. Consecutive
patterns are consecutive values, so a carry out of the significand is already the
next exponent and too large a ratio reaches infinity. -/
def roundMagnitude (f : BinaryFormat) (num den : Nat) : Nat :=
  if num == 0 then 0 else
    let e := max (floorLog2 num den - f.fractionBits) f.minExponent
    let (n, d) := scale 2 num den (-e)
    min (roundHalfEven n d + ((e - f.minExponent).toNat <<< f.fractionBits)) f.infinityBits

def round (f : BinaryFormat) (negative : Bool) (num den : Nat) : Nat :=
  (if negative then f.signBit else 0) + f.roundMagnitude num den

end BinaryFormat

/-- A 64-bit floating-point value, equal to another exactly when the bits are. -/
structure Binary64 where
  bits : UInt64
deriving DecidableEq, Repr, Inhabited

/-- A 32-bit floating-point value, equal to another exactly when the bits are. -/
structure Binary32 where
  bits : UInt32
deriving DecidableEq, Repr, Inhabited

namespace Binary32

def value (x : Binary32) : BinaryValue := BinaryFormat.binary32.decode x.bits.toNat

end Binary32

namespace Binary64

def value (x : Binary64) : BinaryValue := BinaryFormat.binary64.decode x.bits.toNat

/-- The value nearest to a ratio. -/
def ofRatio (negative : Bool) (num den : Nat) : Binary64 :=
  ⟨(BinaryFormat.binary64.round negative num den).toUInt64⟩

def ofInt (n : Int) : Binary64 := ofRatio (n < 0) n.natAbs 1

def zero : Binary64 := ⟨0⟩
def nan : Binary64 := ⟨0x7ff8000000000000⟩

def infinity (negative : Bool) : Binary64 :=
  let sign := if negative then BinaryFormat.binary64.signBit else 0
  ⟨(BinaryFormat.binary64.infinityBits + sign).toUInt64⟩

def isFinite (x : Binary64) : Bool :=
  match x.value with
  | .finite .. => true
  | _ => false

def isNaN (x : Binary64) : Bool := x.value == .nan

def neg (x : Binary64) : Binary64 := ⟨x.bits ^^^ 0x8000000000000000⟩

/-- The rounded product of two finite values. -/
def mul (x y : Binary64) : Binary64 :=
  match x.value, y.value with
  | .finite s m e, .finite t n k =>
    let (a, b) := scale 2 (m * n) 1 (e + k)
    ofRatio (s != t) a b
  | _, _ => nan

/-- The rounded quotient of two finite values, the second not zero. -/
def div (x y : Binary64) : Binary64 :=
  match x.value, y.value with
  | .finite s m e, .finite t n k =>
    let (a, b) := scale 2 m n (e - k)
    ofRatio (s != t) a b
  | _, _ => nan

end Binary64

end EventTree.Number
