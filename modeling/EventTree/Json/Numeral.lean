import EventTree.Json.Reader

/-!
# Reading JSON numbers

An integer that fits 64 bits stays an integer. Everything else, `-0` included, is a
float: as many leading digits as fit 64 bits are rounded to a float, and a power of
ten is multiplied in or divided out in steps that each round. That is not always
the float nearest to the decimal that was written.
-/
namespace EventTree.Json
open Number

inductive Numeral where
  | unsigned (n : UInt64)
  /-- A negative integer. -/
  | signed (n : Int64)
  | float (x : Binary64)
deriving DecidableEq, Repr

namespace Numeral

/-- The numeral as a value of the wrong kind. -/
def found : Numeral → Found
  | .unsigned n => .integer n.toNat
  | .signed n => .integer n.toInt
  | .float x => .float x

end Numeral

def maxSignificand : Nat := 0xFFFFFFFFFFFFFFFF

def maxExponent : Nat := 0x7FFFFFFF

/-- The float nearest to `10 ^ k`. -/
def powerOfTen (k : Nat) : Binary64 := .ofRatio false (Nat.pow 10 k) 1

/-- `x` times `10 ^ exponent`, by at most 308 powers at a time; nothing if the result
is too large. Each of the `fuel` divisions by `10 ^ 308` raises the exponent, and
three of them leave nothing of any significand. -/
def scaleByPower : (fuel : Nat) → (x : Binary64) → (exponent : Int) → Option Binary64
  | 0, _, _ => some .zero
  | fuel + 1, x, exponent =>
    if 0 ≤ exponent then
      if x = .zero then some x
      else if 308 < exponent then none
      else
        let y := x.mul (powerOfTen exponent.toNat)
        if y.isFinite then some y else none
    else if -308 ≤ exponent then some (x.div (powerOfTen exponent.natAbs))
    else if x = .zero then some x
    else scaleByPower fuel (x.div (powerOfTen 308)) (exponent + 308)

/-- The float of a sign, the leading digits and a power of ten. -/
def assemble (negative : Bool) (significand : Nat) (exponent : Int) (cs : List Char) :
    Except Fault (Numeral × List Char) :=
  match scaleByPower 5 (.ofRatio false significand 1) exponent with
  | some x => .ok (.float (if negative then x.neg else x), cs)
  | none => failHere (.malformed .numberOutOfRange) cs

/-- Digits appended to `significand` while it fits 64 bits, how many they were, and
what follows them; that begins with a digit when no more would fit. -/
def takeDigits (limit : Nat) : (significand count : Nat) → List Char → Nat × Nat × List Char
  | significand, count, [] => (significand, count, [])
  | significand, count, c :: cs =>
    if isDigit c && significand * 10 + digitValue c ≤ limit then
      takeDigits limit (significand * 10 + digitValue c) (count + 1) cs
    else (significand, count, c :: cs)

def startsWithDigit : List Char → Bool
  | c :: _ => isDigit c
  | [] => false

def startsWithExponent : List Char → Bool
  | c :: _ => c == 'e' || c == 'E'
  | [] => false

/-- The sign of an exponent, which may be left out. -/
def readExponentSign : List Char → Bool × List Char
  | '+' :: cs => (false, cs)
  | '-' :: cs => (true, cs)
  | cs => (false, cs)

/-- An exponent, behind its letter. One too large for 32 bits makes any number but
zero too large, or too small to differ from zero. -/
def readExponent (negative : Bool) (significand : Nat) (start : Int) (cs : List Char) :
    Except Fault (Numeral × List Char) :=
  let (negativeExponent, cs) := readExponentSign cs
  match cs with
  | [] => failHere (.unfinished .value) []
  | c :: rest =>
    if !isDigit c then failAhead (.malformed .invalidNumber) (c :: rest)
    else
      let (e, _, rest) := takeDigits maxExponent (digitValue c) 0 rest
      if startsWithDigit rest then
        if significand != 0 && !negativeExponent then
          failHere (.malformed .numberOutOfRange) (rest.drop 1)
        else .ok (.float (.ofRatio negative 0 1), rest.dropWhile isDigit)
      else assemble negative significand (start + if negativeExponent then -(e : Int) else e) rest

def finishFloat (negative : Bool) (significand : Nat) (exponent : Int) (cs : List Char) :
    Except Fault (Numeral × List Char) :=
  if startsWithExponent cs then readExponent negative significand exponent (cs.drop 1)
  else assemble negative significand exponent cs

/-- A fraction, behind its point. Digits that do not fit the significand are ignored. -/
def readFraction (negative : Bool) (significand : Nat) (exponent : Int) (cs : List Char) :
    Except Fault (Numeral × List Char) :=
  let (digits, count, rest) := takeDigits maxSignificand significand 0 cs
  if startsWithDigit rest then
    finishFloat negative digits (exponent - count) (rest.dropWhile isDigit)
  else if count == 0 then
    if rest.isEmpty then failHere (.unfinished .value) []
    else failAhead (.malformed .invalidNumber) rest
  else finishFloat negative digits (exponent - count) rest

/-- What may follow the digits before the point, of which `dropped` did not fit. -/
def readAfterWhole (negative : Bool) (significand : Nat) (dropped : Nat) (cs : List Char) :
    Except Fault (Numeral × List Char) :=
  match cs with
  | '.' :: rest => readFraction negative significand dropped rest
  | _ => finishFloat negative significand dropped cs

/-- A number, behind its minus sign if it has one. -/
def readNumeral (negative : Bool) (cs : List Char) : Except Fault (Numeral × List Char) :=
  match cs with
  | [] => failHere (.unfinished .value) []
  | c :: rest =>
    if !isDigit c then failAhead (.malformed .invalidNumber) (c :: rest)
    else if c = '0' && startsWithDigit rest then failAhead (.malformed .invalidNumber) rest
    else
      let (significand, _, rest) := takeDigits maxSignificand (digitValue c) 0 rest
      if startsWithDigit rest then
        readAfterWhole negative significand (rest.takeWhile isDigit).length (rest.dropWhile isDigit)
      else if rest.head? == some '.' || startsWithExponent rest then
        readAfterWhole negative significand 0 rest
      else if !negative then .ok (.unsigned significand.toUInt64, rest)
      else if 0 < significand && significand ≤ 0x8000000000000000 then
        .ok (.signed (Int64.ofInt (-significand)), rest)
      else .ok (.float (.ofRatio true significand 1), rest)

end EventTree.Json
