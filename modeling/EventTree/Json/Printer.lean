import EventTree.Number.Shortest
import EventTree.Text.Escaped

/-!
# Writing JSON

Strings escape the quote, the backslash and the controls below the space, and leave
everything else as it is. A float has the fewest digits that read back; what JSON
cannot name is `null`.
-/
namespace EventTree.Json
open Number Text

def stringChar (c : Char) : List Char :=
  match c with
  | '"' => ['\\', '"']
  | '\\' => ['\\', '\\']
  | '\x08' => ['\\', 'b']
  | '\t' => ['\\', 't']
  | '\n' => ['\\', 'n']
  | '\x0c' => ['\\', 'f']
  | '\r' => ['\\', 'r']
  | c =>
    if c.toNat < 0x20 then
      ['\\', 'u', '0', '0', lowerHexDigit (c.toNat / 16), lowerHexDigit c.toNat]
    else [c]

def stringText (s : String) : List Char :=
  '"' :: s.toList.flatMap stringChar ++ ['"']

/-- The decimal exponents of the first digit that are written without an exponent. -/
def plainExponent (e : Int) : Bool := -5 ≤ e && e ≤ 15

/-- A positive decimal, always with a fraction where no exponent is written. -/
def decimalText (d : Decimal) : List Char :=
  let d := d.trim 20
  let digits := decimalDigits d.digits
  let e : Int := d.exponent + digits.length - 1
  if plainExponent e then
    if e < 0 then
      '0' :: '.' :: List.replicate (-e - 1).toNat '0' ++ digits
    else
      let whole := e.toNat + 1
      let fraction := digits.drop whole
      digits.take whole ++ List.replicate (whole - digits.length) '0' ++
        '.' :: (if fraction.isEmpty then ['0'] else fraction)
  else
    let fraction := digits.drop 1
    digits.take 1 ++ (if fraction.isEmpty then [] else '.' :: fraction) ++
      'e' :: (if e < 0 then '-' else '+') :: decimalDigits e.natAbs

/-- The text of a finite value. -/
def floatText? (x : Binary64) : Option (List Char) :=
  match x.value with
  | .finite negative m e =>
    let text := if m == 0 then ['0', '.', '0'] else decimalText (shortest .binary64 .toEven m e)
    some (if negative then '-' :: text else text)
  | _ => none

def floatText (x : Binary64) : List Char := (floatText? x).getD ['n', 'u', 'l', 'l']

def intText (n : Int) : List Char :=
  if n < 0 then '-' :: decimalDigits n.natAbs else decimalDigits n.natAbs

/-- Texts between commas. -/
def commaSeparated : List (List Char) → List Char
  | [] => []
  | [x] => x
  | x :: rest => x ++ ',' :: commaSeparated rest

def arrayText (items : List (List Char)) : List Char :=
  '[' :: commaSeparated items ++ [']']

def objectText (members : List (String × List Char)) : List Char :=
  '\x7b' :: commaSeparated (members.map fun (k, v) => stringText k ++ ':' :: v) ++ ['\x7d']

end EventTree.Json
