import EventTree.Number.Shortest

/-!
# Six decimal places

The text of a value with exactly six digits after the point: the binary value is
taken exactly, scaled to millionths and rounded once, a half going to the even
millionth. The sign of the value is kept even when every digit is a zero.
-/
namespace EventTree.Number

/-- `digits` with zeros in front up to `width`. -/
def padLeft (width : Nat) (digits : List Char) : List Char :=
  List.replicate (width - digits.length) '0' ++ digits

/-- A count of millionths as digits, a point and six digits. -/
def millionthsText (n : Nat) : List Char :=
  decimalDigits (n / 1000000) ++ '.' :: padLeft 6 (decimalDigits (n % 1000000))

/-- The millionths nearest to `significand * 2 ^ exponent`. -/
def millionths (significand : Nat) (exponent : Int) : Nat :=
  let (n, d) := scale 2 (significand * 1000000) 1 exponent
  roundHalfEven n d

def signed (negative : Bool) (text : List Char) : List Char :=
  if negative then '-' :: text else text

/-- The text with six places; what is not finite is named. -/
def Binary64.fixedText (x : Binary64) : String :=
  match x.value with
  | .nan => "NaN"
  | .infinite negative => .ofList (signed negative "inf".toList)
  | .finite negative m e => .ofList (signed negative (millionthsText (millionths m e)))

end EventTree.Number
