/-!
# UTF-8 text in bytes

`encode` and `decode?` pass between text and the bytes of its only UTF-8 form.
`decodeLossy` reads any bytes: each longest part that begins a well-formed
character but does not finish it, and each byte that begins none, becomes one
replacement character.
-/
namespace EventTree

abbrev Bytes := List UInt8

namespace Text

def encode (s : String) : Bytes := s.toUTF8.toList

def decode? (bytes : Bytes) : Option String := String.fromUTF8? ⟨bytes.toArray⟩

def replacementChar : Char := '\uFFFD'

/-- For a byte that begins a character of several: the range of its second byte,
how many more bytes follow that one, and the bits it carries itself. -/
def leadByte? (b : UInt8) : Option (UInt8 × UInt8 × Nat × Nat) :=
  if 0xC2 ≤ b && b ≤ 0xDF then some (0x80, 0xBF, 0, b.toNat - 0xC0)
  else if b == 0xE0 then some (0xA0, 0xBF, 1, 0)
  else if b == 0xED then some (0x80, 0x9F, 1, 0x0D)
  else if 0xE1 ≤ b && b ≤ 0xEF then some (0x80, 0xBF, 1, b.toNat - 0xE0)
  else if b == 0xF0 then some (0x90, 0xBF, 2, 0)
  else if 0xF1 ≤ b && b ≤ 0xF3 then some (0x80, 0xBF, 2, b.toNat - 0xF0)
  else if b == 0xF4 then some (0x80, 0x8F, 2, 4)
  else none

/-- The `more` continuation bytes still owed to a character with the bits `code`.
What is returned beside the character is how many of them were there. -/
def continuation (code : Nat) : (more : Nat) → Bytes → Char × Nat
  | 0, _ => (Char.ofNat code, 0)
  | _ + 1, [] => (replacementChar, 0)
  | more + 1, b :: rest =>
    if 0x80 ≤ b && b ≤ 0xBF then
      let (c, n) := continuation (code * 64 + (b.toNat - 0x80)) more rest
      (c, n + 1)
    else (replacementChar, 0)

/-- The character for a first byte and what follows, and how many of the
following bytes belong to it. -/
def lossyChar (b : UInt8) (rest : Bytes) : Char × Nat :=
  if b < 0x80 then (Char.ofNat b.toNat, 0)
  else match leadByte? b, rest with
    | some (low, high, more, code), second :: rest =>
      if low ≤ second && second ≤ high then
        let (c, n) := continuation (code * 64 + (second.toNat - 0x80)) more rest
        (c, n + 1)
      else (replacementChar, 0)
    | _, _ => (replacementChar, 0)

/-- The characters of `bytes`, the first `taken` of which are already spent. -/
def lossyChars : (taken : Nat) → Bytes → List Char
  | _, [] => []
  | taken + 1, _ :: rest => lossyChars taken rest
  | 0, b :: rest =>
    let (c, n) := lossyChar b rest
    c :: lossyChars n rest

def decodeLossy (bytes : Bytes) : String := .ofList (lossyChars 0 bytes)

end Text
end EventTree
