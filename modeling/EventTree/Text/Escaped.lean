import EventTree.Text.Shapeless

/-!
# Text shown in quotes

How a filter is quoted inside a message: in double quotes, with backslash escapes
for the quote, the backslash and the usual controls, and a code in braces for each
other character that has no shape of its own.
-/
namespace EventTree.Text

def lowerHexDigit (n : Nat) : Char := Nat.digitChar (n % 16)

def lowerHex (n : Nat) : List Char := Nat.toDigits 16 n

def escapedChar (c : Char) : List Char :=
  match c with
  | '"' => ['\\', '"']
  | '\\' => ['\\', '\\']
  | '\n' => ['\\', 'n']
  | '\r' => ['\\', 'r']
  | '\t' => ['\\', 't']
  | '\x00' => ['\\', '0']
  | c => if isShapeless c then ['\\', 'u', '\x7b'] ++ lowerHex c.toNat ++ ['\x7d'] else [c]

def escaped (s : String) : String :=
  .ofList ('"' :: s.toList.flatMap escapedChar ++ ['"'])

end EventTree.Text
