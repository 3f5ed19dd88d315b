import EventTree.Json.Printer
import EventTree.Text.Utf8

/-!
# What can be wrong with a JSON text

A fault has a cause and the number of bytes that were still unread where it was
noticed. Its place in the text is worked out from the two when it is shown.
-/
namespace EventTree.Json
open Number

/-- What the text was in the middle of when it ended. -/
inductive Unfinished where
  | list
  | object
  | string
  | value
deriving DecidableEq, Repr

/-- How a text fails to be JSON. -/
inductive Malformed where
  | expectedColon
  | expectedListCommaOrEnd
  | expectedObjectCommaOrEnd
  | expectedIdent
  | expectedValue
  | invalidEscape
  | invalidNumber
  | numberOutOfRange
  | controlCharacterInString
  | keyMustBeString
  | loneSurrogate
  | trailingComma
  | trailingCharacters
  | unexpectedEndOfHexEscape
deriving DecidableEq, Repr

/-- A well-formed value of the wrong kind, as a message names it. -/
inductive Found where
  | null
  | boolean (b : Bool)
  | integer (n : Int)
  | float (x : Binary64)
  | string (s : String)
  | sequence
  | map
deriving DecidableEq, Repr

inductive Expected where
  | string
  | float
  | integer
  | sequence
  | map
  | event
deriving DecidableEq, Repr

/-- How a well-formed JSON value fails to be an event. -/
inductive Mismatch where
  | wrongKind (found : Found) (expected : Expected)
  | outOfRange (n : Int)
  | missingField (key : String)
  | duplicateField (key : String)
  | tooFewElements (count : Nat)
deriving DecidableEq, Repr

inductive Cause where
  | unfinished (what : Unfinished)
  | malformed (how : Malformed)
  | mismatch (how : Mismatch)
deriving DecidableEq, Repr

structure Fault where
  cause : Cause
  /-- Bytes of the text after the place of the fault. -/
  unread : Nat
deriving DecidableEq, Repr

def Unfinished.message : Unfinished → String
  | .list => "EOF while parsing a list"
  | .object => "EOF while parsing an object"
  | .string => "EOF while parsing a string"
  | .value => "EOF while parsing a value"

def Malformed.message : Malformed → String
  | .expectedColon => "expected `:`"
  | .expectedListCommaOrEnd => "expected `,` or `]`"
  | .expectedObjectCommaOrEnd => "expected `,` or `\x7d`"
  | .expectedIdent => "expected ident"
  | .expectedValue => "expected value"
  | .invalidEscape => "invalid escape"
  | .invalidNumber => "invalid number"
  | .numberOutOfRange => "number out of range"
  | .controlCharacterInString =>
    "control character (\\u0000-\\u001F) found while parsing a string"
  | .keyMustBeString => "key must be a string"
  | .loneSurrogate => "lone leading surrogate in hex escape"
  | .trailingComma => "trailing comma"
  | .trailingCharacters => "trailing characters"
  | .unexpectedEndOfHexEscape => "unexpected end of hex escape"

def Found.text : Found → String
  | .null => "null"
  | .boolean b => "boolean `" ++ (if b then "true" else "false") ++ "`"
  | .integer n => "integer `" ++ .ofList (intText n) ++ "`"
  | .float x => "floating point `" ++ .ofList (floatText x) ++ "`"
  | .string s => "string " ++ Text.escaped s
  | .sequence => "sequence"
  | .map => "map"

def Expected.text : Expected → String
  | .string => "a string"
  | .float => "f64"
  | .integer => "i64"
  | .sequence => "a sequence"
  | .map => "a map"
  | .event => "struct Event"

def Mismatch.message : Mismatch → String
  | .wrongKind found expected => "invalid type: " ++ found.text ++ ", expected " ++ expected.text
  | .outOfRange n =>
    "invalid value: " ++ (Found.integer n).text ++ ", expected " ++ Expected.integer.text
  | .missingField key => "missing field `" ++ key ++ "`"
  | .duplicateField key => "duplicate field `" ++ key ++ "`"
  | .tooFewElements count =>
    "invalid length " ++ .ofList (decimalDigits count) ++ ", expected struct Event with 9 elements"

def Cause.message : Cause → String
  | .unfinished what => what.message
  | .malformed how => how.message
  | .mismatch how => how.message

/-- Line and column of the place with `unread` bytes after it: lines count from one,
columns count the bytes of the line before the place. -/
def place (text : Bytes) (unread : Nat) : Nat × Nat :=
  let before := text.take (text.length - unread)
  (1 + before.count 0x0A, (before.reverse.takeWhile (· != 0x0A)).length)

/-- The message with its place in the text. -/
def Fault.message (f : Fault) (text : String) : String :=
  let (line, column) := place (Text.encode text) f.unread
  f.cause.message ++ " at line " ++ .ofList (decimalDigits line) ++
    " column " ++ .ofList (decimalDigits column)

end EventTree.Json
