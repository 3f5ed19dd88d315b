import EventTree.Json.Fault

/-!
# Reading JSON

A reader takes the characters still unread and returns a value with what is left,
or a fault. Two kinds of place occur: behind the last character taken, and behind
the next one, where that character was only looked at.
-/
namespace EventTree.Json
open Number

/-- The number of bytes in characters still unread. -/
def unreadBytes (cs : List Char) : Nat := cs.foldr (fun c n => c.utf8Size + n) 0

def failHere (cause : Cause) (cs : List Char) : Except Fault α :=
  .error ⟨cause, unreadBytes cs⟩

/-- A fault noticed one byte ahead of what was taken. -/
def failAhead (cause : Cause) (cs : List Char) : Except Fault α :=
  .error ⟨cause, unreadBytes cs - 1⟩

def isBlank (c : Char) : Bool := c == ' ' || c == '\n' || c == '\t' || c == '\r'

def skipBlanks (cs : List Char) : List Char := cs.dropWhile isBlank

def isDigit (c : Char) : Bool := '0' ≤ c && c ≤ '9'

def digitValue (c : Char) : Nat := c.toNat - '0'.toNat

/-- The rest of a word such as `null`, whose first letter is already taken. -/
def readWord : (letters : List Char) → List Char → Except Fault (List Char)
  | [], cs => .ok cs
  | _ :: _, [] => failHere (.unfinished .value) []
  | l :: letters, c :: cs =>
    if c = l then readWord letters cs
    else .error ⟨.malformed .expectedIdent, unreadBytes (c :: cs) - 1⟩

section Strings

def hexValue? (c : Char) : Option Nat :=
  if '0' ≤ c && c ≤ '9' then some (c.toNat - '0'.toNat)
  else if 'a' ≤ c && c ≤ 'f' then some (c.toNat - 'a'.toNat + 10)
  else if 'A' ≤ c && c ≤ 'F' then some (c.toNat - 'A'.toNat + 10)
  else none

/-- Four hexadecimal digits. -/
def readHex4 (cs : List Char) : Except Fault (Nat × List Char) :=
  if unreadBytes cs < 4 then failHere (.unfinished .string) []
  else match (cs.take 4).mapM hexValue? with
    | some [a, b, c, d] => .ok (((a * 16 + b) * 16 + c) * 16 + d, cs.drop 4)
    | _ => .error ⟨.malformed .invalidEscape, unreadBytes cs - 4⟩

/-- The character that must come next inside the second half of a surrogate pair. -/
def expectInPair (wanted : Char) : List Char → Except Fault (List Char)
  | [] => failHere (.unfinished .string) []
  | c :: cs =>
    if c = wanted then .ok cs else failAhead (.malformed .unexpectedEndOfHexEscape) (c :: cs)

/-- The character of a `\u` escape, behind the `u`. A leading surrogate must be
followed by an escape of its trailing one. -/
def readCodePoint (cs : List Char) : Except Fault (Char × List Char) := do
  let (n, cs) ← readHex4 cs
  if 0xDC00 ≤ n && n ≤ 0xDFFF then failHere (.malformed .loneSurrogate) cs
  else if n < 0xD800 || 0xDBFF < n then return (Char.ofNat n, cs)
  else
    let cs ← expectInPair '\\' cs
    let cs ← expectInPair 'u' cs
    let (m, cs) ← readHex4 cs
    if m < 0xDC00 || 0xDFFF < m then failHere (.malformed .loneSurrogate) cs
    else return (Char.ofNat ((n - 0xD800) * 1024 + (m - 0xDC00) + 0x10000), cs)

def simpleEscape? : Char → Option Char
  | '"' => some '"'
  | '\\' => some '\\'
  | '/' => some '/'
  | 'b' => some '\x08'
  | 'f' => some '\x0c'
  | 'n' => some '\n'
  | 'r' => some '\r'
  | 't' => some '\t'
  | _ => none

/-- One escape, behind its backslash. -/
def readEscape : List Char → Except Fault (Char × List Char)
  | [] => failHere (.unfinished .string) []
  | c :: cs =>
    match simpleEscape? c with
    | some d => .ok (d, cs)
    | none =>
      if c = 'u' then readCodePoint cs
      else failAhead (.malformed .invalidEscape) (c :: cs)

/-- The characters of a string up to its closing quote, behind the opening one.
Every step takes a character, so `fuel` is the number of characters at hand. -/
def readStringTail : (fuel : Nat) → List Char → Except Fault (List Char × List Char)
  | 0, _ => failHere (.unfinished .string) []
  | _, [] => failHere (.unfinished .string) []
  | fuel + 1, c :: cs =>
    if c = '"' then .ok ([], cs)
    else if c = '\\' then do
      let (d, cs) ← readEscape cs
      let (text, cs) ← readStringTail fuel cs
      return (d :: text, cs)
    else if c.toNat < 0x20 then failHere (.malformed .controlCharacterInString) cs
    else do
      let (text, cs) ← readStringTail fuel cs
      return (c :: text, cs)

/-- A string, behind its opening quote. -/
def readString (cs : List Char) : Except Fault (String × List Char) := do
  let (text, cs) ← readStringTail cs.length cs
  return (.ofList text, cs)

/-- As `readStringTail`, but the text is dropped and surrogates need not pair up. -/
def skipStringTail : (fuel : Nat) → List Char → Except Fault (List Char)
  | 0, _ => failHere (.unfinished .string) []
  | _, [] => failHere (.unfinished .string) []
  | fuel + 1, c :: cs =>
    if c = '"' then .ok cs
    else if c = '\\' then
      match cs with
      | [] => failHere (.unfinished .string) []
      | e :: rest =>
        if (simpleEscape? e).isSome then skipStringTail fuel rest
        else if e = 'u' then do
          let (_, rest) ← readHex4 rest
          skipStringTail fuel rest
        else failAhead (.malformed .invalidEscape) (e :: rest)
    else if c.toNat < 0x20 then failHere (.malformed .controlCharacterInString) (c :: cs)
    else skipStringTail fuel cs

def skipString (cs : List Char) : Except Fault (List Char) := skipStringTail cs.length cs

end Strings

end EventTree.Json
