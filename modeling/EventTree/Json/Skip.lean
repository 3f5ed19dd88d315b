import EventTree.Json.Numeral

/-!
# Passing over a JSON value

A value under a key that nobody asked for is checked for its form only. The lists
and objects that are open around the place are kept in a list, innermost first, so
any depth is passed in one loop.
-/
namespace EventTree.Json

/-- A list or object that is not yet closed. -/
inductive Enclosing where
  | list
  | object
deriving DecidableEq, Repr

def Enclosing.closes (frame : Enclosing) (c : Char) : Bool :=
  match frame with
  | .list => c == ']'
  | .object => c == '\x7d'

def Enclosing.unclosed : Enclosing → Unfinished
  | .list => .list
  | .object => .object

def Enclosing.commaOrEnd : Enclosing → Malformed
  | .list => .expectedListCommaOrEnd
  | .object => .expectedObjectCommaOrEnd

def skipFaulty (cs : List Char) : Except Fault α := failAhead (.malformed .invalidNumber) cs

/-- The digits of an exponent, behind its letter. -/
def skipExponent (cs : List Char) : Except Fault (List Char) :=
  let (_, cs) := readExponentSign cs
  if startsWithDigit cs then .ok (cs.dropWhile isDigit) else skipFaulty cs

def skipFraction (cs : List Char) : Except Fault (List Char) :=
  if startsWithDigit cs then
    let cs := cs.dropWhile isDigit
    if startsWithExponent cs then skipExponent (cs.drop 1) else .ok cs
  else skipFaulty cs

/-- A number, behind its minus sign if it has one. -/
def skipNumeral (cs : List Char) : Except Fault (List Char) :=
  if !startsWithDigit cs then skipFaulty cs
  else if cs.head? == some '0' && startsWithDigit (cs.drop 1) then skipFaulty (cs.drop 1)
  else
    match cs.dropWhile isDigit with
    | '.' :: rest => skipFraction rest
    | rest => if startsWithExponent rest then skipExponent (rest.drop 1) else .ok rest

/-- A value that holds no other. -/
def skipScalar (c : Char) (cs : List Char) : Except Fault (List Char) :=
  if c = 'n' then readWord ['u', 'l', 'l'] cs
  else if c = 't' then readWord ['r', 'u', 'e'] cs
  else if c = 'f' then readWord ['a', 'l', 's', 'e'] cs
  else if c = '-' then skipNumeral cs
  else if isDigit c then skipNumeral (c :: cs)
  else if c = '"' then skipString cs
  else failAhead (.malformed .expectedValue) (c :: cs)

/-- A key and its colon. -/
def skipKey (cs : List Char) : Except Fault (List Char) :=
  match skipBlanks cs with
  | [] => failAhead (.unfinished .object) []
  | c :: cs =>
    if c = '"' then do
      let cs ← skipString cs
      match skipBlanks cs with
      | [] => failAhead (.unfinished .object) []
      | c :: cs => if c = ':' then .ok cs else failAhead (.malformed .expectedColon) (c :: cs)
    else failAhead (.malformed .keyMustBeString) (c :: cs)

/-- Closes as many enclosing lists and objects as end here. What is left open
comes back with the place of its next item; `first` says that it has none yet. -/
def skipClosers : (first : Bool) → (frames : List Enclosing) → List Char →
    Except Fault (List Enclosing × List Char)
  | _, [], cs => .ok ([], cs)
  | first, frame :: frames, cs =>
    match skipBlanks cs with
    | [] => failAhead (.unfinished frame.unclosed) []
    | c :: rest =>
      if !first && c = ',' then .ok (frame :: frames, rest)
      else if frame.closes c then skipClosers false frames rest
      else if first then .ok (frame :: frames, c :: rest)
      else failAhead (.malformed frame.commaOrEnd) (c :: rest)

/-- One value, inside the `frames` already open. Every round takes a character. -/
def skipItems : (fuel : Nat) → (frames : List Enclosing) → List Char → Except Fault (List Char)
  | 0, _, cs => .ok cs
  | fuel + 1, frames, cs => do
    let cs ← if frames.head? == some .object then skipKey cs else .ok cs
    match skipBlanks cs with
    | [] => failAhead (.unfinished .value) []
    | c :: rest =>
      let (first, frames, rest) ←
        if c = '[' then .ok (true, .list :: frames, rest)
        else if c = '\x7b' then .ok (true, .object :: frames, rest)
        else do
          let rest ← skipScalar c rest
          .ok (false, frames, rest)
      let (frames, rest) ← skipClosers first frames rest
      if frames.isEmpty then .ok rest else skipItems fuel frames rest

/-- One value of any kind. -/
def skipValue (cs : List Char) : Except Fault (List Char) := skipItems (cs.length + 1) [] cs

end EventTree.Json
