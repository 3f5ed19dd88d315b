import EventTree.Event.Basic
import EventTree.Json.Skip

/-!
# Events as JSON

An event is written as one object with its nine keys in a fixed order. It is read
back from an object with these keys in any order, unknown ones between them, or
from a list of the nine values. Faults are found in reading order; what is missing
is only known at the end.
-/
namespace EventTree
open Json Number

/-- The keys of an event, in the order in which they are written. -/
inductive EventKey where
  | host
  | service
  | metric
  | description
  | state
  | time
  | tags
  | ttl
  | attributes
deriving DecidableEq, Repr

namespace EventKey

def all : List EventKey :=
  [.host, .service, .metric, .description, .state, .time, .tags, .ttl, .attributes]

def name : EventKey → String
  | .host => "Host"
  | .service => "Service"
  | .metric => "Metric"
  | .description => "Description"
  | .state => "State"
  | .time => "Time"
  | .tags => "Tags"
  | .ttl => "Ttl"
  | .attributes => "Attributes"

def ofName? (name : String) : Option EventKey := all.find? (·.name == name)

/-- The JSON text of an event's value under a key. -/
def valueText (e : Event) : EventKey → List Char
  | .host => stringText e.host
  | .service => stringText e.service
  | .metric => floatText e.metric
  | .description => stringText e.description
  | .state => stringText e.state
  | .time => intText e.time.toInt
  | .tags => arrayText (e.tags.map stringText)
  | .ttl => floatText e.ttl
  | .attributes => objectText (e.attributes.entries.map fun (k, v) => (k, stringText v))

end EventKey

def Event.toJson (e : Event) : String :=
  .ofList (objectText (EventKey.all.map fun key => (key.name, key.valueText e)))

namespace EventReader

/-- The fault of a value that is of another kind than expected. A scalar is read to
its end first, and a fault inside it comes before its kind. -/
def wrongKind (expected : Expected) (cs : List Char) : Except Fault α :=
  let found (f : Found) (rest : List Char) : Except Fault α :=
    failHere (.mismatch (.wrongKind f expected)) rest
  match cs with
  | [] => failAhead (.malformed .expectedValue) []
  | c :: rest =>
    if c = 'n' then do found .null (← readWord ['u', 'l', 'l'] rest)
    else if c = 't' then do found (.boolean true) (← readWord ['r', 'u', 'e'] rest)
    else if c = 'f' then do found (.boolean false) (← readWord ['a', 'l', 's', 'e'] rest)
    else if c = '-' then do
      let (n, rest) ← readNumeral true rest
      found n.found rest
    else if isDigit c then do
      let (n, rest) ← readNumeral false (c :: rest)
      found n.found rest
    else if c = '"' then do
      let (s, rest) ← readString rest
      found (.string s) rest
    else if c = '[' then found .sequence (c :: rest)
    else if c = '\x7b' then found .map (c :: rest)
    else failAhead (.malformed .expectedValue) (c :: rest)

def readText (cs : List Char) : Except Fault (String × List Char) :=
  match skipBlanks cs with
  | [] => failAhead (.unfinished .value) []
  | c :: rest => if c = '"' then readString rest else wrongKind .string (c :: rest)

/-- A number, if the next value is one. -/
def readNumber (expected : Expected) (cs : List Char) : Except Fault (Numeral × List Char) :=
  match skipBlanks cs with
  | [] => failAhead (.unfinished .value) []
  | c :: rest =>
    if c = '-' then readNumeral true rest
    else if isDigit c then readNumeral false (c :: rest)
    else wrongKind expected (c :: rest)

def readFloat (cs : List Char) : Except Fault (Binary64 × List Char) := do
  match ← readNumber .float cs with
  | (.unsigned n, rest) => return (.ofInt n.toNat, rest)
  | (.signed n, rest) => return (.ofInt n.toInt, rest)
  | (.float x, rest) => return (x, rest)

def readInteger (cs : List Char) : Except Fault (Int64 × List Char) := do
  match ← readNumber .integer cs with
  | (.unsigned n, rest) =>
    if n.toNat < 0x8000000000000000 then return (Int64.ofInt n.toNat, rest)
    else failHere (.mismatch (.outOfRange n.toNat)) rest
  | (.signed n, rest) => return (n, rest)
  | (.float x, rest) => failHere (.mismatch (.wrongKind (.float x) .integer)) rest

/-- Whether a list goes on, and the place of its next item or of its bracket. -/
def nextItem (first : Bool) (cs : List Char) : Except Fault (Bool × List Char) :=
  match skipBlanks cs with
  | [] => failAhead (.unfinished .list) []
  | c :: rest =>
    if c = ']' then .ok (false, c :: rest)
    else if first then .ok (true, c :: rest)
    else if c = ',' then
      match skipBlanks rest with
      | [] => failAhead (.unfinished .value) []
      | d :: rest =>
        if d = ']' then failAhead (.malformed .trailingComma) (d :: rest) else .ok (true, d :: rest)
    else failAhead (.malformed .expectedListCommaOrEnd) (c :: rest)

/-- The key of the next member and what follows it, or the place of the brace. -/
def nextKey (first : Bool) (cs : List Char) : Except Fault (Option String × List Char) :=
  let key (rest : List Char) : Except Fault (Option String × List Char) := do
    let (k, rest) ← readString rest
    return (some k, rest)
  match skipBlanks cs with
  | [] => failAhead (.unfinished .object) []
  | c :: rest =>
    if c = '\x7d' then .ok (none, c :: rest)
    else if first then
      if c = '"' then key rest else failAhead (.malformed .keyMustBeString) (c :: rest)
    else if c = ',' then
      match skipBlanks rest with
      | [] => failAhead (.unfinished .value) []
      | d :: rest =>
        if d = '"' then key rest
        else if d = '\x7d' then failAhead (.malformed .trailingComma) (d :: rest)
        else failAhead (.malformed .keyMustBeString) (d :: rest)
    else failAhead (.malformed .expectedObjectCommaOrEnd) (c :: rest)

def readColon (cs : List Char) : Except Fault (List Char) :=
  match skipBlanks cs with
  | [] => failAhead (.unfinished .object) []
  | c :: rest => if c = ':' then .ok rest else failAhead (.malformed .expectedColon) (c :: rest)

/-- The items of a list of texts up to its bracket, behind the opening one. -/
def readTextItems : (fuel : Nat) → (first : Bool) → List Char →
    Except Fault (List String × List Char)
  | 0, _, cs => .ok ([], cs)
  | fuel + 1, first, cs => do
    match ← nextItem first cs with
    | (false, rest) => return ([], rest.drop 1)
    | (true, rest) =>
      let (s, rest) ← readText rest
      let (items, rest) ← readTextItems fuel false rest
      return (s :: items, rest)

def readTags (cs : List Char) : Except Fault (List String × List Char) :=
  match skipBlanks cs with
  | [] => failAhead (.unfinished .value) []
  | c :: rest =>
    if c = '[' then readTextItems (rest.length + 1) true rest else wrongKind .sequence (c :: rest)

/-- The members of an object of texts up to its brace, added to those before them. -/
def readMembers : (fuel : Nat) → (first : Bool) → Attributes → List Char →
    Except Fault (Attributes × List Char)
  | 0, _, m, cs => .ok (m, cs)
  | fuel + 1, first, m, cs => do
    match ← nextKey first cs with
    | (none, rest) => return (m, rest.drop 1)
    | (some k, rest) =>
      let rest ← readColon rest
      let (v, rest) ← readText rest
      readMembers fuel false (m.insert k v) rest

def readAttributes (cs : List Char) : Except Fault (Attributes × List Char) :=
  match skipBlanks cs with
  | [] => failAhead (.unfinished .value) []
  | c :: rest =>
    if c = '\x7b' then readMembers (rest.length + 1) true .empty rest
    else wrongKind .map (c :: rest)

/-- An event of which only the values under `seen` have been read. -/
structure Draft where
  event : Event := {}
  seen : List EventKey := []

/-- The value under a key, put into the draft. -/
def readValue (key : EventKey) (draft : Draft) (cs : List Char) :
    Except Fault (Draft × List Char) := do
  let done (e : Event) : Draft := ⟨e, key :: draft.seen⟩
  match key with
  | .host =>
    let (s, rest) ← readText cs
    return (done { draft.event with host := s }, rest)
  | .service =>
    let (s, rest) ← readText cs
    return (done { draft.event with service := s }, rest)
  | .metric =>
    let (x, rest) ← readFloat cs
    return (done { draft.event with metric := x }, rest)
  | .description =>
    let (s, rest) ← readText cs
    return (done { draft.event with description := s }, rest)
  | .state =>
    let (s, rest) ← readText cs
    return (done { draft.event with state := s }, rest)
  | .time =>
    let (n, rest) ← readInteger cs
    return (done { draft.event with time := n }, rest)
  | .tags =>
    let (tags, rest) ← readTags cs
    return (done { draft.event with tags := tags }, rest)
  | .ttl =>
    let (x, rest) ← readFloat cs
    return (done { draft.event with ttl := x }, rest)
  | .attributes =>
    let (m, rest) ← readAttributes cs
    return (done { draft.event with attributes := m }, rest)

/-- A fault of the object as a whole is placed behind its brace, if that comes next. -/
def failInObject (how : Mismatch) (cs : List Char) : Except Fault α :=
  let cs := skipBlanks cs
  failHere (.mismatch how) (if cs.head? == some '\x7d' then cs.drop 1 else cs)

/-- The members of an event up to the brace. A value under an unknown key is passed
over, one under a key already seen is refused before it is read. -/
def readObject : (fuel : Nat) → (first : Bool) → Draft → List Char →
    Except Fault (Event × List Char)
  | 0, _, draft, cs => .ok (draft.event, cs)
  | fuel + 1, first, draft, cs => do
    match ← nextKey first cs with
    | (none, rest) =>
      match EventKey.all.find? (fun key => !draft.seen.contains key) with
      | some key => failInObject (.missingField key.name) rest
      | none => return (draft.event, rest.drop 1)
    | (some k, rest) =>
      match EventKey.ofName? k with
      | none =>
        let rest ← readColon rest
        let rest ← skipValue rest
        readObject fuel false draft rest
      | some key =>
        if draft.seen.contains key then failInObject (.duplicateField key.name) rest
        else
          let rest ← readColon rest
          let (draft, rest) ← readValue key draft rest
          readObject fuel false draft rest

/-- The values of a list for the keys still due. -/
def readList : (due : List EventKey) → (first : Bool) → Draft → List Char →
    Except Fault (Event × List Char)
  | [], _, draft, cs =>
    match skipBlanks cs with
    | [] => failAhead (.unfinished .list) []
    | c :: rest =>
      if c = ']' then .ok (draft.event, rest)
      else if c = ',' then
        let rest := skipBlanks rest
        let fault := if rest.head? == some ']' then .trailingComma else .trailingCharacters
        failAhead (.malformed fault) rest
      else failAhead (.malformed .trailingCharacters) (c :: rest)
  | key :: due, first, draft, cs => do
    match ← nextItem first cs with
    | (false, rest) => failHere (.mismatch (.tooFewElements draft.seen.length)) (rest.drop 1)
    | (true, rest) =>
      let (draft, rest) ← readValue key draft rest
      readList due false draft rest

/-- An event and nothing behind it but blanks. -/
def readWhole (cs : List Char) : Except Fault Event := do
  let (e, rest) ←
    match skipBlanks cs with
    | [] => failAhead (.unfinished .value) []
    | c :: rest =>
      if c = '\x7b' then readObject (rest.length + 1) true {} rest
      else if c = '[' then readList EventKey.all true {} rest
      else wrongKind .event (c :: rest)
  match skipBlanks rest with
  | [] => return e
  | c :: rest => failAhead (.malformed .trailingCharacters) (c :: rest)

end EventReader

def Event.ofJson (text : String) : Except Fault Event := EventReader.readWhole text.toList

end EventTree
