import EventTree.Text.Utf8

/-!
# Paths

A path is a byte string. What it names is the list of its components; two spellings
with the same components are the same place. Empty pieces and dots vanish, except a
dot that begins a relative path.
-/
namespace EventTree

inductive Component where
  | root
  /-- A dot at the front of a relative path. -/
  | here
  | parent
  | name (bytes : Bytes)
deriving DecidableEq, Repr

structure Path where
  bytes : Bytes
deriving DecidableEq, Repr, Inhabited

namespace Path

def slash : UInt8 := 0x2F
def dot : UInt8 := 0x2E

def ofString (s : String) : Path := ⟨Text.encode s⟩

def root : Path := ⟨[slash]⟩

/-- The pieces between slashes, one more than there are slashes. -/
def pieces : Bytes → List Bytes
  | [] => [[]]
  | b :: rest =>
    if b = slash then [] :: pieces rest
    else match pieces rest with
      | [] => [[b]]
      | p :: ps => (b :: p) :: ps

/-- The component of a piece, if it is one wherever it stands. -/
def component? (piece : Bytes) : Option Component :=
  if piece = [] ∨ piece = [dot] then none
  else if piece = [dot, dot] then some .parent
  else some (.name piece)

def isAbsolute (p : Path) : Bool := p.bytes.head? == some slash

def components (p : Path) : List Component :=
  let ps := pieces p.bytes
  if p.isAbsolute then .root :: ps.filterMap component?
  else if ps.head? == some [dot] then .here :: ps.filterMap component?
  else ps.filterMap component?

/-- Equality of paths as places. -/
def Same (p q : Path) : Prop := p.components = q.components

instance (p q : Path) : Decidable (p.Same q) := inferInstanceAs (Decidable (_ = _))

/-- The components of the directory that a place lies in; the root and the empty
path lie in none. -/
def enclosing? (place : List Component) : Option (List Component) :=
  if place = [] ∨ place = [.root] then none else some place.dropLast

/-- A name looked up in a directory. An absolute name stands for itself, and an empty
one ends the directory's path with a slash. -/
def join (parent : Path) (name : Bytes) : Path :=
  if name.head? == some slash then ⟨name⟩
  else if parent.bytes == [] || parent.bytes.getLast? == some slash then ⟨parent.bytes ++ name⟩
  else ⟨parent.bytes ++ slash :: name⟩

/-- The path as it is shown in messages. -/
def shown (p : Path) : String := Text.decodeLossy p.bytes

/-- The names among the components, unless one is a step upwards or not text. -/
def namesOf? : List Component → Option (List String)
  | [] => some []
  | .root :: rest | .here :: rest => namesOf? rest
  | .parent :: _ => none
  | .name bytes :: rest => do
    let s ← Text.decode? bytes
    let names ← namesOf? rest
    return s :: names

def names? (p : Path) : Option (List String) := namesOf? p.components

end Path
end EventTree
