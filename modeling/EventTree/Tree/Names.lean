/-!
# Sets of names

A set of texts as a list without repetitions in ascending order, which is the byte
order of their UTF-8 forms.
-/
namespace EventTree

def insertName (name : String) : List String → List String
  | [] => [name]
  | n :: rest =>
    if name < n then name :: n :: rest
    else if name = n then n :: rest
    else n :: insertName name rest

def distinctNames (names : List String) : List String := names.foldr insertName []

/-- Whether a text can be one component of a path. -/
def isSegment (name : String) : Bool := name != "" && !name.toList.contains '/'

end EventTree
