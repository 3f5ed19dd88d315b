import EventTree.Proofs.Tree.Clauses

/-!
# Literals end where they were meant to

A reader of a filter knows nothing of the value that was put into a literal. It goes from
character to character, takes what stands behind a backslash as it is, and stops at the first
quote that is left. What it has then is the value, and what it has not seen is the text
behind the literal, whatever the value and that text are.
-/
namespace EventTree.Filter

/-- The value of a literal and the text behind it, read from behind the opening quote. -/
def readLiteral : List Char → Option (List Char × List Char)
  | [] => none
  | '"' :: rest => some ([], rest)
  | ['\\'] => none
  | '\\' :: c :: rest => (readLiteral rest).map fun (value, behind) => (c :: value, behind)
  | c :: rest => (readLiteral rest).map fun (value, behind) => (c :: value, behind)

theorem readLiteral_plain {c : Char} (hquote : c ≠ '"') (hslash : c ≠ '\\') (rest : List Char) :
    readLiteral (c :: rest) =
      (readLiteral rest).map fun (value, behind) => (c :: value, behind) := by
  rw [readLiteral]
  · exact hquote
  · intro h
    exact absurd h hslash
  · intro _ _ h
    exact absurd h hslash

/-- A character of a literal is read as the character that it stands for. -/
theorem readLiteral_literalChar (c : Char) (rest : List Char) :
    readLiteral (literalChar c ++ rest) =
      (readLiteral rest).map fun (value, behind) => (c :: value, behind) := by
  rw [literalChar_eq]
  split
  · rfl
  · next h => exact readLiteral_plain (not_or.1 h).1 (not_or.1 h).2 rest

theorem readLiteral_body (value : String) (behind : List Char) :
    readLiteral (literalBody value ++ '"' :: behind) = some (value.toList, behind) := by
  have hlist : ∀ cs : List Char,
      readLiteral (cs.flatMap literalChar ++ '"' :: behind) = some (cs, behind) := by
    intro cs
    induction cs with
    | nil => rfl
    | cons c cs ih =>
      rw [List.flatMap_cons, List.append_assoc, readLiteral_literalChar, ih]
      rfl
  exact hlist value.toList

theorem literal_append (value behind : String) :
    (literal value ++ behind).toList = '"' :: (literalBody value ++ '"' :: behind.toList) := by
  rw [String.toList_append, toList_literal]
  simp

/-- From the front a literal and the text behind it are told apart in one way only. -/
theorem literal_append_inj {v w t u : String} (h : literal v ++ t = literal w ++ u) :
    v = w ∧ t = u := by
  have hbody := congrArg String.toList h
  rw [literal_append, literal_append] at hbody
  have hread := readLiteral_body v t.toList
  rw [(List.cons.inj hbody).2, readLiteral_body, Option.some.injEq, Prod.mk.injEq] at hread
  exact ⟨(String.toList_inj.1 hread.1).symm, (String.toList_inj.1 hread.2).symm⟩

/-- A literal is read to its own closing quote and gives its value, whatever comes behind it.
So no value ends its literal early, takes in what follows, or passes for another one; and
from a filter made for a directory its host and its service are read back. -/
theorem literal_self_delimiting :
    (∀ value behind : String, ∃ text, (literal value ++ behind).toList = '"' :: text ∧
      readLiteral text = some (value.toList, behind.toList)) ∧
    (∀ v w t u : String, literal v ++ t = literal w ++ u ↔ v = w ∧ t = u) ∧
    (∀ (filter : Option String) (host : String), ∃ text,
      (ofHost filter host).toList = front filter ++ "host = \"".toList ++ text ∧
      readLiteral text = some (host.toList, [])) ∧
    ∀ (filter : Option String) (host service : String), ∃ text text',
      (ofSelector ⟨filter, host, service⟩).toList =
        front filter ++ "host = \"".toList ++ text ∧
      readLiteral text = some (host.toList, " and service = \"".toList ++ text') ∧
      readLiteral text' = some (service.toList, []) := by
  refine ⟨?_, ?_, ?_, ?_⟩
  · intro value behind
    exact ⟨_, literal_append value behind, readLiteral_body value behind.toList⟩
  · intro v w t u
    constructor
    · exact literal_append_inj
    · rintro ⟨rfl, rfl⟩
      rfl
  · intro filter host
    refine ⟨literalBody host ++ '"' :: [], ?_, readLiteral_body host []⟩
    rw [toList_ofHost, toList_literal]
    simp
  · intro filter host service
    refine ⟨literalBody host ++ '"' :: (" and service = \"".toList ++
      (literalBody service ++ '"' :: [])), literalBody service ++ '"' :: [], ?_,
      readLiteral_body host _, readLiteral_body service []⟩
    rw [toList_ofSelector, toList_ofHost, toList_literal, toList_literal]
    simp

end EventTree.Filter
