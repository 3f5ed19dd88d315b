import EventTree.Proofs.Path.Names

/-!
# How names may be spelled as a path

The names stand in their order, with slashes between them. There may be more slashes than
one, also in front and behind, and dots between slashes. These are all the spellings: every
path that has the names is one of them, and no other path has them.
-/
namespace EventTree.Path

/-- The pieces are the names, with empty pieces and dots put in anywhere. -/
inductive Padded : List String → List Bytes → Prop
  | nil : Padded [] []
  | empty {names : List String} {ps : List Bytes} (h : Padded names ps) : Padded names ([] :: ps)
  | dot {names : List String} {ps : List Bytes} (h : Padded names ps) : Padded names ([dot] :: ps)
  | name {s : String} {names : List String} {ps : List Bytes} (hempty : s ≠ "")
      (hslash : '/' ∉ s.toList) (hdot : s ≠ ".") (hdots : s ≠ "..") (h : Padded names ps) :
      Padded (s :: names) (Text.encode s :: ps)

/-- The path is made of the names, put between slashes. An empty piece in front or behind is
a slash there, and one between two names is a slash more. -/
def Spells (p : Path) (names : List String) : Prop :=
  ∃ ps, Padded names ps ∧ p.bytes = [slash].intercalate ps

/-! ## A spelling has its names -/

namespace Padded
variable {names : List String} {ps : List Bytes}

theorem plain (h : Padded names ps) : ∀ piece ∈ ps, slash ∉ piece := by
  induction h with
  | nil => exact nofun
  | empty _ ih => exact List.forall_mem_cons.2 ⟨List.not_mem_nil, ih⟩
  | dot _ ih => exact List.forall_mem_cons.2 ⟨by decide, ih⟩
  | name _ hslash _ _ _ ih => exact List.forall_mem_cons.2 ⟨mt Text.slash_mem_encode.1 hslash, ih⟩

theorem namesOf? (h : Padded names ps) :
    Path.namesOf? (ps.filterMap component?) = some names := by
  induction h with
  | nil => rfl
  | empty _ ih => exact ih
  | dot _ ih => exact ih
  | name hempty _ hdot hdots _ ih =>
    rw [List.filterMap_cons_some (component?_encode hempty hdot hdots), Path.namesOf?,
      Text.decode?_encode, ih]
    rfl

end Padded

theorem Spells.names? {p : Path} {names : List String} (h : p.Spells names) :
    p.names? = some names := by
  obtain ⟨ps, hpadded, hbytes⟩ := h
  rw [names?_eq, hbytes, ← hpadded.namesOf?]
  cases ps with
  | nil => rfl
  | cons piece rest => rw [pieces_intercalate hpadded.plain]

/-! ## A path with names is a spelling of them -/

theorem intercalate_pieces (bytes : Bytes) : [slash].intercalate (pieces bytes) = bytes := by
  induction bytes with
  | nil => rfl
  | cons b rest ih =>
    obtain ⟨p, ps, hrest⟩ := List.exists_cons_of_ne_nil (pieces_ne_nil rest)
    rw [hrest] at ih
    rw [pieces, hrest]
    split_ifs with hb
    · rw [hb, ← ih]
      simp [List.intercalate]
    · rw [← ih]
      cases ps <;> simp [List.intercalate]

theorem component?_eq_none {piece : Bytes} (h : component? piece = none) :
    piece = [] ∨ piece = [dot] := by
  unfold component? at h
  split_ifs at h with hempty
  exact hempty

/-- A text that is a name is not one of the pieces that are none. -/
theorem ne_of_component?_name {s : String}
    (h : component? (Text.encode s) = some (.name (Text.encode s))) :
    s ≠ "" ∧ s ≠ "." ∧ s ≠ ".." := by
  refine ⟨?_, ?_, ?_⟩ <;>
  · rintro rfl
    revert h
    decide +kernel

theorem padded_of_namesOf? {ps : List Bytes} (hplain : ∀ piece ∈ ps, slash ∉ piece)
    {names : List String} (h : namesOf? (ps.filterMap component?) = some names) :
    Padded names ps := by
  induction ps generalizing names with
  | nil =>
    cases h
    exact .nil
  | cons piece rest ih =>
    obtain ⟨hpiece, hrest⟩ := List.forall_mem_cons.1 hplain
    rcases component?_cases piece with hnone | hparent | hname
    · rw [List.filterMap_cons_none hnone] at h
      rcases component?_eq_none hnone with rfl | rfl
      · exact .empty (ih hrest h)
      · exact .dot (ih hrest h)
    · rw [List.filterMap_cons_some hparent] at h
      cases h
    · rw [List.filterMap_cons_some hname, namesOf?] at h
      obtain ⟨s, hs, h⟩ := Option.bind_eq_some_iff.1 h
      obtain ⟨later, hlater, h⟩ := Option.bind_eq_some_iff.1 h
      cases h
      obtain rfl := Text.encode_of_decode? hs
      obtain ⟨hempty, hdot, hdots⟩ := ne_of_component?_name hname
      exact .name hempty (mt Text.slash_mem_encode.2 hpiece) hdot hdots (ih hrest hlater)

theorem names?_eq_some_iff {p : Path} {names : List String} :
    p.names? = some names ↔ p.Spells names := by
  constructor
  · intro h
    rw [names?_eq] at h
    refine ⟨pieces p.bytes, ?_, (intercalate_pieces p.bytes).symm⟩
    exact padded_of_namesOf? (fun _ hp => slash_notMem_of_mem_pieces hp) h
  · exact Spells.names?

/-- A slash in front changes how a path begins, but not its names. -/
theorem names?_slash (p : Path) : (Path.mk (slash :: p.bytes)).names? = p.names? := by
  rw [names?_eq, names?_eq, pieces_slash, List.filterMap_cons_none component?_nil]

end EventTree.Path
