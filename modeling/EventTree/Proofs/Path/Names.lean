import EventTree.Proofs.Path.Places
import EventTree.Proofs.Text.ByteOrder

/-!
# Names below a path

A text without a slash that is looked up in a path comes back as its last name. There are
three that do not: the empty text and the dot name the path itself, and two dots are a step
upwards, which no path with names has.
-/
namespace EventTree

/-! ## Slashes of texts and of their bytes -/

theorem slash_eq_ofNat {n : Nat} (h : n < 256) : Path.slash = UInt8.ofNat n ↔ n = 0x2F := by
  rw [← UInt8.toNat_inj, UInt8.toNat_ofNat_of_lt' h]
  exact eq_comm

/-- A character of several bytes has none of those that are a character alone. -/
theorem Text.slash_mem_utf8EncodeChar {c : Char} :
    Path.slash ∈ String.utf8EncodeChar c ↔ c = '/' := by
  constructor
  · intro h
    have hvalue : c.val.toNat = 0x2F := by
      simp only [String.utf8EncodeChar] at h
      generalize c.val.toNat = n at h ⊢
      split_ifs at h <;>
        simp (disch := omega) only [List.mem_cons, List.not_mem_nil, or_false,
          slash_eq_ofNat] at h <;> omega
    exact Char.ext (UInt32.toNat_inj.1 hvalue)
  · rintro rfl
    decide

theorem Text.slash_mem_encode {s : String} : Path.slash ∈ Text.encode s ↔ '/' ∈ s.toList := by
  rw [Text.encode_eq_flatMap, List.mem_flatMap]
  constructor
  · rintro ⟨c, hc, hslash⟩
    rwa [← Text.slash_mem_utf8EncodeChar.1 hslash]
  · intro h
    exact ⟨'/', h, Text.slash_mem_utf8EncodeChar.2 rfl⟩

namespace Path

/-! ## The component of a text -/

theorem component?_encode {s : String} (hs : s ≠ "") (hdot : s ≠ ".") (hdots : s ≠ "..") :
    component? (Text.encode s) = some (.name (Text.encode s)) := by
  have hnil : ¬(Text.encode s = [] ∨ Text.encode s = [dot]) := by
    rintro (h | h)
    · exact hs (Text.encode_injective (h.trans (by decide +kernel)))
    · exact hdot (Text.encode_injective (h.trans (by decide +kernel)))
  have hparent : Text.encode s ≠ [dot, dot] := by
    intro h
    exact hdots (Text.encode_injective (h.trans (by decide +kernel)))
  rw [component?, if_neg hnil, if_neg hparent]

/-! ## Names of a path -/

theorem namesOf?_append (cs ds : List Component) :
    namesOf? (cs ++ ds) = (namesOf? cs).bind fun names => (namesOf? ds).map (names ++ ·) := by
  induction cs with
  | nil => simp [namesOf?]
  | cons c cs ih =>
    cases c with
    | root => exact ih
    | here => exact ih
    | parent => rfl
    | name bytes =>
      rw [List.cons_append, namesOf?, namesOf?, ih]
      cases Text.decode? bytes with
      | none => rfl
      | some s =>
        cases namesOf? cs with
        | none => rfl
        | some names => cases namesOf? ds <;> rfl

/-- How a path begins has no name. -/
theorem names?_eq (p : Path) : p.names? = namesOf? ((pieces p.bytes).filterMap component?) := by
  unfold names? components
  dsimp only
  split_ifs <;> rfl

theorem names?_join (p : Path) {name : Bytes} (hname : slash ∉ name) :
    (p.join name).names? =
      p.names?.bind fun names => (namesOf? (component? name).toList).map (names ++ ·) := by
  rw [names?_eq, pieces_join p hname, namesOf?_append, ← names?_eq]

section
variable (p : Path) {s : String}

theorem names?_join_encode (hslash : '/' ∉ s.toList) (hs : s ≠ "") (hdot : s ≠ ".")
    (hdots : s ≠ "..") : (p.join (Text.encode s)).names? = p.names?.map (· ++ [s]) := by
  have hname : namesOf? [.name (Text.encode s)] = some [s] := by
    rw [namesOf?, Text.decode?_encode]
    rfl
  rw [names?_join p (mt Text.slash_mem_encode.1 hslash), component?_encode hs hdot hdots,
    Option.toList_some, hname]
  cases p.names? <;> rfl

theorem names?_join_dot : (p.join (Text.encode ".")).names? = p.names? := by
  have hdot : component? (Text.encode ".") = none := by decide +kernel
  rw [names?_join p (by decide +kernel), hdot]
  cases hp : p.names? <;> simp [namesOf?]

theorem names?_join_dots : (p.join (Text.encode "..")).names? = none := by
  have hparent : component? (Text.encode "..") = some .parent := by decide +kernel
  rw [names?_join p (by decide +kernel), hparent]
  cases p.names? <;> rfl

end

/-- Where all pieces have names, the names are the pieces. -/
theorem filterMap_component?_of_namesOf? {ps : List Bytes} {names : List String}
    (h : namesOf? (ps.filterMap component?) = some names) :
    ps.filterMap component? = names.map fun s => .name (Text.encode s) := by
  induction ps generalizing names with
  | nil =>
    cases h
    rfl
  | cons piece rest ih =>
    rcases component?_cases piece with hnone | hparent | hname
    · rw [List.filterMap_cons_none hnone] at h ⊢
      exact ih h
    · rw [List.filterMap_cons_some hparent] at h
      cases h
    · rw [List.filterMap_cons_some hname, namesOf?] at h
      obtain ⟨s, hs, h⟩ := Option.bind_eq_some_iff.1 h
      obtain ⟨later, hlater, h⟩ := Option.bind_eq_some_iff.1 h
      cases h
      rw [List.filterMap_cons_some hname, ih hlater, List.map_cons, Text.encode_of_decode? hs]

/-- An absolute path with names has no components but the root and these. -/
theorem components_of_names? {p : Path} (hp : p.isAbsolute = true) {names : List String}
    (h : p.names? = some names) :
    p.components = .root :: names.map fun s => .name (Text.encode s) := by
  rw [names?_eq] at h
  rw [components_of_isAbsolute hp, filterMap_component?_of_namesOf? h]

/-! ## Paths from names -/

/-- A text that is one name wherever it stands in a path. -/
structure IsName (s : String) : Prop where
  plain : slash ∉ Text.encode s
  component : component? (Text.encode s) = some (.name (Text.encode s))

theorem isName_of_mem_namesOf? {ps : List Bytes} (hplain : ∀ piece ∈ ps, slash ∉ piece)
    {names : List String} (h : namesOf? (ps.filterMap component?) = some names) :
    ∀ s ∈ names, IsName s := by
  intro s hs
  have hmem : .name (Text.encode s) ∈ ps.filterMap component? := by
    rw [filterMap_component?_of_namesOf? h]
    exact List.mem_map.2 ⟨s, hs, rfl⟩
  obtain ⟨piece, hpiece, hname⟩ := List.mem_filterMap.1 hmem
  obtain rfl := eq_of_component?_name hname
  exact ⟨hplain _ hpiece, hname⟩

/-- The names of a path are names in any other. -/
theorem isName_of_names? {p : Path} {names : List String} (h : p.names? = some names) :
    ∀ s ∈ names, IsName s := by
  rw [names?_eq] at h
  exact isName_of_mem_namesOf? (fun _ hp => slash_notMem_of_mem_pieces hp) h

theorem names?_ofNames {names : List String} (h : ∀ s ∈ names, IsName s) :
    (ofNames (names.map Text.encode)).names? = some names := by
  have hplain : ∀ n ∈ names.map Text.encode, slash ∉ n := by
    intro n hn
    obtain ⟨s, hs, rfl⟩ := List.mem_map.1 hn
    exact (h s hs).plain
  rw [names?, components_ofNames hplain, namesOf?]
  clear hplain
  induction names with
  | nil => rfl
  | cons s rest ih =>
    have hs := (h s List.mem_cons_self).component
    rw [List.map_cons, List.filterMap_cons_some hs, namesOf?, Text.decode?_encode,
      ih fun t ht => h t (List.mem_cons_of_mem _ ht)]
    rfl

end Path
end EventTree
