import EventTree.Path
import Mathlib.Tactic.ByContra
import Mathlib.Tactic.SplitIfs

/-!
# Places and their spellings

The components of an absolute path are the root and the names between its slashes, so
a path is extended by one component when a name without a slash is looked up in it.
Two spellings of one place stay spellings of one place below the same names.
-/
namespace EventTree.Path

@[simp] theorem same_refl (p : Path) : p.Same p := rfl

theorem Same.symm {p q : Path} (h : p.Same q) : q.Same p := Eq.symm h

theorem Same.trans {p q r : Path} (h : p.Same q) (k : q.Same r) : p.Same r := Eq.trans h k

/-! ## Pieces -/

theorem pieces_slash (rest : Bytes) : pieces (slash :: rest) = [] :: pieces rest := by
  rw [pieces, if_pos rfl]

theorem pieces_ne_nil (bytes : Bytes) : pieces bytes ≠ [] := by
  cases bytes with
  | nil => simp [pieces]
  | cons b rest =>
    unfold pieces
    split
    · simp
    · split <;> simp

theorem pieces_append_slash (front rest : Bytes) :
    pieces (front ++ slash :: rest) = pieces front ++ pieces rest := by
  induction front with
  | nil => simp [pieces]
  | cons b front ih =>
    obtain ⟨p, ps, hfront⟩ := List.exists_cons_of_ne_nil (pieces_ne_nil front)
    rw [List.cons_append, pieces, ih, pieces, hfront]
    split <;> rfl

theorem pieces_of_notMem {name : Bytes} (h : slash ∉ name) : pieces name = [name] := by
  induction name with
  | nil => rfl
  | cons b rest ih =>
    rw [List.mem_cons, not_or] at h
    rw [pieces, if_neg (Ne.symm h.1), ih h.2]

theorem slash_notMem_of_mem_pieces {bytes piece : Bytes} (h : piece ∈ pieces bytes) :
    slash ∉ piece := by
  induction bytes generalizing piece with
  | nil =>
    rw [List.mem_singleton.1 h]
    exact List.not_mem_nil
  | cons b rest ih =>
    obtain ⟨p, ps, hrest⟩ := List.exists_cons_of_ne_nil (pieces_ne_nil rest)
    rw [pieces, hrest] at h
    split at h
    · rcases List.mem_cons.1 h with rfl | h
      · exact List.not_mem_nil
      · exact ih (hrest ▸ h)
    · next hb =>
      rcases List.mem_cons.1 h with rfl | h
      · rw [List.mem_cons, not_or]
        exact ⟨Ne.symm hb, ih (hrest ▸ List.mem_cons_self)⟩
      · exact ih (hrest ▸ List.mem_cons_of_mem p h)

theorem component?_nil : component? [] = none := rfl

theorem component?_ne_root (piece : Bytes) : component? piece ≠ some .root := by
  unfold component?
  split_ifs <;> simp

/-- A piece that is a name is the name itself. -/
theorem component?_cases (piece : Bytes) : component? piece = none ∨
    component? piece = some .parent ∨ component? piece = some (.name piece) := by
  unfold component?
  split_ifs <;> simp

theorem eq_of_component?_name {piece bytes : Bytes} (h : component? piece = some (.name bytes)) :
    piece = bytes := by
  rcases component?_cases piece with hnone | hparent | hself
  · rw [hnone] at h
    cases h
  · rw [hparent] at h
    cases h
  · rw [hself] at h
    cases h
    rfl

theorem filterMap_component?_singleton (name : Bytes) :
    [name].filterMap component? = (component? name).toList := by
  cases h : component? name <;> simp [h]

/-- A name without a slash is one piece more, for which an empty one may give way. -/
theorem pieces_join (p : Path) {name : Bytes} (hname : slash ∉ name) :
    (pieces (p.join name).bytes).filterMap component? =
      (pieces p.bytes).filterMap component? ++ (component? name).toList := by
  have hhead : (name.head? == some slash) = false := by
    rw [beq_eq_false_iff_ne]
    intro h
    exact hname (List.mem_of_mem_head? h)
  have hafter : ∀ front, (pieces (front ++ slash :: name)).filterMap component? =
      (pieces front).filterMap component? ++ (component? name).toList := by
    intro front
    rw [pieces_append_slash, pieces_of_notMem hname, List.filterMap_append,
      filterMap_component?_singleton]
  unfold join
  rw [hhead, if_neg Bool.false_ne_true]
  by_cases hempty : p.bytes = []
  · rw [hempty, pieces, filterMap_component?_singleton, component?_nil]
    exact (congrArg _ (pieces_of_notMem hname)).trans (filterMap_component?_singleton name)
  by_cases hlast : p.bytes.getLast? = some slash
  · -- The slash at the end is followed by an empty piece that `name` takes the place of.
    rw [if_pos (by simp [hlast])]
    obtain ⟨front, hfront⟩ := List.getLast?_eq_some_iff.1 hlast
    have hsplit : p.bytes ++ name = front ++ slash :: name := by
      rw [hfront, List.append_assoc]
      rfl
    rw [hsplit, hafter, hfront, pieces_append_slash, List.filterMap_append, pieces,
      filterMap_component?_singleton, component?_nil, Option.toList_none, List.append_nil]
  · rw [if_neg (by simp [hempty, hlast]), hafter]

/-! ## Components of absolute paths -/

theorem isAbsolute_iff {p : Path} : p.isAbsolute = true ↔ ∃ rest, p.bytes = slash :: rest := by
  rw [isAbsolute, beq_iff_eq]
  exact List.head?_eq_some_iff

theorem components_of_isAbsolute {p : Path} (h : p.isAbsolute = true) :
    p.components = .root :: (pieces p.bytes).filterMap component? := by
  simp only [components, h, if_true]

/-- Only absolute paths begin at the root. -/
theorem isAbsolute_iff_components {p : Path} :
    p.isAbsolute = true ↔ p.components.head? = some .root := by
  constructor
  · intro h
    rw [components_of_isAbsolute h]
    rfl
  · intro h
    by_contra hrel
    simp only [components, hrel, if_false] at h
    split at h
    · cases h
    · have hmem := List.mem_of_mem_head? h
      obtain ⟨piece, -, hpiece⟩ := List.mem_filterMap.1 hmem
      exact component?_ne_root piece hpiece

theorem Same.isAbsolute {p q : Path} (h : p.Same q) (hq : q.isAbsolute = true) :
    p.isAbsolute = true := by
  rw [isAbsolute_iff_components] at hq ⊢
  rw [h]
  exact hq

theorem isAbsolute_join {p : Path} (hp : p.isAbsolute = true) (name : Bytes) :
    (p.join name).isAbsolute = true := by
  obtain ⟨rest, hbytes⟩ := isAbsolute_iff.1 hp
  unfold join
  split_ifs with hhead
  · exact hhead
  · exact isAbsolute_iff.2 ⟨rest ++ name, by rw [hbytes]; rfl⟩
  · exact isAbsolute_iff.2 ⟨rest ++ slash :: name, by rw [hbytes]; rfl⟩

/-- A name without a slash adds its component, if it has one. -/
theorem components_join {p : Path} {name : Bytes} (hp : p.isAbsolute = true)
    (hname : slash ∉ name) :
    (p.join name).components = p.components ++ (component? name).toList := by
  rw [components_of_isAbsolute (isAbsolute_join hp name), components_of_isAbsolute hp,
    pieces_join p hname, List.cons_append]

/-- A name without a slash leads one step down or stays in place. -/
theorem same_or_enclosing?_join {p : Path} {name : Bytes} (hp : p.isAbsolute = true)
    (hname : slash ∉ name) :
    (p.join name).Same p ∨ enclosing? (p.join name).components = some p.components := by
  have hjoin := components_join hp hname
  cases hcomponent : component? name with
  | none =>
    rw [hcomponent, Option.toList_none, List.append_nil] at hjoin
    exact .inl hjoin
  | some c =>
    rw [hcomponent, Option.toList_some] at hjoin
    right
    rw [hjoin, components_of_isAbsolute hp, enclosing?, if_neg (by simp), List.dropLast_concat]

/-- Two spellings of a directory are two spellings of what lies in it. -/
theorem Same.join {p q : Path} (h : p.Same q) (hq : q.isAbsolute = true) {name : Bytes}
    (hname : slash ∉ name) : (p.join name).Same (q.join name) := by
  have hp := h.isAbsolute hq
  change p.components = q.components at h
  change (p.join name).components = (q.join name).components
  rw [components_join hp hname, components_join hq hname, h]

/-! ## Paths from names -/

/-- The names one below the other from the root on, with a slash before each. -/
def ofNames (names : List Bytes) : Path := ⟨slash :: [slash].intercalate names⟩

theorem pieces_intercalate {name : Bytes} {names : List Bytes}
    (h : ∀ n ∈ name :: names, slash ∉ n) :
    pieces ([slash].intercalate (name :: names)) = name :: names := by
  induction names generalizing name with
  | nil =>
    have hone : [slash].intercalate [name] = name := by simp [List.intercalate]
    rw [hone]
    exact pieces_of_notMem (h name List.mem_cons_self)
  | cons next rest ih =>
    have hmore : [slash].intercalate (name :: next :: rest) =
        name ++ slash :: [slash].intercalate (next :: rest) := by
      simp [List.intercalate]
    rw [hmore, pieces_append_slash, pieces_of_notMem (h name List.mem_cons_self),
      ih fun n hn => h n (List.mem_cons_of_mem _ hn)]
    rfl

theorem isAbsolute_ofNames (names : List Bytes) : (ofNames names).isAbsolute = true :=
  isAbsolute_iff.2 ⟨_, rfl⟩

theorem components_ofNames {names : List Bytes} (h : ∀ n ∈ names, slash ∉ n) :
    (ofNames names).components = .root :: names.filterMap component? := by
  rw [components_of_isAbsolute (isAbsolute_ofNames names), ofNames, pieces_slash,
    List.filterMap_cons_none component?_nil]
  cases names with
  | nil => rfl
  | cons name rest => rw [pieces_intercalate h]

/-- A name more is a step down from the names before it. -/
theorem ofNames_append {names : List Bytes} {name : Bytes} (h : ∀ n ∈ names, slash ∉ n)
    (hname : slash ∉ name) : (ofNames (names ++ [name])).Same ((ofNames names).join name) := by
  have hall : ∀ n ∈ names ++ [name], slash ∉ n := by
    intro n hn
    rcases List.mem_append.1 hn with hn | hn
    · exact h n hn
    · rw [List.mem_singleton.1 hn]
      exact hname
  change Path.components _ = Path.components _
  rw [components_ofNames hall, components_join (isAbsolute_ofNames names) hname,
    components_ofNames h, List.filterMap_append, filterMap_component?_singleton, List.cons_append]

end EventTree.Path
