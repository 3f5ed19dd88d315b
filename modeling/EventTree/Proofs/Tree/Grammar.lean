import EventTree.Proofs.Tree.Nodes

/-!
# Names that lead to a node

How many names may follow one another is decided by the first: five where it is that of the
directory of filters, three where it is a host. What the names are does not count otherwise,
so a filter, a host or a field may be called like the directory of filters. The last level
holds the files and all before it directories, and the names can be told from the node.
-/
namespace EventTree.Node

theorem kind_eq_file_iff {node : Node} :
    node.kind = .file ↔ ∃ selector name, node = .field selector name := by
  cases node <;> simp [kind]

/-- A directory has a node under every name. -/
theorem child?_of_directory {node : Node} (h : node.kind = .directory) (name : String) :
    ∃ child, node.child? name = some child := by
  cases node with
  | field => cases h
  | _ => exact ⟨_, rfl⟩

/-! ## The two branches -/

theorem isSome_underQuery? {names : List String} :
    (underQuery? names).isSome = true ↔ names.length ≤ 4 := by
  rcases names with _ | ⟨filter, _ | ⟨host, _ | ⟨service, _ | ⟨field, _ | ⟨_, _⟩⟩⟩⟩⟩ <;>
    simp [underQuery?]

theorem isSome_plain? {names : List String} :
    (plain? names).isSome = true ↔ names.length ≤ 3 := by
  rcases names with _ | ⟨host, _ | ⟨service, _ | ⟨field, _ | ⟨_, _⟩⟩⟩⟩ <;> simp [plain?]

theorem kind_of_underQuery? {names : List String} {node : Node}
    (h : underQuery? names = some node) : node.kind = .file ↔ names.length = 4 := by
  rcases names with _ | ⟨filter, _ | ⟨host, _ | ⟨service, _ | ⟨field, _ | ⟨_, _⟩⟩⟩⟩⟩ <;>
    cases h <;> simp [kind]

theorem kind_of_plain? {names : List String} {node : Node} (h : plain? names = some node) :
    node.kind = .file ↔ names.length = 3 := by
  rcases names with _ | ⟨host, _ | ⟨service, _ | ⟨field, _ | ⟨_, _⟩⟩⟩⟩ <;> cases h <;> simp [kind]

/-! ## Both branches -/

/-- How many names there may be at most. -/
def reach (names : List String) : Nat := if names.head? = some queryName then 5 else 3

theorem reach_cons (first : String) (rest : List String) :
    reach (first :: rest) = if first = queryName then 5 else 3 := by
  simp [reach]

/-- Names behind the first do not count. -/
theorem reach_append {names : List String} (h : names ≠ []) (more : List String) :
    reach (names ++ more) = reach names := by
  obtain ⟨first, rest, rfl⟩ := List.exists_cons_of_ne_nil h
  rw [List.cons_append, reach_cons, reach_cons]

theorem isSome_ofNames? (names : List String) :
    (ofNames? names).isSome = true ↔ names.length ≤ reach names := by
  cases names with
  | nil => decide
  | cons first rest =>
    rw [ofNames?, reach_cons]
    split_ifs with hfirst
    · rw [isSome_underQuery?, List.length_cons]
      omega
    · exact isSome_plain?

/-- Files are where the names end. -/
theorem kind_of_ofNames? {names : List String} {node : Node} (h : ofNames? names = some node) :
    node.kind = .file ↔ names.length = reach names := by
  cases names with
  | nil =>
    cases h
    decide
  | cons first rest =>
    rw [ofNames?] at h
    rw [reach_cons]
    split_ifs at h ⊢ with hfirst
    · rw [kind_of_underQuery? h, List.length_cons]
      omega
    · exact kind_of_plain? h

theorem ofNames?_below_directory {names : List String} {node : Node}
    (h : ofNames? names = some node) (hkind : node.kind = .directory) (name : String) :
    ∃ child, ofNames? (names ++ [name]) = some child := by
  rw [ofNames?_concat, h]
  exact child?_of_directory hkind name

theorem ofNames?_below_file {names : List String} {node : Node} (h : ofNames? names = some node)
    (hkind : node.kind = .file) {more : List String} (hmore : more ≠ []) :
    ofNames? (names ++ more) = none := by
  have hlength := (kind_of_ofNames? h).1 hkind
  have hnames : names ≠ [] := by
    rintro rfl
    cases hlength
  rw [← Option.not_isSome_iff_eq_none, isSome_ofNames?, reach_append hnames, List.length_append]
  have hpos := List.length_pos_iff.2 hmore
  omega

/-- Names lead to a node unless there are too many; the node tells the names, and whether
there may be more. -/
theorem ofNames?_grammar (names : List String) :
    ((ofNames? names).isSome = true ↔
      names = [] ∨ (names.head? = some queryName ∧ names.length ≤ 5) ∨
        (names.head? ≠ some queryName ∧ names.length ≤ 3)) ∧
    ∀ node, ofNames? names = some node →
      node.names = names ∧
      (∀ others, ofNames? others = some node → others = names) ∧
      ((∃ selector name, node = .field selector name) ↔
        names.length = if names.head? = some queryName then 5 else 3) ∧
      (node.kind = .directory → ∀ name, ∃ child, ofNames? (names ++ [name]) = some child) ∧
      (node.kind = .file → ∀ more, more ≠ [] → ofNames? (names ++ more) = none) := by
  constructor
  · rw [isSome_ofNames?, reach]
    by_cases hfirst : names.head? = some queryName
    · have hnames : names ≠ [] := by
        rintro rfl
        cases hfirst
      simp [hfirst, hnames]
    · rw [if_neg hfirst]
      constructor
      · exact fun hlength => .inr (.inr ⟨hfirst, hlength⟩)
      · rintro (rfl | ⟨hquery, -⟩ | ⟨-, hlength⟩)
        · exact Nat.zero_le _
        · exact absurd hquery hfirst
        · exact hlength
  · intro node h
    refine ⟨names_of_ofNames? h, ?_, ?_, ?_, ?_⟩
    · intro others hothers
      rw [← names_of_ofNames? hothers, names_of_ofNames? h]
    · rw [← kind_eq_file_iff]
      exact kind_of_ofNames? h
    · exact ofNames?_below_directory h
    · exact fun hkind more => ofNames?_below_file h hkind

/-- A filter, a host and a service that are called like the directory of filters. -/
theorem ofNames?_grammar_of_one_name :
    let names := [queryName, queryName, queryName, queryName]
    let node := Node.record ⟨some queryName, queryName, queryName⟩
    ofNames? names = some node ∧ node.names = names ∧ node.kind = .directory ∧
      ∃ child, ofNames? (names ++ [queryName]) = some child := by
  intro names node
  have h : ofNames? names = some node := rfl
  obtain ⟨hnames, -, -, hbelow, -⟩ := (ofNames?_grammar names).2 node h
  exact ⟨h, hnames, rfl, hbelow rfl queryName⟩

end EventTree.Node
