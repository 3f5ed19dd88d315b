import EventTree.Proofs.Path.Names
import EventTree.Tree.View

/-!
# Nodes one below the other

The node of some names is reached one name at a time. Every directory has a node under
every name and a file has none, so how deep a list of names may go is a matter of the
names at its front alone. No two lists of names lead to one node.
-/
namespace EventTree
namespace Node

/-- The node under a name of a directory. -/
def child? : Node → String → Option Node
  | .root, name => some (if name = queryName then .queryRoot else .services none name)
  | .queryRoot, filter => some (.hosts filter)
  | .hosts filter, host => some (.services (some filter) host)
  | .services filter host, service => some (.record ⟨filter, host, service⟩)
  | .record selector, name => some (.field selector name)
  | .field .., _ => none

theorem underQuery?_concat (names : List String) (name : String) :
    underQuery? (names ++ [name]) = (underQuery? names).bind (·.child? name) := by
  rcases names with _ | ⟨filter, _ | ⟨host, _ | ⟨service, _ | ⟨field, rest⟩⟩⟩⟩
  · rfl
  · rfl
  · rfl
  · rfl
  · cases rest <;> rfl

theorem plain?_concat (host : String) (names : List String) (name : String) :
    plain? (host :: names ++ [name]) = (plain? (host :: names)).bind (·.child? name) := by
  rcases names with _ | ⟨service, _ | ⟨field, rest⟩⟩
  · rfl
  · rfl
  · cases rest <;> rfl

theorem ofNames?_concat (names : List String) (name : String) :
    ofNames? (names ++ [name]) = (ofNames? names).bind (·.child? name) := by
  cases names with
  | nil =>
    change (if name = queryName then underQuery? [] else plain? [name]) = _
    by_cases h : name = queryName <;> simp [h, ofNames?, plain?, underQuery?, child?]
  | cons first rest =>
    change (if first = queryName then underQuery? (rest ++ [name])
      else plain? (first :: rest ++ [name])) = _
    rw [underQuery?_concat, plain?_concat, ofNames?]
    split <;> rfl

/-- The names that lead to a node. -/
def names : Node → List String
  | .root => []
  | .queryRoot => [queryName]
  | .hosts filter => [queryName, filter]
  | .services filter host => filter.elim [host] ([queryName, ·, host])
  | .record s => s.filter.elim [s.host, s.service] ([queryName, ·, s.host, s.service])
  | .field s name =>
    s.filter.elim [s.host, s.service, name] ([queryName, ·, s.host, s.service, name])

theorem names_of_underQuery? {rest : List String} {node : Node}
    (h : underQuery? rest = some node) : node.names = queryName :: rest := by
  rcases rest with _ | ⟨filter, _ | ⟨host, _ | ⟨service, _ | ⟨field, _ | ⟨_, _⟩⟩⟩⟩⟩ <;>
    cases h <;> rfl

theorem names_of_plain? {names : List String} {node : Node} (h : plain? names = some node) :
    node.names = names := by
  rcases names with _ | ⟨host, _ | ⟨service, _ | ⟨field, _ | ⟨_, _⟩⟩⟩⟩ <;> cases h <;> rfl

/-- No other names lead to the node. -/
theorem names_of_ofNames? {names : List String} {node : Node} (h : ofNames? names = some node) :
    node.names = names := by
  cases names with
  | nil => exact names_of_plain? h
  | cons first rest =>
    rw [ofNames?] at h
    split at h
    · next hfirst =>
      rw [hfirst]
      exact names_of_underQuery? h
    · exact names_of_plain? h

end Node

theorem Path.node_eq_ok_iff {p : Path} {node : Node} :
    p.node = .ok node ↔ ∃ names, p.names? = some names ∧ Node.ofNames? names = some node := by
  unfold Path.node
  cases p.names? with
  | none => simp
  | some names => cases hnode : Node.ofNames? names <;> simp [hnode]

/-- A path without a node is unusable, or leads nowhere. -/
theorem Path.node_error {p : Path} {fault : TreeFault} (h : p.node = .error fault) :
    fault = .invalidPath p ∨ fault = .notFound p := by
  unfold Path.node at h
  split at h
  · cases h
    exact .inl rfl
  · split at h <;> cases h
    exact .inr rfl

/-- A node is at one place. -/
theorem Path.same_of_node {p q : Path} (hp : p.isAbsolute = true) (hq : q.isAbsolute = true)
    {node : Node} (hpnode : p.node = .ok node) (hqnode : q.node = .ok node) : p.Same q := by
  obtain ⟨names, hpnames, hof⟩ := Path.node_eq_ok_iff.1 hpnode
  obtain ⟨names', hqnames, hof'⟩ := Path.node_eq_ok_iff.1 hqnode
  obtain rfl : names = names' :=
    (Node.names_of_ofNames? hof).symm.trans (Node.names_of_ofNames? hof')
  exact (Path.components_of_names? hp hpnames).trans (Path.components_of_names? hq hqnames).symm

/-- A name that comes back as the last one leads to the child. -/
theorem Path.node_of_names {p q : Path} {node child : Node} {names : List String} {name : String}
    (hnode : p.node = .ok node) (hp : p.names? = some names)
    (hq : q.names? = some (names ++ [name])) (hchild : node.child? name = some child) :
    q.node = .ok child := by
  obtain ⟨names', hp', hof⟩ := Path.node_eq_ok_iff.1 hnode
  obtain rfl : names' = names := Option.some.inj (hp'.symm.trans hp)
  refine Path.node_eq_ok_iff.2 ⟨_, hq, ?_⟩
  rw [Node.ofNames?_concat, hof]
  exact hchild

end EventTree
