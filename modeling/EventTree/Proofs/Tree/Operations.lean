import EventTree.Proofs.Tree.Inquiry

/-!
# Operations and their queries

What an operation asks is decided by the node of its path. A listing asks for the events of
a directory, the operations on files for the event of a field, and in every other case the
answer is known without the index: the path names no node, the node is of the other kind or
is the directory of filters, or the file was to be written. Of its source an operation sees
the result of that query alone.
-/
namespace EventTree

/-- A source that notes what it is asked. -/
structure Noting (σ : Type) where
  source : σ
  asked : List String := []

instance {σ : Type} [QuerySource σ] : QuerySource (Noting σ) where
  query s filter :=
    let (answer, source) := QuerySource.query s.source filter
    (answer, { source, asked := s.asked ++ [filter] })

namespace Inquiry
variable {σ α β : Type} [QuerySource σ]

/-- The notes show the filter that is asked, and nothing else comes of taking them. -/
theorem run_noting (q : Inquiry α) (policy : FailurePolicy) (s : Noting σ) :
    q.run policy s = ((q.run policy s.source).1,
      { source := (q.run policy s.source).2, asked := s.asked ++ q.filter?.toList }) := by
  cases q with
  | settled answer =>
    change (answer, s) = (answer, { s with asked := s.asked ++ [] })
    rw [List.append_nil]
  | ask filter use =>
    rw [run_ask, run_ask]
    rfl

@[simp] theorem filter?_map (f : α → β) (q : Inquiry α) : (q.map f).filter? = q.filter? := by
  cases q <;> rfl

end Inquiry

namespace TreeView

/-- A file has no content if there is no event, or several, or the event has no such field. -/
theorem fieldContent_error {path : Path} {filter name : String} {events : List Event}
    {fault : TreeFault} (h : fieldContent path filter name events = .error fault) :
    fault = .notFound path ∨ fault = .fieldNotFound name ∨
      ∃ count, fault = .ambiguous filter count := by
  unfold fieldContent at h
  rcases events with _ | ⟨e, _ | ⟨_, _⟩⟩
  · cases h
    exact .inl rfl
  · simp only [singleEvent] at h
    split at h <;> cases h
    exact .inr (.inl rfl)
  · cases h
    exact .inr (.inr ⟨_, rfl⟩)

/-- A directory is listed unless it is that of one event and there are several. -/
theorem entriesOf_error {filter : String} {node : Node} {events : List Event} {fault : TreeFault}
    (h : entriesOf filter node events = .error fault) :
    ∃ count, fault = .ambiguous filter count := by
  cases node with
  | record selector =>
    rcases events with _ | ⟨e, _ | ⟨_, _⟩⟩
    · cases h
    · cases h
    · cases h
      exact ⟨_, rfl⟩
  | _ => cases h

/-! ## Operations -/

inductive Operation where
  | entries
  | stat
  | content (mode : OpenMode)
  | read (offset size : Nat)
deriving DecidableEq, Repr

namespace Operation

def Result : Operation → Type
  | .entries => List Entry
  | .stat => Stat
  | .content _ | .read .. => Bytes

def inquiry : (operation : Operation) → Path → Inquiry operation.Result
  | .entries, path => TreeView.entries path
  | .stat, path => TreeView.stat path
  | .content mode, path => TreeView.content path mode
  | .read offset size, path => TreeView.read path offset size

/-- The operation has to look at the events of the node. -/
def Asks (operation : Operation) (node : Node) : Prop :=
  match operation with
  | .entries => node.kind = .directory ∧ node ≠ .queryRoot
  | .stat | .read .. => node.kind = .file
  | .content mode => node.kind = .file ∧ mode.wantsWriting = false

instance (operation : Operation) (node : Node) : Decidable (operation.Asks node) :=
  match operation with
  | .entries => inferInstanceAs (Decidable (node.kind = .directory ∧ node ≠ .queryRoot))
  | .stat | .read .. => inferInstanceAs (Decidable (node.kind = .file))
  | .content mode => inferInstanceAs (Decidable (node.kind = .file ∧ mode.wantsWriting = false))

/-- What an operation asks of the index: the filter of the node, if it looks at its events. -/
def filter? (operation : Operation) (path : Path) : Option String :=
  match path.node with
  | .error _ => none
  | .ok node => if operation.Asks node then Filter.ofNode? node else none

/-- Every node that an operation looks at the events of has a filter. -/
theorem ofNode?_of_asks {operation : Operation} {node : Node} (h : operation.Asks node) :
    ∃ filter, Filter.ofNode? node = some filter := by
  cases node with
  | queryRoot =>
    cases operation with
    | entries => exact absurd rfl h.2
    | content mode => cases h.1
    | _ => cases h
  | _ => exact ⟨_, rfl⟩

theorem filter?_of_node {path : Path} {node : Node} (hnode : path.node = .ok node)
    (operation : Operation) :
    operation.filter? path = if operation.Asks node then Filter.ofNode? node else none := by
  rw [filter?, hnode]

theorem filter?_eq_some_iff {operation : Operation} {path : Path} {filter : String} :
    operation.filter? path = some filter ↔
      ∃ node, path.node = .ok node ∧ operation.Asks node ∧
        Filter.ofNode? node = some filter := by
  cases hnode : path.node with
  | error fault => simp [filter?, hnode]
  | ok node => simp [filter?_of_node hnode]

theorem filter?_eq_none_iff {operation : Operation} {path : Path} :
    operation.filter? path = none ↔ ∀ node, path.node = .ok node → ¬operation.Asks node := by
  constructor
  · intro h node hnode hasks
    obtain ⟨filter, hfilter⟩ := ofNode?_of_asks hasks
    rw [filter?_eq_some_iff.2 ⟨node, hnode, hasks, hfilter⟩] at h
    cases h
  · intro h
    cases hfilter : operation.filter? path with
    | none => rfl
    | some filter =>
      obtain ⟨node, hnode, hasks, -⟩ := filter?_eq_some_iff.1 hfilter
      exact absurd hasks (h node hnode)

theorem entries_filter?_eq (path : Path) :
    (TreeView.entries path).filter? = Operation.entries.filter? path := by
  unfold TreeView.entries
  cases hnode : path.node with
  | error fault => simp only [filter?, hnode, Inquiry.filter?]
  | ok node =>
    rw [filter?_of_node hnode]
    cases node <;> rfl

theorem stat_filter? (path : Path) :
    (TreeView.stat path).filter? = Operation.stat.filter? path := by
  unfold TreeView.stat
  cases hnode : path.node with
  | error fault => simp only [filter?, hnode, Inquiry.filter?]
  | ok node =>
    rw [filter?_of_node hnode]
    cases node <;> rfl

theorem content_filter? (path : Path) (mode : OpenMode) :
    (TreeView.content path mode).filter? = (Operation.content mode).filter? path := by
  unfold TreeView.content
  cases hmode : mode.wantsWriting with
  | true =>
    cases hnode : path.node with
    | error fault => simp only [filter?, hnode, if_true, Inquiry.filter?]
    | ok node =>
      rw [filter?_of_node hnode, if_pos rfl, if_neg]
      · rfl
      · exact fun h => absurd (hmode.symm.trans h.2) (by decide)
  | false =>
    cases hnode : path.node with
    | error fault => simp only [filter?, hnode, Bool.false_eq_true, if_false, Inquiry.filter?]
    | ok node =>
      rw [filter?_of_node hnode, if_neg Bool.false_ne_true]
      simp only [Asks, hmode]
      cases node <;> rfl

theorem asks_read {offset size : Nat} {node : Node} :
    (read offset size).Asks node ↔ (content .reading).Asks node :=
  ⟨fun h => ⟨h, rfl⟩, And.left⟩

/-- An operation asks nothing but the filter of its node. -/
theorem inquiry_filter? (operation : Operation) (path : Path) :
    (operation.inquiry path).filter? = operation.filter? path := by
  cases operation with
  | entries => exact entries_filter?_eq path
  | stat => exact stat_filter? path
  | content mode => exact content_filter? path mode
  | read offset size =>
    change (TreeView.read path offset size).filter? = _
    rw [TreeView.read, Inquiry.filter?_map, content_filter?]
    simp only [filter?, asks_read]

end Operation

end TreeView
end EventTree
