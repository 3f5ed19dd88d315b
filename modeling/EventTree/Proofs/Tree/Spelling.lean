import EventTree.Mount.ErrorNumber
import EventTree.Proofs.Path.Places
import EventTree.Proofs.Tree.Inquiry

/-!
# Operations do not see the spelling of a path

Two spellings of one place have one node, and every operation asks the same filter and
makes the same of the answer. A fault that names a path names the spelling that was
given; in this alone the results differ.
-/
namespace EventTree

/-- The fault with `path` in the place of the path that it names, if it names one. -/
def TreeFault.relocate (path : Path) : TreeFault → TreeFault
  | .notFound _ => .notFound path
  | .permissionDenied _ => .permissionDenied path
  | .notADirectory _ => .notADirectory path
  | .isADirectory _ => .isADirectory path
  | .invalidPath _ => .invalidPath path
  | fault => fault

@[simp] theorem TreeFault.relocate_errorNumber (path : Path) (fault : TreeFault) :
    (fault.relocate path).errorNumber = fault.errorNumber := by
  cases fault <;> rfl

@[simp] theorem TreeFault.relocate_query (path : Path) (fault : QueryFault) :
    (query fault).relocate path = query fault := rfl

theorem mapError_mapError (g h : TreeFault → γ) (f : TreeFault → TreeFault)
    (hf : ∀ fault, g (f fault) = h fault) (answer : Except TreeFault α) :
    (answer.mapError f).mapError g = answer.mapError h := by
  cases answer with
  | ok a => rfl
  | error fault => exact congrArg Except.error (hf fault)

theorem map_mapError (f : α → β) (g : TreeFault → TreeFault) (answer : Except TreeFault α) :
    (answer.map f).mapError g = (answer.mapError g).map f := by
  cases answer <;> rfl

namespace Inquiry
variable {σ : Type} [QuerySource σ]

def mapFault (g : TreeFault → TreeFault) : Inquiry α → Inquiry α
  | .settled answer => .settled (answer.mapError g)
  | .ask filter use => .ask filter fun events => (use events).mapError g

theorem map_mapFault (f : α → β) (g : TreeFault → TreeFault) (q : Inquiry α) :
    (q.map f).mapFault g = (q.mapFault g).map f := by
  cases q with
  | settled answer => exact congrArg settled (map_mapError f g answer)
  | ask filter use => exact congrArg (ask filter) (funext fun _ => map_mapError f g _)

/-- Faults of the query itself are not those of the inquiry, so `g` must keep them. -/
theorem run_mapFault {g : TreeFault → TreeFault} (hg : ∀ fault, g (.query fault) = .query fault)
    (q : Inquiry α) (policy : FailurePolicy) (source : σ) :
    (q.mapFault g).run policy source =
      ((q.run policy source).1.mapError g, (q.run policy source).2) := by
  cases q with
  | settled answer => rfl
  | ask filter use =>
    rw [mapFault, run_ask, run_ask,
      conclude_comp fun fault => congrArg Except.error (hg fault)]

end Inquiry

/-! ## The operations under two spellings -/

/-- The node is that of the names, however the path begins. -/
theorem Path.node_eq_of_names? {p q : Path} (h : p.names? = q.names?) :
    p.node = q.node.mapError (·.relocate p) := by
  unfold node
  rw [h]
  cases q.names? with
  | none => rfl
  | some names =>
    cases hnode : Node.ofNames? names <;>
      simp [hnode, Except.mapError, TreeFault.relocate]

namespace Path.Same
variable {p q : Path}

theorem names? (h : p.Same q) : p.names? = q.names? :=
  congrArg namesOf? h

theorem node (h : p.Same q) : p.node = q.node.mapError (·.relocate p) :=
  node_eq_of_names? h.names?

theorem node_ok (h : p.Same q) {node : Node} (hq : q.node = .ok node) : p.node = .ok node := by
  rw [h.node, hq]
  rfl

theorem fieldContent (filter name : String) (events : List Event) :
    TreeView.fieldContent p filter name events =
      (TreeView.fieldContent q filter name events).mapError (·.relocate p) := by
  unfold TreeView.fieldContent
  rcases events with _ | ⟨e, _ | ⟨e', rest⟩⟩
  · rfl
  · cases hbytes : e.fileBytes? name <;>
      simp [singleEvent, hbytes, Except.mapError, TreeFault.relocate]
  · rfl

theorem askField (selector : Selector) (name : String) :
    TreeView.askField p selector name =
      (TreeView.askField q selector name).mapFault (·.relocate p) :=
  congrArg (Inquiry.ask _) (funext fun _ => fieldContent _ _ _)

theorem stat (h : p.Same q) :
    TreeView.stat p = (TreeView.stat q).mapFault (·.relocate p) := by
  unfold TreeView.stat
  rw [h.node]
  cases q.node with
  | error fault => rfl
  | ok node =>
    cases node with
    | field selector name =>
      simp only [Except.mapError]
      rw [Inquiry.map_mapFault, ← askField]
    | _ => rfl

theorem entries (h : p.Same q) :
    TreeView.entries p = (TreeView.entries q).mapFault (·.relocate p) := by
  have hof : ∀ filter node events, TreeView.entriesOf filter node events =
      (TreeView.entriesOf filter node events).mapError (·.relocate p) := by
    intro filter node events
    cases node with
    | record selector => rcases events with _ | ⟨e, _ | ⟨e', rest⟩⟩ <;> rfl
    | _ => rfl
  unfold TreeView.entries
  rw [h.node]
  cases q.node with
  | error fault => rfl
  | ok node =>
    cases node with
    | queryRoot => rfl
    | field selector name => rfl
    | _ => exact congrArg (Inquiry.ask _) (funext fun _ => hof _ _ _)

theorem content (h : p.Same q) (mode : OpenMode) :
    TreeView.content p mode = (TreeView.content q mode).mapFault (·.relocate p) := by
  unfold TreeView.content
  by_cases hmode : mode.wantsWriting = true
  · rw [if_pos hmode, if_pos hmode]
    rfl
  · rw [if_neg hmode, if_neg hmode, h.node]
    cases q.node with
    | error fault => rfl
    | ok node =>
      cases node with
      | field selector name =>
        simp only [Except.mapError]
        rw [Inquiry.map_mapFault, ← askField]
      | _ => rfl

end Path.Same
end EventTree
