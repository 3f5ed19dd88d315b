import EventTree.Proofs.Tree.Nodes
import EventTree.Proofs.Tree.Operations

/-!
# Failed queries

What a failed query means for the operation behind it is left to the policy. A lenient tree
takes it for an answer without events, so its directories are empty then and its files are
not there. A strict one hands the fault on. This is the only way in which a fault of the
index reaches a caller: no operation makes one up, and an operation that asks nothing gives
the same under both.
-/
namespace EventTree

namespace Inquiry
variable {σ τ α β : Type} [QuerySource σ] [QuerySource τ]

/-! ## Faults of the index -/

/-- No fault of the index is made up. -/
def Honest : Inquiry α → Prop
  | .settled answer => ∀ reason, answer ≠ .error (.query reason)
  | .ask _ use => ∀ events reason, use events ≠ .error (.query reason)

theorem map_ne_query {answer : Except TreeFault α}
    (h : ∀ reason, answer ≠ .error (.query reason)) (f : α → β) (reason : QueryFault) :
    answer.map f ≠ .error (.query reason) := by
  cases answer with
  | ok a => nofun
  | error fault =>
    intro heq
    exact h reason (congrArg Except.error (Except.error.inj heq))

theorem Honest.map {q : Inquiry α} (h : q.Honest) (f : α → β) : (q.map f).Honest := by
  cases q with
  | settled answer => exact map_ne_query h f
  | ask filter use => exact fun events => map_ne_query (h events) f

theorem Honest.lenient_ne_query {q : Inquiry α} (h : q.Honest) (source : σ)
    (reason : QueryFault) : (q.run .lenient source).1 ≠ .error (.query reason) := by
  cases q with
  | settled answer => exact h reason
  | ask filter use =>
    rw [run_ask]
    cases (QuerySource.query source filter).1 with
    | ok events => exact h events reason
    | error fault => exact h [] reason

/-! ## One inquiry under both policies -/

theorem lenient_of_failing (q : Inquiry α) {failing : σ} {silent : τ} {fault : QueryFault}
    (hfailing : ∀ filter, (QuerySource.query failing filter).1 = .error fault)
    (hsilent : ∀ filter, (QuerySource.query silent filter).1 = .ok []) :
    (q.run .lenient failing).1 = (q.run .lenient silent).1 := by
  cases q with
  | settled answer => rfl
  | ask filter use =>
    rw [run_ask, run_ask, hfailing, hsilent]
    rfl

theorem policies_agree_of_serving (q : Inquiry α) {serving : σ}
    (hserving : ∀ filter, ∃ events, (QuerySource.query serving filter).1 = .ok events) :
    (q.run .strict serving).1 = (q.run .lenient serving).1 := by
  cases q with
  | settled answer => rfl
  | ask filter use =>
    obtain ⟨events, hevents⟩ := hserving filter
    rw [run_ask, run_ask, hevents]
    rfl

theorem policies_agree_of_settled {q : Inquiry α} (h : q.filter? = none) (source : σ) :
    (q.run .strict source).1 = (q.run .lenient source).1 := by
  cases q with
  | settled answer => rfl
  | ask filter use => cases h

/-- A strict inquiry fails with the fault of the index exactly if it asks. -/
theorem Honest.strict_eq_iff {q : Inquiry α} (h : q.Honest) {source : σ} {fault : QueryFault}
    (hfailing : ∀ filter, (QuerySource.query source filter).1 = .error fault) :
    (q.run .strict source).1 = .error (.query fault) ↔ q.filter? ≠ none := by
  cases q with
  | settled answer => exact iff_of_false (h fault) (· rfl)
  | ask filter use =>
    rw [run_ask, hfailing]
    exact iff_of_true rfl nofun

end Inquiry

namespace TreeView

/-! ## No operation makes up a fault of the index -/

theorem error_ne_query {path : Path} {fault : TreeFault} (h : path.node = .error fault)
    (reason : QueryFault) : (.error fault : Except TreeFault α) ≠ .error (.query reason) := by
  rcases Path.node_error h with rfl | rfl <;> nofun

theorem fieldContent_ne_query (path : Path) (filter name : String) (events : List Event)
    (reason : QueryFault) : fieldContent path filter name events ≠ .error (.query reason) := by
  intro h
  rcases fieldContent_error h with heq | heq | ⟨count, heq⟩ <;> cases heq

theorem askField_honest (path : Path) (selector : Selector) (name : String) :
    (askField path selector name).Honest :=
  fieldContent_ne_query path _ name

theorem entriesOf_ne_query (filter : String) (node : Node) (events : List Event)
    (reason : QueryFault) : entriesOf filter node events ≠ .error (.query reason) := by
  intro h
  obtain ⟨count, heq⟩ := entriesOf_error h
  cases heq

theorem entries_honest (path : Path) : (entries path).Honest := by
  unfold entries
  cases hnode : path.node with
  | error fault => exact error_ne_query hnode
  | ok node =>
    cases node with
    | queryRoot => nofun
    | field selector name => nofun
    | _ => exact entriesOf_ne_query _ _

theorem stat_honest (path : Path) : (stat path).Honest := by
  unfold stat
  cases hnode : path.node with
  | error fault => exact error_ne_query hnode
  | ok node =>
    cases node with
    | field selector name => exact (askField_honest path selector name).map _
    | _ => nofun

theorem content_honest (path : Path) (mode : OpenMode) : (content path mode).Honest := by
  unfold content
  split
  · nofun
  · cases hnode : path.node with
    | error fault => exact error_ne_query hnode
    | ok node =>
      cases node with
      | field selector name => exact (askField_honest path selector name).map _
      | _ => nofun

theorem Operation.honest (operation : Operation) (path : Path) :
    (operation.inquiry path).Honest := by
  cases operation with
  | entries => exact entries_honest path
  | stat => exact stat_honest path
  | content mode => exact content_honest path mode
  | read offset size => exact (content_honest path .reading).map _

/-! ## What the policy decides -/

/-- Without events there is nothing in a directory but the filters, which are at the root. -/
theorem entries_of_silent {σ : Type} [QuerySource σ] {silent : σ}
    (hsilent : ∀ filter, (QuerySource.query silent filter).1 = .ok []) {path : Path} {node : Node}
    (hnode : path.node = .ok node) (hkind : node.kind = .directory) (policy : FailurePolicy) :
    ((entries path).run policy silent).1 =
      .ok (if node = .root then [.directory Node.queryName] else []) := by
  unfold entries
  rw [hnode]
  cases node with
  | field selector name => cases hkind
  | queryRoot => rfl
  | _ =>
    simp only [Filter.ofNode?]
    rw [Inquiry.run_ask, hsilent]
    rfl

/-- Over an index that fails, a lenient tree is the tree of an index without events, and a
strict one fails wherever it asks. An index that answers leaves the policy nothing to decide. -/
theorem policy_decides_failed_query {σ τ υ : Type} [QuerySource σ] [QuerySource τ]
    [QuerySource υ] {failing : σ} {silent : τ} {serving : υ} {fault : QueryFault}
    (hfailing : ∀ filter, (QuerySource.query failing filter).1 = .error fault)
    (hsilent : ∀ filter, (QuerySource.query silent filter).1 = .ok [])
    (hserving : ∀ filter, ∃ events, (QuerySource.query serving filter).1 = .ok events)
    (operation : Operation) (path : Path) :
    let inquiry := operation.inquiry path
    let asked := (inquiry.run .strict ({ source := failing } : Noting σ)).2.asked
    (inquiry.run .lenient failing).1 = (inquiry.run .lenient silent).1 ∧
    (∀ reason, (inquiry.run .lenient failing).1 ≠ .error (.query reason)) ∧
    (∀ node, path.node = .ok node → node.kind = .directory →
      ((entries path).run .lenient failing).1 =
        .ok (if node = .root then [.directory Node.queryName] else [])) ∧
    ((inquiry.run .strict failing).1 = .error (.query fault) ↔ asked ≠ []) ∧
    (asked = [] → (inquiry.run .strict failing).1 = (inquiry.run .lenient failing).1) ∧
    (inquiry.run .strict serving).1 = (inquiry.run .lenient serving).1 := by
  intro inquiry asked
  have hhonest : inquiry.Honest := operation.honest path
  have hasked : asked = inquiry.filter?.toList :=
    congrArg (·.2.asked) (inquiry.run_noting .strict { source := failing })
  have hnone : asked = [] ↔ inquiry.filter? = none := by
    rw [hasked, Option.toList_eq_nil_iff]
  refine ⟨inquiry.lenient_of_failing hfailing hsilent, hhonest.lenient_ne_query failing, ?_, ?_,
    ?_, inquiry.policies_agree_of_serving hserving⟩
  · intro node hnode hkind
    rw [(entries path).lenient_of_failing hfailing hsilent]
    exact entries_of_silent hsilent hnode hkind .lenient
  · rw [hhonest.strict_eq_iff hfailing, ne_eq, ne_eq, hnone]
  · intro h
    exact Inquiry.policies_agree_of_settled (hnone.1 h) failing

/-- The file of an event that cannot be asked for, and the directory that it lies in. -/
theorem policy_decides_failed_query_of_file :
    let failing : String → Except QueryFault (List Event) := fun _ => .error .timeout
    let file := Path.ofString "/a/b/State"
    let record := Path.ofString "/a/b"
    ((stat file).run .strict failing).1 = .error (.query .timeout) ∧
    ((stat file).run .lenient failing).1 = .error (.notFound file) ∧
    ((stat record).run .strict failing).1 = .ok .directory ∧
    ((entries record).run .lenient failing).1 = .ok [] := by
  intro failing file record
  let silent : String → Except QueryFault (List Event) := fun _ => .ok []
  have hfailing : ∀ filter, (QuerySource.query failing filter).1 = .error .timeout := fun _ => rfl
  have hsilent : ∀ filter, (QuerySource.query silent filter).1 = .ok [] := fun _ => rfl
  have hserving : ∀ filter, ∃ events, (QuerySource.query silent filter).1 = .ok events :=
    fun _ => ⟨[], rfl⟩
  have hfile := policy_decides_failed_query hfailing hsilent hserving .stat file
  have hrecord := policy_decides_failed_query hfailing hsilent hserving .stat record
  obtain ⟨hlenient, -, -, hstrict, -, -⟩ := hfile
  obtain ⟨-, -, hempty, -, hsame, -⟩ := hrecord
  have hfield : file.node = .ok (.field ⟨none, "a", "b"⟩ "State") :=
    eq_ok_of_toOption (by decide +kernel)
  have hnode : record.node = .ok (.record ⟨none, "a", "b"⟩) :=
    eq_ok_of_toOption (by decide +kernel)
  have hgone : ((stat file).run .lenient silent).1 = .error (.notFound file) := by
    rw [stat, hfield]
    rfl
  have hdirectory : ((stat record).run .lenient failing).1 = .ok .directory := by
    rw [stat, hnode]
    rfl
  exact ⟨hstrict.2 (by decide +kernel), hlenient.trans hgone,
    (hsame (by decide +kernel)).trans hdirectory, hempty _ hnode rfl⟩

end TreeView
end EventTree
