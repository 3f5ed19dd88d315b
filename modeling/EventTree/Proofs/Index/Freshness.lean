import EventTree.Index.Scripted
import EventTree.Proofs.Tree.Operations

/-!
# One query for each answer

The index changes while the tree is in use. Each operation asks it for the events of its node
at most once, so what it was asked is the operations' filters one behind the other. Nothing
is kept between them: what an operation sees is the answer to its own filter at that time,
which the changes alone have made.
-/
namespace EventTree

/-- What happens to an index while a tree shows it. -/
inductive ScriptedIndex.Step where
  | operate (policy : FailurePolicy) (operation : TreeView.Operation) (path : Path)
  | respond (filter : String) (events : List Event)
  | setFailing (failing : Bool)
deriving DecidableEq

namespace ScriptedIndex

/-- The filter that a step asks, which only an operation does. -/
def Step.filter? : Step → Option String
  | .operate _ operation path => operation.filter? path
  | _ => none

/-- The step is no operation. -/
def Step.isChange : Step → Bool
  | .operate .. => false
  | _ => true

def step (s : ScriptedIndex) : Step → ScriptedIndex
  | .operate policy operation path => ((operation.inquiry path).run policy s).2
  | .respond filter events => s.respond filter events
  | .setFailing failing => { s with failing }

def stepAll (s : ScriptedIndex) (steps : List Step) : ScriptedIndex := steps.foldl step s

/-! ## What is asked -/

/-- An inquiry leaves nothing but its filter behind. -/
theorem run_snd (q : Inquiry α) (policy : FailurePolicy) (s : ScriptedIndex) :
    (q.run policy s).2 = { s with asked := s.asked ++ q.filter?.toList } := by
  cases q with
  | settled answer =>
    change s = { s with asked := s.asked ++ [] }
    rw [List.append_nil]
  | ask filter use =>
    rw [Inquiry.run_ask]
    rfl

theorem step_operate (s : ScriptedIndex) (policy : FailurePolicy)
    (operation : TreeView.Operation) (path : Path) :
    s.step (.operate policy operation path) =
      { s with asked := s.asked ++ (operation.filter? path).toList } := by
  rw [step, run_snd, TreeView.Operation.inquiry_filter?]

theorem step_asked (s : ScriptedIndex) (step : Step) :
    (s.step step).asked = s.asked ++ step.filter?.toList := by
  cases step with
  | operate policy operation path => rw [step_operate, Step.filter?]
  | respond filter events => exact (List.append_nil _).symm
  | setFailing failing => exact (List.append_nil _).symm

theorem stepAll_asked (s : ScriptedIndex) (steps : List Step) :
    (s.stepAll steps).asked = s.asked ++ steps.filterMap Step.filter? := by
  induction steps generalizing s with
  | nil => exact (List.append_nil _).symm
  | cons step rest ih =>
    rw [stepAll, List.foldl_cons, ← stepAll, ih, step_asked, List.append_assoc]
    cases hfilter : step.filter? with
    | none => rw [List.filterMap_cons_none hfilter, Option.toList_none, List.nil_append]
    | some filter =>
      rw [List.filterMap_cons_some hfilter, Option.toList_some, List.singleton_append]

/-! ## What is answered -/

/-- The index as if it had not been asked anything. -/
def unasked (s : ScriptedIndex) : ScriptedIndex := { s with asked := [] }

theorem unasked_ask (s : ScriptedIndex) (filter : String) :
    (s.unasked.ask filter).1 = (s.ask filter).1 := rfl

/-- Operations come and go without a trace but the filters asked. -/
theorem unasked_stepAll (s : ScriptedIndex) (steps : List Step) :
    (s.stepAll steps).unasked = s.unasked.stepAll (steps.filter Step.isChange) := by
  induction steps generalizing s with
  | nil => rfl
  | cons step rest ih =>
    rw [stepAll, List.foldl_cons, ← stepAll, ih]
    cases step with
    | operate policy operation path =>
      rw [step_operate]
      rfl
    | respond filter events => rfl
    | setFailing failing => rfl

theorem stepAll_ask (s : ScriptedIndex) (steps : List Step) (filter : String) :
    ((s.stepAll steps).ask filter).1 =
      ((s.stepAll (steps.filter Step.isChange)).ask filter).1 := by
  have hchanges := unasked_stepAll s (steps.filter Step.isChange)
  rw [List.filter_filter] at hchanges
  simp only [Bool.and_self] at hchanges
  rw [← unasked_ask, unasked_stepAll, ← hchanges, unasked_ask]

/-- Whatever happens to the index, an operation asks it once for the events of its node or
not at all, and sees of it the answer to that filter alone, as the changes have left it. -/
theorem operations_ask_once (start : ScriptedIndex) (steps : List Step) :
    (start.stepAll steps).asked = start.asked ++ steps.filterMap Step.filter? ∧
    ∀ before policy operation path after,
      steps = before ++ .operate policy operation path :: after →
      let index := start.stepAll before
      let asked := operation.filter? path
      let answer := (operation.inquiry path).run policy index
      (asked = none ↔ ∀ node, path.node = .ok node → ¬operation.Asks node) ∧
      (∀ filter, asked = some filter ↔
        ∃ node, path.node = .ok node ∧ operation.Asks node ∧
          Filter.ofNode? node = some filter) ∧
      answer.2.asked = index.asked ++ asked.toList ∧
      (∀ {τ : Type} [QuerySource τ] (other : τ),
        (∀ filter, asked = some filter →
          (QuerySource.query other filter).1 = (index.ask filter).1) →
        ((operation.inquiry path).run policy other).1 = answer.1) ∧
      ∀ filter, (index.ask filter).1 =
        ((start.stepAll (before.filter Step.isChange)).ask filter).1 := by
  refine ⟨start.stepAll_asked steps, ?_⟩
  rintro before policy operation path after -
  intro index asked answer
  have hfilter : (operation.inquiry path).filter? = asked := operation.inquiry_filter? path
  refine ⟨TreeView.Operation.filter?_eq_none_iff, fun _ => TreeView.Operation.filter?_eq_some_iff,
    ?_, ?_, start.stepAll_ask before⟩
  · exact congrArg ScriptedIndex.asked (index.step_operate policy operation path)
  · intro τ _ other hsame
    apply Inquiry.run_congr
    intro filter hq
    exact hsame filter (hfilter ▸ hq)

/-- A file is looked at, its index begins to fail, and it is opened. -/
theorem operations_ask_once_while_failing :
    let file := Path.ofString "/a/b/State"
    let filter := "host = \"a\" and service = \"b\""
    let steps : List Step :=
      [.respond filter [{ host := "a", service := "b", state := "ok" }],
        .operate .strict .stat file, .operate .lenient .entries .root, .setFailing true,
        .operate .strict (.content .reading) file, .operate .strict .stat .root]
    let broken : String → Except QueryFault (List Event) :=
      fun _ => .error (.transport "memory store set to fail")
    (stepAll {} steps).asked = [filter, "true", filter] ∧
    ((TreeView.content file .reading).run .strict broken).1 =
      ((TreeView.content file .reading).run .strict (stepAll {} (steps.take 4))).1 := by
  intro file filter steps broken
  obtain ⟨hlog, hops⟩ := operations_ask_once {} steps
  obtain ⟨-, -, -, hanswer, hchanges⟩ := hops (steps.take 4) .strict (.content .reading) file
    [.operate .strict .stat .root] rfl
  refine ⟨hlog.trans (by decide +kernel), hanswer broken ?_⟩
  intro asked _
  exact (hchanges asked).symm

end ScriptedIndex
end EventTree
