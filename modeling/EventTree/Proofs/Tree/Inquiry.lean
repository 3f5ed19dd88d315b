import EventTree.Tree.View

/-!
# Running inquiries

An inquiry asks its source at most once. Of the source it sees the answer alone, and what it
makes of the answer commutes with running it.
-/
namespace EventTree

theorem eq_ok_of_toOption {x : Except ε α} {a : α} (h : x.toOption = some a) : x = .ok a := by
  cases x with
  | error e => cases h
  | ok b => exact congrArg Except.ok (Option.some.inj h)

namespace Inquiry
variable {σ τ α β : Type} [QuerySource σ] [QuerySource τ]

/-! ## One query -/

/-- What an inquiry makes of the result of its query. -/
def conclude (policy : FailurePolicy) (use : List Event → Except TreeFault α) :
    Except QueryFault (List Event) → Except TreeFault α
  | .ok events => use events
  | .error fault =>
    match policy with
    | .lenient => use []
    | .strict => .error (.query fault)

theorem run_ask (policy : FailurePolicy) (source : σ) (filter : String)
    (use : List Event → Except TreeFault α) :
    (ask filter use).run policy source =
      (conclude policy use (QuerySource.query source filter).1,
        (QuerySource.query source filter).2) := by
  rcases hquery : QuerySource.query source filter with ⟨answer, next⟩
  cases answer with
  | ok events => simp only [run, hquery, conclude]
  | error fault => cases policy <;> simp only [run, hquery, conclude]

/-- Whatever is to be made of the answer, it is made of the same events, or the query failed. -/
theorem conclude_cases (policy : FailurePolicy) (answer : Except QueryFault (List Event)) :
    (∃ events, ∀ {α : Type} (use : List Event → Except TreeFault α),
      conclude policy use answer = use events) ∨
    ∃ fault, ∀ {α : Type} (use : List Event → Except TreeFault α),
      conclude policy use answer = .error (.query fault) := by
  cases answer with
  | ok events => exact .inl ⟨events, fun _ => rfl⟩
  | error fault =>
    cases policy with
    | lenient => exact .inl ⟨[], fun _ => rfl⟩
    | strict => exact .inr ⟨fault, fun _ => rfl⟩

/-- What keeps the faults of the index may be done before the query or after it. -/
theorem conclude_comp {g : Except TreeFault α → Except TreeFault β}
    (hg : ∀ fault, g (.error (.query fault)) = .error (.query fault)) (policy : FailurePolicy)
    (use : List Event → Except TreeFault α) (answer : Except QueryFault (List Event)) :
    conclude policy (fun events => g (use events)) answer = g (conclude policy use answer) := by
  rcases conclude_cases policy answer with ⟨events, hused⟩ | ⟨fault, hfailed⟩
  · rw [hused, hused]
  · rw [hfailed, hfailed, hg]

/-- A query that was used once is used again, as long as the source does not change. -/
theorem run_ask_again {policy : FailurePolicy}
    {source later : σ} {filter : String} {use : List Event → Except TreeFault α} {a : α}
    (h : ((ask filter use).run policy source).1 = .ok a)
    (hsame : (QuerySource.query later filter).1 = (QuerySource.query source filter).1) :
    ∃ events, use events = .ok a ∧ ∀ again : List Event → Except TreeFault β,
      ((ask filter again).run policy later).1 = again events := by
  rw [run_ask] at h
  rcases conclude_cases policy (QuerySource.query source filter).1 with
    ⟨events, hused⟩ | ⟨fault, hfailed⟩
  · refine ⟨events, (hused use).symm.trans h, fun again => ?_⟩
    rw [run_ask, hsame]
    exact hused again
  · rw [hfailed] at h
    cases h

theorem run_map (f : α → β) (q : Inquiry α) (policy : FailurePolicy) (source : σ) :
    (q.map f).run policy source =
      ((q.run policy source).1.map f, (q.run policy source).2) := by
  cases q with
  | settled answer => rfl
  | ask filter use =>
    rw [map, run_ask, run_ask, conclude_comp fun _ => rfl]

/-- Sources with the same answer to the filter that is asked are not told apart. -/
theorem run_congr (q : Inquiry α) (policy : FailurePolicy) {s : σ} {t : τ}
    (h : ∀ filter, q.filter? = some filter →
      (QuerySource.query s filter).1 = (QuerySource.query t filter).1) :
    (q.run policy s).1 = (q.run policy t).1 := by
  cases q with
  | settled answer => rfl
  | ask filter use => rw [run_ask, run_ask, h filter rfl]

end Inquiry
end EventTree
