import EventTree.Proofs.Remote.OwnAnswers

/-!
# What comes of a list of commands

Commands that reach a client one behind the other have their outcomes fixed by their order:
the queries in front of the first shutdown are run, each on what the one before has left,
and all that comes behind it is turned away. A shared client gives the calls that wait for
it these outcomes.
-/
namespace EventTree
variable {ν : Type} [Network ν]

namespace Client

/-- The client after queries. -/
def queryAll (c : Client ν) (filters : List String) : Client ν :=
  filters.foldl (fun c filter => (c.query filter).2) c

def fates (c : Client ν) : List Command → List Outcome
  | [] => []
  | .query filter :: rest => .answered (c.query filter).1 :: fates (c.query filter).2 rest
  | .shutdown :: rest => .stopped :: rest.map Command.turnedAway

end Client

/-- The filters of the queries in front of the first shutdown. -/
def Command.ahead : List Command → List String
  | .query filter :: rest => filter :: ahead rest
  | _ => []

theorem Command.ahead_queries (filters : List String) (rest : List Command) :
    ahead (filters.map .query ++ rest) = filters ++ ahead rest := by
  induction filters with
  | nil => rfl
  | cons filter filters ih => exact congrArg (filter :: ·) ih

namespace Client

theorem disconnect_of_none {c : Client ν} (h : c.connection = none) : c.disconnect = c := by
  simp only [disconnect, h]

theorem queryAll_concat (c : Client ν) (filters : List String) (filter : String) :
    c.queryAll (filters ++ [filter]) = ((c.queryAll filters).query filter).2 :=
  List.foldl_concat _ _ _ _

theorem length_fates (c : Client ν) (commands : List Command) :
    (c.fates commands).length = commands.length := by
  induction commands generalizing c with
  | nil => rfl
  | cons command rest ih =>
    cases command with
    | query filter => exact congrArg (· + 1) (ih _)
    | shutdown => exact congrArg (· + 1) (List.length_map _)

/-- Later commands do not change what comes of earlier ones. -/
theorem fates_prefix (c : Client ν) (commands more : List Command) :
    c.fates commands <+: c.fates (commands ++ more) := by
  induction commands generalizing c with
  | nil => exact List.nil_prefix
  | cons command rest ih =>
    cases command with
    | query filter => exact List.cons_prefix_cons.2 ⟨rfl, ih _⟩
    | shutdown =>
      rw [List.cons_append, fates, fates, List.map_append]
      exact List.cons_prefix_cons.2 ⟨rfl, List.prefix_append _ _⟩

theorem fates_append {c : Client ν} {commands : List Command} {n : Nat} {o : Outcome}
    (h : (c.fates commands)[n]? = some o) (more : List Command) :
    (c.fates (commands ++ more))[n]? = some o := by
  obtain ⟨later, hlater⟩ := c.fates_prefix commands more
  rw [← hlater, List.getElem?_append_left (List.getElem?_eq_some_iff.1 h).1, h]

theorem fates_queries (c : Client ν) (filters : List String) (rest : List Command) (i : Nat) :
    (c.fates (filters.map .query ++ rest))[filters.length + i]? =
      ((c.queryAll filters).fates rest)[i]? := by
  induction filters generalizing c with
  | nil =>
    rw [List.length_nil, Nat.zero_add]
    rfl
  | cons filter filters ih =>
    rw [List.map_cons, List.cons_append, List.length_cons, Nat.add_right_comm, fates,
      List.getElem?_cons_succ, ih]
    rfl

theorem fates_query (c : Client ν) (filters : List String) (filter : String)
    (rest : List Command) :
    (c.fates (filters.map .query ++ .query filter :: rest))[filters.length]? =
      some (.answered ((c.queryAll filters).query filter).1) :=
  c.fates_queries filters (.query filter :: rest) 0

theorem fates_shutdown (c : Client ν) (filters : List String) (rest : List Command) :
    (c.fates (filters.map .query ++ .shutdown :: rest))[filters.length]? = some .stopped :=
  c.fates_queries filters (.shutdown :: rest) 0

theorem getElem?_behind {filters : List String} {command : Command} {rest : List Command} {n : Nat}
    (hn : filters.length < n) :
    (filters.map Command.query ++ command :: rest)[n]? = rest[n - (filters.length + 1)]? := by
  have hn' : n - filters.length = n - (filters.length + 1) + 1 := by omega
  rw [List.getElem?_append_right (by rw [List.length_map]; exact Nat.le_of_lt hn),
    List.length_map, hn', List.getElem?_cons_succ]

theorem fates_behind (c : Client ν) {filters : List String} {rest : List Command} {n : Nat}
    {command : Command} (hn : filters.length < n)
    (hcommand : (filters.map .query ++ .shutdown :: rest)[n]? = some command) :
    (c.fates (filters.map .query ++ .shutdown :: rest))[n]? = some command.turnedAway := by
  have hn' : n = filters.length + (n - (filters.length + 1) + 1) := by omega
  rw [getElem?_behind hn] at hcommand
  rw [hn', fates_queries, fates, List.getElem?_cons_succ, List.getElem?_map, hcommand]
  rfl

end Client

/-- Calls in the order of their numbers, beginning with `first`. -/
def Call.numbered (first : Nat) : List Command → List Call
  | [] => []
  | command :: rest => ⟨first, command⟩ :: numbered (first + 1) rest

namespace Call

theorem numbered_concat (first : Nat) (commands : List Command) (command : Command) :
    numbered first (commands ++ [command]) =
      numbered first commands ++ [⟨first + commands.length, command⟩] := by
  induction commands generalizing first with
  | nil => rfl
  | cons c rest ih =>
    rw [List.cons_append, numbered, ih, numbered, List.cons_append, List.length_cons,
      Nat.add_right_comm, Nat.add_assoc]

theorem mem_numbered {first : Nat} {commands : List Command} {call : Call}
    (h : call ∈ numbered first commands) :
    first ≤ call.number ∧ commands[call.number - first]? = some call.command := by
  induction commands generalizing first with
  | nil => cases h
  | cons c rest ih =>
    rcases List.mem_cons.1 h with rfl | h
    · exact ⟨Nat.le_refl _, by rw [Nat.sub_self]; rfl⟩
    · obtain ⟨hle, hcommand⟩ := ih h
      refine ⟨Nat.le_of_succ_le hle, ?_⟩
      rw [← hcommand, show call.number - first = call.number - (first + 1) + 1 by omega,
        List.getElem?_cons_succ]

theorem length_numbered (first : Nat) (commands : List Command) :
    (numbered first commands).length = commands.length := by
  induction commands generalizing first with
  | nil => rfl
  | cons c rest ih => exact congrArg (· + 1) (ih _)

end Call

/-! ## A shared client -/

namespace SharedClient

theorem repeat_succ {α : Type} (f : α → α) (n : Nat) (a : α) :
    Nat.repeat f (n + 1) a = Nat.repeat f n (f a) := by
  induction n with
  | zero => rfl
  | succ n ih => exact congrArg f ih

/-- Takes calls without running any. -/
theorem submitAll_eq (commands : List Command) {s : SharedClient ν} (numbers : List Nat)
    (hopen : s.client.closed = false) :
    commands.foldl (fun (numbers, s) command =>
        let (number, s) := s.submit command
        (numbers ++ [number], s)) (numbers, s) =
      (numbers ++ List.range' s.next commands.length,
        { s with
          waiting := s.waiting ++ Call.numbered s.next commands
          next := s.next + commands.length }) := by
  induction commands generalizing s numbers with
  | nil => simp only [List.foldl_nil, List.length_nil, List.range'_zero, List.append_nil,
      Call.numbered, Nat.add_zero]
  | cons command rest ih =>
    have hsubmit : s.submit command = (s.next,
        { s with next := s.next + 1, waiting := s.waiting ++ [⟨s.next, command⟩] }) := by
      simp only [submit, hopen, Bool.false_eq_true, if_false]
    have hstill : (s.submit command).2.client.closed = false := by
      rw [submit_client]
      exact hopen
    refine (ih (numbers ++ [(s.submit command).1]) hstill).trans ?_
    rw [hsubmit]
    simp only [List.range'_succ, Call.numbered, List.append_assoc, List.singleton_append,
      List.length_cons, Nat.add_assoc, Nat.add_comm 1]

/-- The outcomes with more of them under the numbers from `first` on. -/
def enterAll (outcomes : Keyed Nat Outcome) (first : Nat) : List Outcome → Keyed Nat Outcome
  | [] => outcomes
  | o :: rest => enterAll (outcomes.insert first o) (first + 1) rest

theorem get?_enterAll (outcomes : Keyed Nat Outcome) (first : Nat) (entered : List Outcome)
    (n : Nat) :
    (enterAll outcomes first entered).get? n =
      if n < first then outcomes.get? n else (entered[n - first]?).or (outcomes.get? n) := by
  induction entered generalizing outcomes first with
  | nil => simp only [enterAll, List.getElem?_nil, Option.none_or, ite_self]
  | cons o rest ih =>
    rw [enterAll, ih, Keyed.get?_insert]
    rcases Nat.lt_trichotomy n first with hlt | rfl | hlt
    · rw [if_pos (Nat.lt_succ_of_lt hlt), if_neg (Nat.ne_of_lt hlt), if_pos hlt]
    · rw [if_pos (Nat.lt_succ_self _), if_pos rfl, if_neg (Nat.lt_irrefl _), Nat.sub_self]
      rfl
    · rw [if_neg (Nat.not_lt_of_le hlt), if_neg (Nat.ne_of_gt hlt),
        if_neg (Nat.lt_asymm hlt), show n - first = n - (first + 1) + 1 by omega,
        List.getElem?_cons_succ]

theorem dismiss_outcomes {s : SharedClient ν} {first : Nat} {commands : List Command}
    (hwaiting : s.waiting = Call.numbered first commands) :
    s.dismiss.outcomes = enterAll s.outcomes first (commands.map Command.turnedAway) := by
  rw [dismiss, hwaiting]
  generalize s.outcomes = outcomes
  clear hwaiting
  induction commands generalizing first outcomes with
  | nil => rfl
  | cons command rest ih => exact ih (outcomes.insert first command.turnedAway)

theorem repeat_advance_nil {s : SharedClient ν} (h : s.waiting = []) (n : Nat) :
    Nat.repeat advance n s = s := by
  induction n with
  | zero => rfl
  | succ n ih => rw [repeat_succ, advance_nil h, ih]

/-- As many steps as calls wait give each of them its outcome. -/
theorem repeat_advance_outcomes {s : SharedClient ν} {first : Nat} {commands : List Command}
    (hwaiting : s.waiting = Call.numbered first commands) :
    (Nat.repeat advance commands.length s).outcomes =
      enterAll s.outcomes first (s.client.fates commands) := by
  induction commands generalizing s first with
  | nil => rfl
  | cons command rest ih =>
    rw [List.length_cons, repeat_succ]
    cases command with
    | query filter =>
      have hadvance := advance_query hwaiting
      have hrest : s.advance.waiting = Call.numbered (first + 1) rest := by
        rw [hadvance]
      rw [ih hrest, hadvance]
      rfl
    | shutdown =>
      have hadvance := advance_shutdown hwaiting
      have hnone : s.advance.waiting = [] := by
        rw [hadvance]
        rfl
      rw [repeat_advance_nil hnone, hadvance]
      exact dismiss_outcomes rfl

/-- A shared client that is given commands all at once gives each its outcome. -/
theorem runAll_outcomes {c : Client ν} (hopen : c.closed = false) (commands : List Command) :
    (runAll { client := c } commands).1 = (c.fates commands).map some := by
  have hsubmit := submitAll_eq commands (s := { client := c }) [] hopen
  have houtcomes := repeat_advance_outcomes
    (s := { client := c, waiting := Call.numbered 0 commands, next := 0 + commands.length }) rfl
  rw [runAll, hsubmit]
  simp only [settle, List.nil_append, Call.length_numbered]
  apply List.ext_getElem
  · rw [List.length_map, List.length_range', List.length_map, c.length_fates]
  · intro i hi hi'
    rw [List.length_map] at hi'
    rw [List.getElem_map, List.getElem_map, List.getElem_range', outcome?, houtcomes,
      get?_enterAll]
    simp only [Nat.one_mul, Nat.zero_add, Nat.not_lt_zero, if_false, Nat.sub_zero,
      List.getElem?_eq_getElem hi', Option.some_or]

end SharedClient
end EventTree
