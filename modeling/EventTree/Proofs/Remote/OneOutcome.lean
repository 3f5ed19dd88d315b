import EventTree.Proofs.Remote.CallPlaces
import EventTree.Proofs.Remote.Fates

/-!
# One outcome for each call

Whatever the callers of a worker do between its actions, what comes of their calls is fixed
by the order of the calls. The queries in front of the first shutdown are run, in this order
and one at a time, and their callers get the results; every later call is turned away and
leaves the network alone.

A worker first serves. It stops with the shutdown that it takes, or is deserted when the last
handle is dropped and no call is left. In each of these phases the calls that were run, the
call in the worker's hands and the queue follow each other in the list of all calls.
-/
namespace EventTree.Worker
variable {ν : Type} [Network ν]

deriving instance DecidableEq for Task

/-! ## The phases -/

/-- The command that was taken and has had no effect yet. -/
def Task.taken : Task → List Command
  | .ask _ filter => [.query filter]
  | .close _ => [.shutdown]
  | _ => []

/-- The call in the worker's hands is the first that was not run, or that which was run last. -/
def Task.Fits (c : Client ν) (executed : List String) : Task → Prop
  | .take => True
  | .ask number _ | .close number => number = executed.length
  | .answer number result => ∃ earlier filter, executed = earlier ++ [filter] ∧
    number = earlier.length ∧ result = ((c.queryAll earlier).query filter).1
  | .disconnect _ | .confirm _ | .quit | .gone => False

structure Serving (c : Client ν) (s : Worker ν) : Prop where
  accepting : s.accepting = true
  client : s.client = c.queryAll s.executed
  fits : s.task.Fits c s.executed
  calls : ∃ rest, s.commands = s.executed.map .query ++ (s.task.taken ++ rest) ∧
    s.queue = Call.numbered (s.executed.length + s.task.taken.length) rest
  replied : ∀ number ∈ s.replied, number < s.executed.length

/-- The first shutdown has closed the queue. -/
structure Stopping (c : Client ν) (s : Worker ν) : Prop where
  accepting : s.accepting = false
  shutdown : ∃ late, s.commands = s.executed.map .query ++ .shutdown :: late
  queue : ∀ call ∈ s.queue,
    s.executed.length < call.number ∧ s.commands[call.number]? = some call.command
  client : s.task = .disconnect s.executed.length ∧ s.client = c.queryAll s.executed ∨
    (s.task = .confirm s.executed.length ∨ s.task = .quit ∨ s.task = .gone) ∧
      s.client = (c.queryAll s.executed).disconnect

/-- Nobody is left to make a call, and all calls are run. -/
structure Deserted (c : Client ν) (s : Worker ν) : Prop where
  handles : s.handles = 0
  queue : s.queue = []
  calls : s.commands = s.executed.map .query
  client : s.task = .quit ∧ s.client = c.queryAll s.executed ∨
    s.task = .gone ∧ s.client = (c.queryAll s.executed).disconnect

inductive Phase (c : Client ν) (s : Worker ν) : Prop where
  | serving : Serving c s → Phase c s
  | stopping : Stopping c s → Phase c s
  | deserted : Deserted c s → Phase c s

structure Sound (c : Client ν) (s : Worker ν) : Prop where
  accounted : s.Accounted
  cleared : s.Cleared
  phase : Phase c s
  fates : ∀ number o, (number, o) ∈ s.replies → (c.fates s.commands)[number]? = some o

theorem start_sound (c : Client ν) : Sound c { client := c } where
  accounted := .start c
  cleared := nofun
  phase := .serving ⟨rfl, rfl, trivial, ⟨[], rfl, rfl⟩, nofun⟩
  fates := nofun

/-- The tasks of a worker that no longer serves. -/
def Task.Ends : Task → Prop
  | .disconnect _ | .confirm _ | .quit | .gone => True
  | .take | .ask _ _ | .answer _ _ | .close _ => False

section
variable {c : Client ν} {s t : Worker ν}

theorem Serving.not_ends (h : Serving c s) {task : Task} (htask : s.task = task) :
    ¬ task.Ends := by
  have hfits := h.fits
  rw [htask] at hfits
  cases task with
  | disconnect | confirm | quit | gone => exact hfits.elim
  | _ => exact id

theorem Stopping.ends (h : Stopping c s) : s.task.Ends := by
  rcases h.client with ⟨htask, -⟩ | ⟨htask | htask | htask, -⟩ <;> rw [htask] <;> trivial

theorem Deserted.ends (h : Deserted c s) : s.task.Ends := by
  rcases h.client with ⟨htask, -⟩ | ⟨htask, -⟩ <;> rw [htask] <;> trivial

theorem Phase.to_serving (h : Phase c s) {task : Task} (htask : s.task = task)
    (hserves : ¬ task.Ends) : Serving c s := by
  cases h with
  | serving h => exact h
  | stopping h => exact absurd (htask ▸ h.ends) hserves
  | deserted h => exact absurd (htask ▸ h.ends) hserves

theorem Phase.to_stopping (h : Phase c s) {task : Task} (htask : s.task = task)
    (hends : task.Ends) (hquit : task ≠ .quit) (hgone : task ≠ .gone) : Stopping c s := by
  cases h with
  | serving h => exact absurd hends (h.not_ends htask)
  | stopping h => exact h
  | deserted h =>
    rcases h.client with ⟨htask', -⟩ | ⟨htask', -⟩
    · exact absurd (htask.symm.trans htask') hquit
    · exact absurd (htask.symm.trans htask') hgone

/-! ## The worker's actions in its phases -/

/-- The oldest call is the first that was not run. -/
theorem Serving.take (h : Serving c s) (htask : s.task = .take) {number : Nat} {command : Command}
    {rest : List Call} (hqueue : s.queue = ⟨number, command⟩ :: rest) :
    number = s.executed.length ∧ ∃ later,
      s.commands = s.executed.map .query ++ command :: later ∧
      rest = Call.numbered (s.executed.length + 1) later := by
  obtain ⟨waiting, hcommands, hnumbered⟩ := h.calls
  rw [htask] at hcommands hnumbered
  rw [hqueue] at hnumbered
  cases waiting with
  | nil => cases hnumbered
  | cons first later =>
    obtain ⟨hcall, hrest⟩ := List.cons.inj hnumbered
    cases hcall
    exact ⟨rfl, later, hcommands, hrest⟩

theorem Serving.taken (h : Serving c s) {task : Task} {rest : List Call} {command : Command}
    (htask : s.task = .take) (hqueue : s.queue = ⟨s.executed.length, command⟩ :: rest)
    (htaken : task.taken = [command]) (hfits : task.Fits c s.executed) :
    Serving c { s with queue := rest, task } := by
  obtain ⟨-, later, hcommands, hrest⟩ := h.take htask hqueue
  refine ⟨h.accepting, h.client, hfits, ⟨later, ?_, ?_⟩, h.replied⟩
  · rw [htaken]
    exact hcommands
  · rw [htaken]
    exact hrest

theorem Serving.asked (h : Serving c s) {number : Nat} {filter : String}
    (htask : s.task = .ask number filter) :
    Serving c
      { s with
        client := (s.client.query filter).2
        executed := s.executed ++ [filter]
        task := .answer number (s.client.query filter).1 } := by
  have hfits := h.fits
  obtain ⟨rest, hcommands, hqueue⟩ := h.calls
  rw [htask] at hfits hcommands hqueue
  refine ⟨h.accepting, ?_, ⟨s.executed, filter, rfl, hfits, ?_⟩, ⟨rest, ?_, ?_⟩, ?_⟩
  · rw [c.queryAll_concat, h.client]
  · rw [h.client]
  · rw [hcommands, List.map_append, List.append_assoc]
    rfl
  · rw [hqueue, List.length_append]
    rfl
  · intro earlier hearlier
    rw [List.length_append]
    exact Nat.lt_add_right 1 (h.replied earlier hearlier)

theorem Serving.answered (h : Serving c s) {number : Nat}
    {result : Except ExchangeFault (List Event)} (htask : s.task = .answer number result) :
    Serving c { s with replies := s.replies ++ [(number, .answered result)], task := .take } := by
  have hfits := h.fits
  obtain ⟨rest, hcommands, hqueue⟩ := h.calls
  rw [htask] at hfits hcommands hqueue
  obtain ⟨earlier, filter, hexecuted, hnumber, -⟩ := hfits
  refine ⟨h.accepting, h.client, trivial, ⟨rest, hcommands, hqueue⟩, ?_⟩
  intro replied hreplied
  rw [Worker.replied, List.map_append, List.mem_append] at hreplied
  rcases hreplied with hreplied | hreplied
  · exact h.replied replied hreplied
  · rw [List.mem_singleton.1 hreplied, hexecuted, List.length_append]
    exact hnumber ▸ Nat.lt_succ_self _

/-- What the caller of a query is told is the result of its execution. -/
theorem Serving.fates_answer (h : Serving c s) {number : Nat}
    {result : Except ExchangeFault (List Event)} (htask : s.task = .answer number result) :
    (c.fates s.commands)[number]? = some (.answered result) := by
  have hfits := h.fits
  obtain ⟨rest, hcommands, -⟩ := h.calls
  rw [htask] at hfits hcommands
  obtain ⟨earlier, filter, hexecuted, rfl, rfl⟩ := hfits
  rw [hcommands, hexecuted, List.map_append, List.append_assoc]
  exact c.fates_query earlier filter rest

theorem Serving.deserted (h : Serving c s) (htask : s.task = .take) (hqueue : s.queue = [])
    (hhandles : s.handles = 0) : Deserted c { s with task := .quit } := by
  obtain ⟨rest, hcommands, hnumbered⟩ := h.calls
  rw [htask] at hcommands hnumbered
  rw [hqueue] at hnumbered
  cases rest with
  | nil =>
    refine ⟨hhandles, hqueue, ?_, .inl ⟨rfl, h.client⟩⟩
    rw [hcommands]
    exact List.append_nil _
  | cons first later => cases hnumbered

theorem Serving.closed (h : Serving c s) {number : Nat} (htask : s.task = .close number) :
    Stopping c { s with accepting := false, task := .disconnect number } := by
  have hfits : s.task.Fits c s.executed := h.fits
  obtain ⟨late, hcommands, hqueue⟩ := h.calls
  rw [htask] at hfits hcommands hqueue
  cases hfits
  refine ⟨rfl, ⟨late, hcommands⟩, ?_, .inl ⟨rfl, h.client⟩⟩
  intro call hcall
  rw [hqueue] at hcall
  obtain ⟨hle, hcommand⟩ := Call.mem_numbered hcall
  have hlt : s.executed.length < call.number := hle
  refine ⟨hlt, ?_⟩
  rw [← hcommand, hcommands]
  exact Client.getElem?_behind hlt

theorem Stopping.disconnected (h : Stopping c s) {number : Nat}
    (htask : s.task = .disconnect number) :
    Stopping c { s with client := s.client.disconnect, task := .confirm number } := by
  rcases h.client with ⟨htask', hclient⟩ | ⟨htask' | htask' | htask', -⟩ <;>
    rw [htask] at htask' <;> cases htask'
  refine ⟨h.accepting, h.shutdown, h.queue, .inr ⟨.inl rfl, ?_⟩⟩
  rw [hclient]

theorem Stopping.confirmed (h : Stopping c s) {number : Nat} (htask : s.task = .confirm number) :
    Stopping c { s with replies := s.replies ++ [(number, .stopped)], task := .quit } ∧
      number = s.executed.length := by
  rcases h.client with ⟨htask', -⟩ | ⟨htask' | htask' | htask', hclient⟩ <;>
    rw [htask] at htask' <;> cases htask'
  exact ⟨⟨h.accepting, h.shutdown, h.queue, .inr ⟨.inr (.inl rfl), hclient⟩⟩, rfl⟩

theorem Stopping.dropped (h : Stopping c s) {number : Nat} {command : Command} {rest : List Call}
    (hqueue : s.queue = ⟨number, command⟩ :: rest) :
    Stopping c
      { s with
        replies := s.replies ++ [(number, command.turnedAway)]
        queue := rest
        accepting := false } := by
  refine ⟨rfl, h.shutdown, fun call hcall => h.queue call ?_, h.client⟩
  rw [hqueue]
  exact List.mem_cons_of_mem _ hcall

theorem Stopping.fates_shutdown (h : Stopping c s) :
    (c.fates s.commands)[s.executed.length]? = some .stopped := by
  obtain ⟨late, hcommands⟩ := h.shutdown
  rw [hcommands]
  exact c.fates_shutdown s.executed late

theorem Stopping.fates_queue (h : Stopping c s) {call : Call} (hcall : call ∈ s.queue) :
    (c.fates s.commands)[call.number]? = some call.command.turnedAway := by
  obtain ⟨late, hcommands⟩ := h.shutdown
  obtain ⟨hlt, hcommand⟩ := h.queue call hcall
  rw [hcommands] at hcommand ⊢
  exact c.fates_behind hlt hcommand

theorem Stopping.left (h : Stopping c s) (htask : s.task = .quit) :
    Stopping c { s with client := s.client.disconnect, accepting := false, task := .gone } := by
  rcases h.client with ⟨htask', -⟩ | ⟨-, hclient⟩
  · rw [htask] at htask'
    cases htask'
  · refine ⟨rfl, h.shutdown, h.queue, .inr ⟨.inr (.inr rfl), ?_⟩⟩
    rw [hclient, Client.disconnect_of_none (Client.disconnect_connection _)]

theorem Deserted.left (h : Deserted c s) (htask : s.task = .quit) :
    Deserted c { s with client := s.client.disconnect, accepting := false, task := .gone } := by
  rcases h.client with ⟨-, hclient⟩ | ⟨htask', -⟩
  · refine ⟨h.handles, h.queue, h.calls, .inr ⟨rfl, ?_⟩⟩
    rw [hclient]
  · rw [htask] at htask'
    cases htask'

/-! ## Every move keeps the invariant -/

theorem Worked.phase (w : Worked s t) (h : Phase c s) : Phase c t := by
  cases w with
  | wait | gone => exact h
  | takeQuery htask hqueue =>
    have hserving := h.to_serving htask id
    obtain ⟨rfl, -⟩ := hserving.take htask hqueue
    exact .serving (hserving.taken htask hqueue rfl rfl)
  | takeShutdown htask hqueue =>
    have hserving := h.to_serving htask id
    obtain ⟨rfl, -⟩ := hserving.take htask hqueue
    exact .serving (hserving.taken htask hqueue rfl rfl)
  | desert htask hqueue hhandles =>
    exact .deserted ((h.to_serving htask id).deserted htask hqueue hhandles)
  | ask htask => exact .serving ((h.to_serving htask id).asked htask)
  | answer htask => exact .serving ((h.to_serving htask id).answered htask)
  | close htask => exact .stopping ((h.to_serving htask id).closed htask)
  | disconnect htask =>
    have hstopping := h.to_stopping htask trivial nofun nofun
    exact .stopping (hstopping.disconnected htask)
  | confirm htask =>
    have hstopping := h.to_stopping htask trivial nofun nofun
    exact .stopping (hstopping.confirmed htask).1
  | drop htask hqueue =>
    cases h with
    | serving h => exact (h.not_ends htask trivial).elim
    | stopping h => exact .stopping (h.dropped hqueue)
    | deserted h =>
      rw [h.queue] at hqueue
      cases hqueue
  | leave htask hqueue =>
    cases h with
    | serving h => exact (h.not_ends htask trivial).elim
    | stopping h => exact .stopping (h.left htask)
    | deserted h => exact .deserted (h.left htask)

theorem Serving.accepted (h : Serving c s) (command : Command) :
    Serving c
      { s with
        commands := s.commands ++ [command]
        queue := s.queue ++ [⟨s.commands.length, command⟩] } := by
  obtain ⟨rest, hcommands, hqueue⟩ := h.calls
  have hlength : s.commands.length = s.executed.length + s.task.taken.length + rest.length := by
    rw [hcommands, List.length_append, List.length_append, List.length_map, Nat.add_assoc]
  refine ⟨h.accepting, h.client, h.fits, ⟨rest ++ [command], ?_, ?_⟩, h.replied⟩
  · rw [hcommands, List.append_assoc, List.append_assoc]
  · rw [hqueue, Call.numbered_concat, hlength]

theorem Stopping.refused (h : Stopping c s) (command : Command) :
    Stopping c
      { s with
        commands := s.commands ++ [command]
        replies := s.replies ++ [(s.commands.length, command.turnedAway)] } := by
  obtain ⟨late, hcommands⟩ := h.shutdown
  refine ⟨h.accepting, ⟨late ++ [command], ?_⟩, ?_, h.client⟩
  · rw [hcommands, List.append_assoc, List.cons_append]
  · intro call hcall
    obtain ⟨hlt, hcommand⟩ := h.queue call hcall
    refine ⟨hlt, ?_⟩
    rw [List.getElem?_append_left (List.getElem?_eq_some_iff.1 hcommand).1, hcommand]

theorem Stopping.fates_refused (h : Stopping c s) (command : Command) :
    (c.fates (s.commands ++ [command]))[s.commands.length]? = some command.turnedAway := by
  obtain ⟨late, hcommands⟩ := h.shutdown
  have hlt : s.executed.length < s.commands.length := by
    rw [hcommands, List.length_append, List.length_map, List.length_cons]
    omega
  have hlast : (s.commands ++ [command])[s.commands.length]? = some command :=
    List.getElem?_concat_length
  generalize s.commands.length = number at hlt hlast
  rw [hcommands, List.append_assoc, List.cons_append] at hlast ⊢
  exact c.fates_behind hlt hlast

theorem Moved.phase (m : Moved s t) (h : Phase c s) : Phase c t := by
  cases m with
  | callers handles abandoned hhandles =>
    cases h with
    | serving h => exact .serving ⟨h.accepting, h.client, h.fits, h.calls, h.replied⟩
    | stopping h => exact .stopping ⟨h.accepting, h.shutdown, h.queue, h.client⟩
    | deserted h => exact .deserted ⟨hhandles h.handles, h.queue, h.calls, h.client⟩
  | accepted command hhandles haccepting =>
    cases h with
    | serving h => exact .serving (h.accepted command)
    | stopping h => exact absurd haccepting (Bool.eq_false_iff.1 h.accepting)
    | deserted h => exact absurd h.handles hhandles
  | refused command hhandles haccepting =>
    cases h with
    | serving h => exact absurd h.accepting (Bool.eq_false_iff.1 haccepting)
    | stopping h => exact .stopping (h.refused command)
    | deserted h => exact absurd h.handles hhandles
  | worked w => exact w.phase h

/-- A reply is the outcome that the order of the calls has fixed. -/
theorem Moved.fates (m : Moved s t) (h : Sound c s) :
    ∀ number o, (number, o) ∈ t.replies → (c.fates t.commands)[number]? = some o := by
  have hreply : ∀ {number : Nat} {o : Outcome}, (c.fates s.commands)[number]? = some o →
      ∀ n o', (n, o') ∈ s.replies ++ [(number, o)] → (c.fates s.commands)[n]? = some o' := by
    intro number o hfate n o' hmem
    rcases List.mem_append.1 hmem with hmem | hmem
    · exact h.fates n o' hmem
    · cases List.mem_singleton.1 hmem
      exact hfate
  cases m with
  | callers => exact h.fates
  | accepted command => exact fun n o hmem => Client.fates_append (h.fates n o hmem) _
  | refused command hhandles haccepting =>
    intro n o hmem
    rcases List.mem_append.1 hmem with hmem | hmem
    · exact Client.fates_append (h.fates n o hmem) _
    · cases List.mem_singleton.1 hmem
      cases h.phase with
      | serving h => exact absurd h.accepting (Bool.eq_false_iff.1 haccepting)
      | stopping h => exact h.fates_refused command
      | deserted h => exact absurd h.handles hhandles
  | worked w =>
    cases w with
    | answer htask =>
      exact hreply ((h.phase.to_serving htask id).fates_answer htask)
    | confirm htask =>
      have hstopping := h.phase.to_stopping htask trivial nofun nofun
      obtain ⟨-, rfl⟩ := hstopping.confirmed htask
      exact hreply hstopping.fates_shutdown
    | @drop number command rest htask hqueue =>
      cases h.phase with
      | serving h => exact (h.not_ends htask trivial).elim
      | stopping h =>
        have hmem : (⟨number, command⟩ : Call) ∈ s.queue := by
          rw [hqueue]
          exact List.mem_cons_self
        exact hreply (h.fates_queue hmem)
      | deserted h =>
        rw [h.queue] at hqueue
        cases hqueue
    | _ => exact h.fates

theorem Moved.sound (m : Moved s t) (h : Sound c s) : Sound c t where
  accounted := m.accounted h.accounted
  cleared := m.cleared h.cleared
  phase := m.phase h.phase
  fates := m.fates h

/-! ## What follows in each phase -/

theorem Phase.executed (h : Phase c s) : s.executed <+: Command.ahead s.commands := by
  cases h with
  | serving h =>
    obtain ⟨rest, hcommands, -⟩ := h.calls
    rw [hcommands, Command.ahead_queries]
    exact List.prefix_append _ _
  | stopping h =>
    obtain ⟨late, hcommands⟩ := h.shutdown
    rw [hcommands, Command.ahead_queries]
    exact List.prefix_append _ _
  | deserted h =>
    rw [h.calls, ← List.append_nil (s.executed.map _), Command.ahead_queries]
    exact List.prefix_append _ _

theorem Stopping.executed (h : Stopping c s) : s.executed = Command.ahead s.commands := by
  obtain ⟨late, hcommands⟩ := h.shutdown
  rw [hcommands, Command.ahead_queries]
  exact (List.append_nil _).symm

theorem Deserted.executed (h : Deserted c s) : s.executed = Command.ahead s.commands := by
  rw [h.calls, ← List.append_nil (s.executed.map _), Command.ahead_queries]
  exact (List.append_nil _).symm

/-- Nothing but the queries that were run and the end of the connection has an effect. -/
theorem Phase.client (h : Phase c s) :
    s.client = c.queryAll s.executed ∨ s.client = (c.queryAll s.executed).disconnect := by
  cases h with
  | serving h => exact .inl h.client
  | stopping h => exact h.client.imp And.right And.right
  | deserted h => exact h.client.imp And.right And.right

theorem Sound.executed_of_gone (h : Sound c s) (htask : s.task = .gone) :
    s.executed = Command.ahead s.commands := by
  cases h.phase with
  | serving h => exact (h.not_ends htask trivial).elim
  | stopping h => exact h.executed
  | deserted h => exact h.executed

theorem Sound.replied_of_gone (h : Sound c s) (htask : s.task = .gone) {number : Nat}
    (hnumber : number < s.commands.length) : number ∈ s.replied := by
  refine (h.accounted.replied_or_pending hnumber).resolve_right ?_
  rw [pending, htask, (h.cleared htask).1]
  exact List.not_mem_nil

/-- While the worker serves, only queries are replied to. -/
theorem Sound.stopping_of_shutdown (h : Sound c s) {number : Nat}
    (hshutdown : s.commands[number]? = some .shutdown) (hreplied : number ∈ s.replied) :
    Stopping c s := by
  have hquery : ∀ {rest : List Command}, number < s.executed.length →
      (s.executed.map Command.query ++ rest)[number]? ≠ some .shutdown := by
    intro rest hlt hshutdown
    rw [List.getElem?_append_left (by rw [List.length_map]; exact hlt), List.getElem?_map,
      List.getElem?_eq_getElem hlt] at hshutdown
    cases hshutdown
  cases h.phase with
  | serving h =>
    obtain ⟨rest, hcommands, -⟩ := h.calls
    rw [hcommands] at hshutdown
    exact absurd hshutdown (hquery (h.replied number hreplied))
  | stopping h => exact h
  | deserted h' =>
    have hlt := h.accounted.replied_lt hreplied
    rw [h'.calls, List.length_map] at hlt
    rw [h'.calls, ← List.append_nil (s.executed.map _)] at hshutdown
    exact absurd hshutdown (hquery hlt)

theorem Moved.accepting (m : Moved s t) (h : s.accepting = false) : t.accepting = false := by
  cases m with
  | worked w =>
    cases w with
    | close | drop | leave => rfl
    | _ => exact h
  | _ => exact h

/-- The worker has nothing to do with the network any more. -/
def Parted (s : Worker ν) : Prop :=
  (s.task = .quit ∨ s.task = .gone) ∧ s.client.connection = none

/-- The first shutdown is replied to without a connection. -/
theorem Sound.parted (h : Sound c s) (hstopping : Stopping c s)
    (hreplied : (Command.ahead s.commands).length ∈ s.replied) : s.Parted := by
  rw [← hstopping.executed] at hreplied
  have hdone : s.executed.length ∉ s.pending := fun hpending =>
    (List.nodup_append.1 h.accounted.nodup).2.2 _ hreplied _ hpending rfl
  have hhand : s.task.number? ≠ some s.executed.length := by
    intro hnumber
    apply hdone
    rw [pending, hnumber]
    exact List.mem_cons_self
  rcases hstopping.client with ⟨htask, -⟩ | ⟨htask | htask, hclient⟩
  · exact absurd (by rw [htask]; rfl) hhand
  · exact absurd (by rw [htask]; rfl) hhand
  · refine ⟨htask, ?_⟩
    rw [hclient]
    exact Client.disconnect_connection _

theorem Moved.parted (m : Moved s t) (h : s.Parted) : t.Parted ∧ t.client = s.client := by
  obtain ⟨htask, hconnection⟩ := h
  cases m with
  | worked w =>
    cases w with
    | wait | gone | drop => exact ⟨⟨htask, hconnection⟩, rfl⟩
    | leave =>
      rw [Client.disconnect_of_none hconnection]
      exact ⟨⟨.inr rfl, hconnection⟩, rfl⟩
    | takeQuery htask' | takeShutdown htask' | desert htask' | ask htask' | answer htask'
    | close htask' | disconnect htask' | confirm htask' =>
      rw [htask'] at htask
      rcases htask with htask | htask <;> cases htask
  | _ => exact ⟨⟨htask, hconnection⟩, rfl⟩

end

theorem run_sound (c : Client ν) (moves : List Move) :
    Sound c (run { client := c } moves) :=
  run_keeps (fun _ _ m => m.sound) (start_sound c) moves

/-- Whatever the callers do between the actions of the worker, each call is replied to once,
with the outcome that a shared client gives it and the order of the calls has fixed. Nothing
but the queries in front of the first shutdown reaches the network, and nothing at all once
that shutdown is replied to. -/
theorem each_call_one_outcome (network : ν) (frameLimit : Nat)
    (connection : Option (Network.Connection ν)) (moves : List Move) :
    let c : Client ν := { network, frameLimit, connection }
    let s := run { client := c } moves
    let ahead := Command.ahead s.commands
    (SharedClient.runAll { client := c } s.commands).1 = (c.fates s.commands).map some ∧
    s.replied.Nodup ∧
    (∀ number o, (number, o) ∈ s.replies → (c.fates s.commands)[number]? = some o) ∧
    s.executed <+: ahead ∧
    (s.client = c.queryAll s.executed ∨ s.client = (c.queryAll s.executed).disconnect) ∧
    (s.task = .gone →
      s.executed = ahead ∧ ∀ number < s.commands.length, number ∈ s.replied) ∧
    (∀ number, s.commands[number]? = some .shutdown → number ∈ s.replied →
      ∀ later, (s.run later).accepting = false) ∧
    (s.commands[ahead.length]? = some .shutdown → ahead.length ∈ s.replied →
      ∀ later, (s.run later).client.connection = none ∧ (s.run later).client = s.client) ∧
    (∀ later, 4 * s.queue.length + 3 ≤ later.count .work →
      ∀ number < s.commands.length, number ∈ (s.run later).replied) := by
  intro c s ahead
  have h : Sound c s := run_sound c moves
  have hruns := SharedClient.runAll_outcomes (c := c) rfl s.commands
  have honce : s.replied.Nodup := (List.nodup_append.1 h.accounted.nodup).1
  refine ⟨hruns, honce, h.fates, h.phase.executed, h.phase.client, ?_, ?_, ?_, ?_⟩
  · exact fun htask => ⟨h.executed_of_gone htask, fun _ => h.replied_of_gone htask⟩
  · intro number hshutdown hreplied later
    have hstopping := h.stopping_of_shutdown hshutdown hreplied
    exact run_keeps (P := (·.accepting = false)) (fun _ _ m => m.accepting)
      hstopping.accepting later
  · intro hshutdown hreplied later
    have hparted := h.parted (h.stopping_of_shutdown hshutdown hreplied) hreplied
    have hlater : (s.run later).Parted ∧ (s.run later).client = s.client :=
      run_keeps (P := fun t => t.Parted ∧ t.client = s.client)
        (fun _ _ m ht => ⟨(m.parted ht.1).1, (m.parted ht.1).2.trans ht.2⟩) ⟨hparted, rfl⟩ later
    exact ⟨hlater.1.2, hlater.2⟩
  · intro later hlater number hnumber
    exact replied_after h.accounted h.cleared hlater hnumber

/-- A shutdown with a query behind it whose caller has gone away, a second shutdown that comes
before the queue is closed, and a query that comes after. -/
theorem each_call_one_outcome_around_shutdown :
    let moves : List Move :=
      [.cloneHandle, .call (.query "a"), .work, .call .shutdown, .call (.query "b"), .abandon 2,
        .work, .work, .work, .call .shutdown, .work, .call (.query "c"), .dropHandle, .work, .work]
    let s := run { client := ({ network := ⟨[], []⟩ } : Client Course) } moves
    s.task = .quit ∧ s.replied = [0, 4, 1] ∧ s.executed = ["a"] ∧ s.client.connection = none ∧
      (∀ o, (4, o) ∈ s.replies → o = .answered (.error .shutdown)) ∧
      ∀ later, 11 ≤ later.count .work → 2 ∈ (s.run later).replied ∧ 3 ∈ (s.run later).replied := by
  intro moves s
  have hcommands : s.commands =
      [.query "a", .shutdown, .query "b", .shutdown, .query "c"] := by decide +kernel
  have hreplied : s.replied = [0, 4, 1] := by decide +kernel
  have hexecuted : s.executed = ["a"] := by decide +kernel
  have hqueue : s.queue.length = 2 := by decide +kernel
  have htask : s.task = .quit := by decide +kernel
  obtain ⟨-, -, hfates, -, -, -, -, hparted, hlater⟩ :=
    each_call_one_outcome (⟨[], []⟩ : Course) defaultFrameLimit none moves
  have hs : s = run { client := { network := ⟨[], []⟩ } } moves := rfl
  rw [← hs] at hfates hparted hlater
  -- All that had to be computed is; the state itself is not looked into again.
  clear_value s
  rw [hcommands] at hfates hparted hlater
  rw [hreplied] at hparted
  rw [hqueue] at hlater
  have hconnection := (hparted rfl (by decide) []).1
  refine ⟨htask, hreplied, hexecuted, hconnection, ?_, ?_⟩
  · intro o ho
    exact (Option.some.inj (hfates 4 o ho)).symm
  · intro later hworks
    exact ⟨hlater later hworks 2 (by decide), hlater later hworks 3 (by decide)⟩

end EventTree.Worker
