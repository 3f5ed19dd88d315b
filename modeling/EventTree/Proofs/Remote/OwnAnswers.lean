import EventTree.Remote.SharedClient
import EventTree.Proofs.Remote.Exchange

/-!
# Every call is answered with the response to its own request

Callers submit calls at any time and the client runs them one at a time; a run is any
sequence of both, over any course of outside events. A caller that no longer waits is
no event: its call is run to the end all the same, and the outcome is not looked at. Nor
does a call that comes while a query is under way need to be told from one that comes
right before it.

Whatever the index is late with, refuses or breaks off, what a call is told is in the
one response to the request that was sent when this call was run.
-/
namespace EventTree.SharedClient

deriving instance DecidableEq for Outcome

/-! ## Runs -/

inductive Step where
  | submit (command : Command)
  /-- The client runs the oldest call. -/
  | advance
deriving DecidableEq, Repr

section
variable {ν : Type} [Network ν]

def step (s : SharedClient ν) : Step → SharedClient ν
  | .submit command => (s.submit command).2
  | .advance => s.advance

def run (s : SharedClient ν) (steps : List Step) : SharedClient ν := steps.foldl step s

/-- The commands of the calls by their numbers. -/
def commands (steps : List Step) : List Command :=
  steps.filterMap fun
    | .submit command => some command
    | .advance => none

theorem run_append (s : SharedClient ν) (steps : List Step) (next : Step) :
    s.run (steps ++ [next]) = (s.run steps).step next :=
  List.foldl_concat step s next steps

/-- A run past a step that runs a call. -/
theorem run_split (s : SharedClient ν) (before after : List Step) :
    s.run (before ++ .advance :: after) = (s.run before).advance.run after :=
  List.foldl_append

/-- Of two places in a run where a call is run, they are the same or one is earlier. -/
theorem split_cases {before after before' after' : List Step}
    (h : before ++ .advance :: after = before' ++ .advance :: after') :
    before = before' ∨ (∃ mid, before' = before ++ .advance :: mid) ∨
      ∃ mid, before = before' ++ .advance :: mid := by
  rcases List.append_eq_append_iff.1 h with ⟨mid, hbefore, hafter⟩ | ⟨mid, hbefore, hafter⟩
  · cases mid with
    | nil => exact .inl (by rw [hbefore, List.append_nil])
    | cons next mid =>
      obtain ⟨rfl, -⟩ := List.cons.inj hafter
      exact .inr (.inl ⟨mid, hbefore⟩)
  · cases mid with
    | nil => exact .inl (by rw [hbefore, List.append_nil])
    | cons next mid =>
      obtain ⟨rfl, -⟩ := List.cons.inj hafter
      exact .inr (.inr ⟨mid, hbefore⟩)

theorem commands_append_submit (steps : List Step) (command : Command) :
    commands (steps ++ [.submit command]) = commands steps ++ [command] :=
  List.filterMap_append

theorem commands_append_advance (steps : List Step) :
    commands (steps ++ [.advance]) = commands steps := by
  rw [commands, List.filterMap_append]
  exact List.append_nil _

/-- Calls keep their numbers. -/
theorem commands_append {steps : List Step} {number : Nat} {command : Command}
    (h : (commands steps)[number]? = some command) (more : List Step) :
    (commands (steps ++ more))[number]? = some command := by
  have hlt := (List.getElem?_eq_some_iff.1 h).1
  rw [commands, List.filterMap_append]
  exact (List.getElem?_append_left hlt).trans h

/-! ## The steps, case by case -/

theorem advance_nil {s : SharedClient ν} (h : s.waiting = []) : s.advance = s := by
  simp only [advance, h]

theorem advance_query {s : SharedClient ν} {number : Nat} {filter : String} {rest : List Call}
    (h : s.waiting = ⟨number, .query filter⟩ :: rest) :
    s.advance =
      { s with
        client := (s.client.query filter).2
        waiting := rest
        outcomes := s.outcomes.insert number (.answered (s.client.query filter).1) } := by
  simp only [advance, h]

theorem advance_shutdown {s : SharedClient ν} {number : Nat} {rest : List Call}
    (h : s.waiting = ⟨number, .shutdown⟩ :: rest) :
    s.advance =
      dismiss
        { s with
          client := s.client.shutdown
          waiting := rest
          outcomes := s.outcomes.insert number .stopped } := by
  simp only [advance, h]

theorem submit_outcome? {s : SharedClient ν} {command : Command} {number : Nat} {o : Outcome}
    (h : (s.submit command).2.outcome? number = some o) :
    s.outcome? number = some o ∨ o = command.turnedAway := by
  unfold submit outcome? at h
  dsimp only at h
  split at h
  · rw [Keyed.get?_insert] at h
    split at h
    · exact .inr (Option.some.inj h).symm
    · exact .inl h
  · exact .inl h

theorem submit_waiting (s : SharedClient ν) (command : Command) :
    (s.submit command).2.waiting = s.waiting ∨
      (s.submit command).2.waiting = s.waiting ++ [⟨s.next, command⟩] := by
  unfold submit
  dsimp only
  split
  · exact .inl rfl
  · exact .inr rfl

theorem mem_submit_waiting {s : SharedClient ν} {command : Command} {call : Call}
    (h : call ∈ (s.submit command).2.waiting) : call ∈ s.waiting ∨ call = ⟨s.next, command⟩ := by
  rcases s.submit_waiting command with hwaiting | hwaiting <;> rw [hwaiting] at h
  · exact .inl h
  · exact (List.mem_append.1 h).imp_right List.mem_singleton.1

theorem submit_client (s : SharedClient ν) (command : Command) :
    (s.submit command).2.client = s.client := by
  unfold submit
  dsimp only
  split <;> rfl

theorem submit_next (s : SharedClient ν) (command : Command) :
    (s.submit command).2.next = s.next + 1 := by
  unfold submit
  dsimp only
  split <;> rfl

/-- A call that comes while a query is under way comes before it or behind it: there is
no difference. -/
theorem submit_advance {s : SharedClient ν} {number : Nat} {filter : String} {rest : List Call}
    (hopen : s.client.closed = false) (hwaiting : s.waiting = ⟨number, .query filter⟩ :: rest)
    (command : Command) : (s.submit command).2.advance = (s.advance.submit command).2 := by
  have hsubmit : ∀ t : SharedClient ν, t.client.closed = false → (t.submit command).2 =
      { t with next := t.next + 1, waiting := t.waiting ++ [⟨t.next, command⟩] } := by
    intro t ht
    simp only [submit, ht, Bool.false_eq_true, if_false]
  have hstill : s.advance.client.closed = false := by
    rw [advance_query hwaiting, ← hopen]
    exact s.client.query_closed filter
  rw [hsubmit s hopen, hsubmit s.advance hstill, advance_query hwaiting,
    advance_query (congrArg (· ++ [⟨s.next, command⟩]) hwaiting)]
  rfl

theorem dismiss_outcome? {s : SharedClient ν} {number : Nat} {o : Outcome}
    (h : s.dismiss.outcome? number = some o) :
    s.outcome? number = some o ∨ ∃ command : Command, o = command.turnedAway := by
  unfold dismiss outcome? at h
  unfold outcome?
  dsimp only at h
  generalize s.outcomes = outcomes at h ⊢
  generalize s.waiting = waiting at h
  induction waiting generalizing outcomes with
  | nil => exact .inl h
  | cons call rest ih =>
    rcases ih _ h with h | h
    · rw [Keyed.get?_insert] at h
      split at h
      · exact .inr ⟨call.command, (Option.some.inj h).symm⟩
      · exact .inl h
    · exact .inr h

theorem advance_next (s : SharedClient ν) : s.advance.next = s.next := by
  rcases hwaiting : s.waiting with _ | ⟨⟨number, filter | _⟩, rest⟩
  · rw [advance_nil hwaiting]
  · rw [advance_query hwaiting]
  · rw [advance_shutdown hwaiting]
    rfl

theorem advance_waiting (s : SharedClient ν) : s.advance.waiting.Sublist s.waiting := by
  rcases hwaiting : s.waiting with _ | ⟨⟨number, filter | _⟩, rest⟩
  · rw [advance_nil hwaiting, hwaiting]
  · rw [advance_query hwaiting]
    exact List.sublist_cons_self _ _
  · rw [advance_shutdown hwaiting]
    exact List.nil_sublist _

/-- An outcome is old, or turns a call away, or is that of the query that was run. -/
theorem advance_outcome? {s : SharedClient ν} {number : Nat} {o : Outcome}
    (h : s.advance.outcome? number = some o) :
    s.outcome? number = some o ∨ (∃ command : Command, o = command.turnedAway) ∨
    ∃ filter, s.waiting.head? = some ⟨number, .query filter⟩ ∧
      o = .answered (s.client.query filter).1 ∧ s.advance.client = (s.client.query filter).2 := by
  rcases hwaiting : s.waiting with _ | ⟨⟨first, filter | _⟩, rest⟩
  · rw [advance_nil hwaiting] at h
    exact .inl h
  · have hadvance := advance_query hwaiting
    rw [hadvance, outcome?, Keyed.get?_insert] at h
    split at h
    · next hnumber =>
      refine .inr (.inr ⟨filter, ?_, (Option.some.inj h).symm, by rw [hadvance]⟩)
      rw [hnumber]
      rfl
    · exact .inl h
  · rw [advance_shutdown hwaiting] at h
    rcases dismiss_outcome? h with h | haway
    · rw [outcome?, Keyed.get?_insert] at h
      split at h
      · exact .inr (.inl ⟨.shutdown, (Option.some.inj h).symm⟩)
      · exact .inl h
    · exact .inr (.inl haway)

/-- No call of this number waits or will wait. -/
def Past (s : SharedClient ν) (number : Nat) : Prop :=
  number < s.next ∧ ∀ call ∈ s.waiting, number < call.number

theorem Past.step {s : SharedClient ν} {number : Nat} (h : s.Past number) (next : Step) :
    (s.step next).Past number := by
  cases next with
  | submit command =>
    refine ⟨?_, fun call hcall => ?_⟩
    · change number < (s.submit command).2.next
      rw [submit_next]
      exact Nat.lt_succ_of_lt h.1
    · rcases mem_submit_waiting hcall with hcall | rfl
      · exact h.2 call hcall
      · exact h.1
  | advance =>
    refine ⟨?_, fun call hcall => h.2 call ((advance_waiting s).mem hcall)⟩
    change number < s.advance.next
    rw [advance_next]
    exact h.1

theorem Past.run {s : SharedClient ν} {number : Nat} (h : s.Past number) (steps : List Step) :
    (s.run steps).Past number := by
  induction steps generalizing s with
  | nil => exact h
  | cons next rest ih => exact ih (h.step next)

/-- To be turned away is not to be told anything. -/
theorem turnedAway_not_told {command : Command} {result : Except ExchangeFault (List Event)}
    (h : .answered result = command.turnedAway) : ¬ Client.Told result := by
  cases command with
  | query filter =>
    cases h
    rintro (⟨events, hresult⟩ | ⟨reason, hresult⟩) <;> cases hresult
  | shutdown => cases h

end

/-! ## Runs over a course -/

theorem advance_link_keeps {P : Link → Prop} (hP : Link.Kept P) {s : SharedClient Course}
    {k : Nat} (h : P (s.client.network.link k)) : P (s.advance.client.network.link k) := by
  rcases hwaiting : s.waiting with _ | ⟨⟨number, filter | _⟩, rest⟩
  · rw [advance_nil hwaiting]
    exact h
  · rw [advance_query hwaiting]
    exact Client.query_link_keeps hP s.client filter h
  · rw [advance_shutdown hwaiting]
    change P (s.client.shutdown.network.link k)
    rw [Client.shutdown_network]
    exact h

theorem run_link_keeps {P : Link → Prop} (hP : Link.Kept P) {s : SharedClient Course} {k : Nat}
    (steps : List Step) (h : P (s.client.network.link k)) :
    P ((s.run steps).client.network.link k) := by
  induction steps generalizing s with
  | nil => exact h
  | cons next rest ih =>
    apply ih
    cases next with
    | submit command =>
      change P ((s.submit command).2.client.network.link k)
      rw [submit_client]
      exact h
    | advance => exact advance_link_keeps hP h

theorem advance_clean {s : SharedClient Course} (h : s.client.Clean) : s.advance.client.Clean := by
  rcases hwaiting : s.waiting with _ | ⟨⟨number, filter | _⟩, rest⟩
  · rw [advance_nil hwaiting]
    exact h
  · rw [advance_query hwaiting]
    exact (h.query filter).1
  · rw [advance_shutdown hwaiting]
    exact Client.shutdown_clean s.client

/-- A client of a course, with a connection that was opened for it or without one. -/
def start (limit : Nat) (opened : Bool) (turns : List Turn) : SharedClient Course where
  client :=
    { network := ⟨if opened then [.fresh] else [], turns⟩
      frameLimit := limit
      connection := if opened then some (0 : Nat) else none }

theorem start_link (limit : Nat) (opened : Bool) (turns : List Turn) (k : Nat) :
    (start limit opened turns).client.network.link k = .fresh := by
  cases opened with
  | false => rfl
  | true => cases k <;> rfl

theorem start_clean (limit : Nat) (opened : Bool) (turns : List Turn) :
    (start limit opened turns).client.Clean := by
  intro k hk
  rw [start_link]
  refine ⟨?_, Link.fresh_settled⟩
  cases opened with
  | false => cases hk
  | true =>
    rw [← Option.some.inj hk]
    exact Nat.zero_lt_one

/-! ## The invariant -/

/-- At a step that ran the call, its request was sent and answered with the result. -/
def Delivered (s : SharedClient Course) (steps : List Step) (number : Nat)
    (result : Except ExchangeFault (List Event)) : Prop :=
  ∃ before after filter k message, steps = before ++ .advance :: after ∧
    (s.run before).waiting.head? = some ⟨number, .query filter⟩ ∧
    Exchanged (s.run before).client.network (s.run before).advance.client.network k filter
      message ∧
    message.events? = result

theorem Delivered.append {s : SharedClient Course} {steps : List Step} {number : Nat}
    {result : Except ExchangeFault (List Event)} (h : Delivered s steps number result)
    (next : Step) : Delivered s (steps ++ [next]) number result := by
  obtain ⟨before, after, filter, k, message, rfl, hrest⟩ := h
  refine ⟨before, after ++ [next], filter, k, message, ?_, hrest⟩
  rw [List.append_assoc, List.cons_append]

structure Sound (s : SharedClient Course) (steps : List Step) : Prop where
  clean : (s.run steps).client.Clean
  next : (s.run steps).next = (commands steps).length
  waiting : ∀ call ∈ (s.run steps).waiting, (commands steps)[call.number]? = some call.command
  ascending : (s.run steps).waiting.Pairwise (·.number < ·.number)
  told : ∀ number result, (s.run steps).outcome? number = some (.answered result) →
    Client.Told result → Delivered s steps number result

namespace Sound
variable {s : SharedClient Course} {steps : List Step}

theorem number_lt_next (h : Sound s steps) {call : Call} (hcall : call ∈ (s.run steps).waiting) :
    call.number < (s.run steps).next := by
  rw [h.next]
  exact (List.getElem?_eq_some_iff.1 (h.waiting call hcall)).1

/-- A call that is run is never run again. -/
theorem past_advance (h : Sound s steps) {call : Call}
    (hhead : (s.run steps).waiting.head? = some call) :
    (s.run steps).advance.Past call.number := by
  obtain ⟨rest, hwaiting⟩ := List.head?_eq_some_iff.1 hhead
  have hlt := h.number_lt_next (List.mem_of_mem_head? hhead)
  have hascending := h.ascending
  rw [hwaiting, List.pairwise_cons] at hascending
  refine ⟨by rw [advance_next]; exact hlt, fun other hother => ?_⟩
  obtain ⟨number, filter | _⟩ := call
  · rw [advance_query hwaiting] at hother
    exact hascending.1 other hother
  · rw [advance_shutdown hwaiting] at hother
    cases hother

theorem submit (h : Sound s steps) (command : Command) :
    Sound s (steps ++ [.submit command]) := by
  have hrun : s.run (steps ++ [.submit command]) = ((s.run steps).submit command).2 :=
    run_append s steps _
  constructor
  · rw [hrun, submit_client]
    exact h.clean
  · rw [hrun, submit_next, h.next, commands_append_submit, List.length_append]
    rfl
  · intro call hcall
    rw [hrun] at hcall
    rcases mem_submit_waiting hcall with hcall | rfl
    · exact commands_append (h.waiting call hcall) _
    · rw [commands_append_submit, h.next]
      exact List.getElem?_concat_length
  · rw [hrun]
    rcases (s.run steps).submit_waiting command with hwaiting | hwaiting <;> rw [hwaiting]
    · exact h.ascending
    · refine List.pairwise_append.2 ⟨h.ascending, List.pairwise_singleton _ _, ?_⟩
      intro call hcall last hlast
      rw [List.mem_singleton.1 hlast]
      exact h.number_lt_next hcall
  · intro number result houtcome htold
    rw [hrun] at houtcome
    rcases submit_outcome? houtcome with hold | haway
    · exact (h.told number result hold htold).append _
    · exact absurd htold (turnedAway_not_told haway)

theorem advance (h : Sound s steps) : Sound s (steps ++ [.advance]) := by
  have hrun : s.run (steps ++ [.advance]) = (s.run steps).advance := run_append s steps _
  constructor
  · rw [hrun]
    exact advance_clean h.clean
  · rw [hrun, advance_next, commands_append_advance]
    exact h.next
  · intro call hcall
    rw [hrun] at hcall
    rw [commands_append_advance]
    exact h.waiting call ((advance_waiting _).mem hcall)
  · rw [hrun]
    exact h.ascending.sublist (advance_waiting _)
  · intro number result houtcome htold
    rw [hrun] at houtcome
    rcases advance_outcome? houtcome with
      hold | ⟨command, haway⟩ | ⟨filter, hhead, hresult, hclient⟩
    · exact (h.told number result hold htold).append _
    · exact absurd htold (turnedAway_not_told haway)
    · cases hresult
      obtain ⟨k, message, hexchanged, hevents⟩ := (h.clean.query filter).2 htold
      exact ⟨steps, [], filter, k, message, rfl, hhead, hclient ▸ hexchanged, hevents⟩

end Sound

theorem run_sound (limit : Nat) (opened : Bool) (turns : List Turn) (steps : List Step) :
    Sound (start limit opened turns) steps := by
  induction steps using List.reverseRecOn with
  | nil => exact ⟨start_clean limit opened turns, rfl, nofun, .nil, nofun⟩
  | append_singleton steps next ih =>
    cases next with
    | submit command => exact ih.submit command
    | advance => exact ih.advance

/-! ## Which request was sent for which call -/

/-- While the call was run, `frame` was sent as request `index` of link `k`. -/
def Sent (s : SharedClient Course) (steps : List Step) (number k index : Nat) (frame : Bytes) :
    Prop :=
  ∃ before after command, steps = before ++ .advance :: after ∧
    (s.run before).waiting.head? = some ⟨number, command⟩ ∧
    ((s.run before).client.network.link k).requests.length ≤ index ∧
    ((s.run before).advance.client.network.link k).requests[index]? = some frame

/-- A request that was sent while one call was run was there before any later one. -/
theorem sent_before {s : SharedClient Course} {before mid : List Step} {k index : Nat}
    (hold : ((s.run (before ++ .advance :: mid)).client.network.link k).requests.length ≤ index) :
    ((s.run before).advance.client.network.link k).requests[index]? = none := by
  have hgrown := run_link_keeps (Link.extends_kept _) mid
    (Link.Extends.refl ((s.run before).advance.client.network.link k))
  rw [← run_split] at hgrown
  exact List.getElem?_eq_none (Nat.le_trans hgrown.requests.length_le hold)

/-- No request is sent for two calls. -/
theorem sent_for_one_call {s : SharedClient Course} {steps : List Step}
    {number other k index : Nat} {frame frame' : Bytes} (h : Sent s steps number k index frame)
    (h' : Sent s steps other k index frame') : other = number := by
  obtain ⟨before, after, command, hsteps, hhead, hold, hnew⟩ := h
  obtain ⟨before', after', command', hsteps', hhead', hold', hnew'⟩ := h'
  rcases split_cases (hsteps.symm.trans hsteps') with rfl | ⟨mid, rfl⟩ | ⟨mid, rfl⟩
  · rw [hhead] at hhead'
    cases hhead'
    rfl
  · rw [sent_before hold'] at hnew
    cases hnew
  · rw [sent_before hold] at hnew'
    cases hnew'

/-- A call is run at one step only. -/
theorem run_once {s : SharedClient Course} {steps before after before' after' : List Step}
    {number : Nat} {command command' : Command} (hsound : ∀ steps, Sound s steps)
    (h : steps = before ++ .advance :: after)
    (hhead : (s.run before).waiting.head? = some ⟨number, command⟩)
    (h' : steps = before' ++ .advance :: after')
    (hhead' : (s.run before').waiting.head? = some ⟨number, command'⟩) : before = before' := by
  have hlater : ∀ {early mid late first second}, late = early ++ Step.advance :: mid →
      (s.run early).waiting.head? = some ⟨number, first⟩ →
      (s.run late).waiting.head? ≠ some ⟨number, second⟩ := by
    rintro early mid late first second rfl hearly hlate
    rw [run_split] at hlate
    have hpast := ((hsound early).past_advance hearly).run mid
    exact Nat.lt_irrefl _ (hpast.2 ⟨number, second⟩ (List.mem_of_mem_head? hlate))
  rcases split_cases (h.symm.trans h') with heq | ⟨mid, hmid⟩ | ⟨mid, hmid⟩
  · exact heq
  · exact absurd hhead' (hlater hmid hhead)
  · exact absurd hhead (hlater hmid hhead')

/-- What a call is told is in the response to the request that was sent for it. One
request was sent for the call and for no other, and it has one response at most. -/
theorem call_told_own_answer (limit : Nat) (opened : Bool) (turns : List Turn)
    (steps : List Step) (number : Nat) (result : Except ExchangeFault (List Event))
    (houtcome : ((start limit opened turns).run steps).outcome? number = some (.answered result))
    (htold : Client.Told result) :
    let s := start limit opened turns
    ∃ filter k frame r message, (commands steps)[number]? = some (.query filter) ∧
      (Wire.Message.ofFilter filter).frame = .ok frame ∧
      Sent s steps number k r.request frame ∧
      (∀ j index other, Sent s steps number j index other → j = k ∧ index = r.request) ∧
      (∀ caller other, Sent s steps caller k r.request other → caller = number) ∧
      r ∈ ((s.run steps).client.network.link k).responses ∧
      (∀ t ∈ ((s.run steps).client.network.link k).responses, t.request = r.request → t = r) ∧
      Wire.Message.decode r.body = .ok message ∧ message.events? = result := by
  intro s
  have hsound : ∀ steps, Sound s steps := run_sound limit opened turns
  have hfresh : ∀ k, s.client.network.link k = .fresh := start_link limit opened turns
  change (s.run steps).outcome? number = some (.answered result) at houtcome
  clear_value s
  obtain ⟨before, after, filter, k, message, rfl, hhead, hexchanged, hevents⟩ :=
    (hsound steps).told number result houtcome htold
  obtain ⟨frame, hframe, hown⟩ := hexchanged.own
  obtain ⟨r, hr, hrequest, hdecode⟩ := hexchanged.answer
  have hsent : Sent s (before ++ .advance :: after) number k r.request frame := by
    refine ⟨before, after, .query filter, rfl, hhead, Nat.le_of_eq hrequest.symm, ?_⟩
    rw [hown, hrequest]
    exact List.getElem?_concat_length
  have hordered : ((s.run (before ++ .advance :: after)).client.network.link k).Ordered := by
    apply run_link_keeps Link.ordered_kept
    rw [hfresh]
    exact Link.fresh_ordered
  have hkept : r ∈ ((s.run (before ++ .advance :: after)).client.network.link k).responses := by
    rw [run_split]
    exact (run_link_keeps (Link.extends_kept _) after (Link.Extends.refl _)).responses.mem hr
  refine ⟨filter, k, frame, r, message, ?_, hframe, hsent, ?_, ?_, hkept, ?_, hdecode, hevents⟩
  · exact commands_append ((hsound before).waiting _ (List.mem_of_mem_head? hhead)) _
  · rintro j index other ⟨before', after', command, hsteps', hhead', hold', hnew'⟩
    obtain rfl := run_once hsound rfl hhead hsteps' hhead'
    have hlt := (List.getElem?_eq_some_iff.1 hnew').1
    by_cases hj : j = k
    · subst hj
      rw [hown, List.length_append, List.length_singleton] at hlt
      exact ⟨rfl, by omega⟩
    · rw [hexchanged.others j hj] at hlt
      omega
  · exact fun caller other h => sent_for_one_call hsent h
  · exact fun t ht hsame => hordered.unique t ht r hkept hsame

/-- The refusal of a query that ran out of time arrives while the next one waits. -/
theorem call_told_own_answer_behind_timeout :
    let steps : List Step :=
      [.submit (.query "a"), .submit (.query "b"), .advance, .advance]
    let s := start defaultFrameLimit true [{}, { fault := some .timeout }, {}, {},
      { moves := [(0, .answer ⟨0, [16, 0]⟩), (1, .answer ⟨0, []⟩)] }]
    (s.run steps).outcome? 0 = some (.answered (.error .timeout)) ∧
    (s.run steps).outcome? 1 = some (.answered (.ok [])) ∧
    ((s.run steps).client.network.link 0).responses = [⟨0, [16, 0]⟩] ∧
    ∃ filter k frame r, (commands steps)[1]? = some (.query filter) ∧
      (Wire.Message.ofFilter filter).frame = .ok frame ∧
      Sent s steps 1 k r.request frame ∧
      r ∈ ((s.run steps).client.network.link k).responses := by
  intro steps s
  have hlate : (s.run steps).outcome? 0 = some (.answered (.error .timeout)) := by decide +kernel
  have hrefusal : ((s.run steps).client.network.link 0).responses = [⟨0, [16, 0]⟩] := by
    decide +kernel
  have htold : (s.run steps).outcome? 1 = some (.answered (.ok [])) := by decide +kernel
  obtain ⟨filter, k, frame, r, -, hcommand, hframe, hsent, -, -, hr, -⟩ :=
    call_told_own_answer defaultFrameLimit true _ steps 1 _ htold (.inl ⟨[], rfl⟩)
  exact ⟨hlate, htold, hrefusal, filter, k, frame, r, hcommand, hframe, hsent, hr⟩

end EventTree.SharedClient
