import EventTree.Proofs.Remote.Worker

/-!
# Each call is in one place

A call is in the queue, in the hands of the worker, or replied to, and in one of these places
at a time. So no call is lost and none is replied to twice.

Calls are served in their order. So a call is replied to after a number of the worker's
actions that only the calls before it decide, whatever is done in between: `replied_after`.
-/
namespace EventTree.Worker
variable {ν : Type} [Network ν]

/-! ## The account of the calls -/

structure Accounted (s : Worker ν) : Prop where
  places : (s.replied ++ s.pending).Perm (List.range s.commands.length)
  /-- Earlier calls are served first. -/
  ascending : s.pending.Pairwise (· < ·)

namespace Accounted
variable {s t : Worker ν}

theorem pending_lt (h : s.Accounted) {number : Nat} (hnumber : number ∈ s.pending) :
    number < s.commands.length :=
  List.mem_range.1 (h.places.subset (List.mem_append_right _ hnumber))

theorem replied_lt (h : s.Accounted) {number : Nat} (hnumber : number ∈ s.replied) :
    number < s.commands.length :=
  List.mem_range.1 (h.places.subset (List.mem_append_left _ hnumber))

theorem replied_or_pending (h : s.Accounted) {number : Nat}
    (hnumber : number < s.commands.length) : number ∈ s.replied ∨ number ∈ s.pending :=
  List.mem_append.1 (h.places.symm.subset (List.mem_range.2 hnumber))

theorem nodup (h : s.Accounted) : (s.replied ++ s.pending).Nodup :=
  h.places.nodup_iff.2 List.nodup_range

theorem start (c : Client ν) : Accounted ({ client := c } : Worker ν) :=
  ⟨.refl _, .nil⟩

theorem keep (h : s.Accounted) (hcommands : t.commands = s.commands)
    (hreplies : t.replies = s.replies) (hpending : t.pending = s.pending) : t.Accounted where
  places := by
    rw [hcommands, replied, hreplies, hpending]
    exact h.places
  ascending := by
    rw [hpending]
    exact h.ascending

/-- The first of the pending calls is replied to. -/
theorem reply (h : s.Accounted) {number : Nat} {o : Outcome}
    (hcommands : t.commands = s.commands) (hreplies : t.replies = s.replies ++ [(number, o)])
    (hpending : s.pending = number :: t.pending) : t.Accounted where
  places := by
    have hplaces := h.places
    rw [hpending] at hplaces
    rw [hcommands, replied, hreplies, List.map_append, List.append_assoc]
    exact hplaces
  ascending := by
    have hascending := h.ascending
    rw [hpending] at hascending
    exact hascending.of_cons

theorem accept (h : s.Accounted) {command : Command}
    (hcommands : t.commands = s.commands ++ [command]) (hreplies : t.replies = s.replies)
    (hpending : t.pending = s.pending ++ [s.commands.length]) : t.Accounted where
  places := by
    rw [hcommands, List.length_append, List.length_singleton, List.range_succ, replied, hreplies,
      hpending, ← List.append_assoc]
    exact h.places.append_right _
  ascending := by
    rw [hpending]
    refine List.pairwise_append.2 ⟨h.ascending, List.pairwise_singleton _ _, ?_⟩
    intro number hnumber last hlast
    rw [List.mem_singleton.1 hlast]
    exact h.pending_lt hnumber

theorem refuse (h : s.Accounted) {command : Command} {o : Outcome}
    (hcommands : t.commands = s.commands ++ [command])
    (hreplies : t.replies = s.replies ++ [(s.commands.length, o)])
    (hpending : t.pending = s.pending) : t.Accounted where
  places := by
    have hlast : ([s.commands.length] ++ s.pending).Perm (s.pending ++ [s.commands.length]) :=
      List.perm_append_comm
    rw [hcommands, List.length_append, List.length_singleton, List.range_succ, replied, hreplies,
      hpending, List.map_append, List.append_assoc]
    refine (hlast.append_left _).trans ?_
    rw [← List.append_assoc]
    exact h.places.append_right _
  ascending := by
    rw [hpending]
    exact h.ascending

end Accounted

theorem Worked.accounted {s t : Worker ν} (w : Worked s t) (h : s.Accounted) : t.Accounted := by
  cases w with
  | wait => exact h
  | takeQuery htask hqueue =>
    refine h.keep rfl rfl ?_
    rw [pending, pending, htask, hqueue]
    rfl
  | takeShutdown htask hqueue =>
    refine h.keep rfl rfl ?_
    rw [pending, pending, htask, hqueue]
    rfl
  | answer htask =>
    refine h.reply rfl rfl ?_
    rw [pending, htask]
    rfl
  | confirm htask =>
    refine h.reply rfl rfl ?_
    rw [pending, htask]
    rfl
  | drop htask hqueue =>
    refine h.reply rfl rfl ?_
    rw [pending, pending, htask, hqueue]
    rfl
  | gone => exact h
  | desert htask | ask htask | close htask | disconnect htask | leave htask =>
    refine h.keep rfl rfl ?_
    rw [pending, pending, htask]
    rfl

theorem Moved.accounted {s t : Worker ν} (m : Moved s t) (h : s.Accounted) : t.Accounted := by
  cases m with
  | callers handles abandoned => exact h.keep rfl rfl rfl
  | accepted command =>
    refine h.accept rfl rfl ?_
    rw [pending, pending, List.map_append, List.append_assoc]
    rfl
  | refused command => exact h.refuse rfl rfl rfl
  | worked w => exact w.accounted h

/-- A worker that is gone has left nothing and gets nothing. -/
def Cleared (s : Worker ν) : Prop := s.task = .gone → s.queue = [] ∧ s.accepting = false

theorem Moved.cleared {s t : Worker ν} (m : Moved s t) (h : s.Cleared) : t.Cleared := by
  cases m with
  | callers handles abandoned => exact h
  | accepted command hhandles haccepting =>
    intro htask
    rw [(h htask).2] at haccepting
    cases haccepting
  | refused command => exact h
  | worked w =>
    cases w with
    | leave htask hqueue => exact fun _ => ⟨hqueue, rfl⟩
    | wait | gone => exact h
    | drop htask hqueue =>
      intro htask'
      rw [htask] at htask'
      cases htask'
    | _ => exact nofun

/-! ## Each call gets its turn -/

/-- The actions up to the reply to the call in hand, if it is one of the first `count`. -/
def Task.cost (count : Nat) : Task → Nat
  | .ask number _ => if number < count then 2 else 0
  | .answer number _ => if number < count then 1 else 0
  | .close number => if number < count then 3 else 0
  | .disconnect number => if number < count then 2 else 0
  | .confirm number => if number < count then 1 else 0
  | .take | .quit | .gone => 0

/-- After so many actions of the worker the first `count` calls are replied to. -/
def owed (s : Worker ν) (count : Nat) : Nat :=
  4 * s.queue.countP (·.number < count) + s.task.cost count

theorem Task.cost_le (task : Task) (count : Nat) : task.cost count ≤ 3 := by
  cases task with
  | take | quit | gone => exact Nat.zero_le 3
  | ask number _ | answer number _ | close number | disconnect number | confirm number =>
    simp only [cost]
    split <;> decide

theorem owed_le (s : Worker ν) (count : Nat) : s.owed count ≤ 4 * s.queue.length + 3 := by
  have hqueue : s.queue.countP (·.number < count) ≤ s.queue.length := List.countP_le_length
  have hcost := s.task.cost_le count
  rw [owed]
  omega

/-- Behind a later call all calls are later. -/
theorem countP_late {number count : Nat} {calls : List Call}
    (h : (number :: calls.map (·.number)).Pairwise (· < ·)) (hnumber : ¬ number < count) :
    calls.countP (·.number < count) = 0 := by
  rw [List.countP_eq_zero]
  intro call hcall
  have hlt := List.rel_of_pairwise_cons h (List.mem_map_of_mem hcall)
  simp only [decide_eq_true_eq]
  omega

theorem Worked.owed_lt {s t : Worker ν} (w : Worked s t) (h : s.Accounted) (hcleared : s.Cleared)
    (count : Nat) : t.owed count ≤ s.owed count - 1 := by
  have hascending := h.ascending
  rw [pending] at hascending
  cases w with
  | wait htask hqueue =>
    rw [owed, htask, hqueue]
    exact Nat.zero_le _
  | takeQuery htask hqueue =>
    rw [htask, hqueue] at hascending
    simp only [owed, htask, hqueue, List.countP_cons, Task.cost, decide_eq_true_eq]
    split
    · omega
    · next hnumber =>
      have hlate := countP_late hascending hnumber
      omega
  | takeShutdown htask hqueue =>
    rw [htask, hqueue] at hascending
    simp only [owed, htask, hqueue, List.countP_cons, Task.cost, decide_eq_true_eq]
    split
    · omega
    · next hnumber =>
      have hlate := countP_late hascending hnumber
      omega
  | drop htask hqueue =>
    rw [htask, hqueue] at hascending
    simp only [owed, htask, hqueue, List.countP_cons, Task.cost, decide_eq_true_eq]
    split
    · omega
    · next hnumber =>
      have hlate := countP_late hascending hnumber
      omega
  | desert htask hqueue hhandles =>
    simp only [owed, hqueue]
    exact Nat.zero_le _
  | leave htask hqueue =>
    simp only [owed, hqueue]
    exact Nat.zero_le _
  | gone htask =>
    rw [owed, htask, (hcleared htask).1]
    exact Nat.zero_le _
  | ask htask | answer htask | close htask | disconnect htask | confirm htask =>
    rw [htask] at hascending
    simp only [owed, htask, Task.cost]
    split
    · omega
    · next hnumber =>
      have hlate := countP_late hascending hnumber
      omega

/-- What the callers do in between costs the earlier calls nothing. -/
theorem move_owed {s : Worker ν} (h : s.Accounted) (hcleared : s.Cleared) {count : Nat}
    (hcount : count ≤ s.commands.length) (m : Move) :
    (s.move m).owed count ≤ s.owed count - [m].count .work := by
  cases m with
  | call command =>
    have hlate : ([⟨s.commands.length, command⟩] : List Call).countP (·.number < count) = 0 :=
      List.countP_eq_zero.2 fun call hcall => by
        rw [List.mem_singleton.1 hcall]
        simpa only [decide_eq_true_eq, Nat.not_lt] using hcount
    simp only [move]
    split
    · exact Nat.le_refl _
    · rw [call]
      split
      · simp only [owed, List.countP_append, hlate]
        exact Nat.le_refl _
      · exact Nat.le_refl _
  | abandon number =>
    simp only [move]
    split <;> exact Nat.le_refl _
  | cloneHandle =>
    simp only [move]
    split <;> exact Nat.le_refl _
  | dropHandle => exact Nat.le_refl _
  | work => exact s.work_worked.owed_lt h hcleared count

theorem Moved.commands_le {s t : Worker ν} (m : Moved s t) :
    s.commands.length ≤ t.commands.length := by
  cases m with
  | callers => exact Nat.le_refl _
  | accepted command | refused command =>
    rw [List.length_append]
    exact Nat.le_add_right _ _
  | worked w => cases w <;> exact Nat.le_refl _

theorem run_owed {s : Worker ν} (h : s.Accounted) (hcleared : s.Cleared) {count : Nat}
    (hcount : count ≤ s.commands.length) (moves : List Move) :
    (s.run moves).owed count ≤ s.owed count - moves.count .work := by
  induction moves generalizing s with
  | nil => exact Nat.le_refl _
  | cons m rest ih =>
    have hmoved := s.move_moved m
    have hstep := move_owed h hcleared hcount m
    have hrest := ih (hmoved.accounted h) (hmoved.cleared hcleared)
      (Nat.le_trans hcount hmoved.commands_le)
    have hworks : (m :: rest).count .work = [m].count .work + rest.count .work := by
      rw [← List.singleton_append, List.count_append]
    change ((s.move m).run rest).owed count ≤ _
    omega

theorem not_pending_of_owed {s : Worker ν} {count : Nat} (h : s.owed count = 0) {number : Nat}
    (hnumber : number < count) : number ∉ s.pending := by
  rw [owed, Nat.add_eq_zero_iff, Nat.mul_eq_zero] at h
  obtain ⟨hqueue, hcost⟩ := h
  rw [pending, List.mem_append, List.mem_map]
  rintro (hhand | ⟨call, hcall, rfl⟩)
  · rw [Option.mem_toList] at hhand
    cases htask : s.task <;> rw [htask] at hhand hcost <;> cases hhand <;>
      simp only [Task.cost, if_pos hnumber] at hcost <;> cases hcost
  · have hlate := List.countP_eq_zero.1 (hqueue.resolve_left (by decide)) call hcall
    exact hlate (decide_eq_true hnumber)

/-- A call is replied to once the worker has done enough, whatever else is done. -/
theorem replied_after {s : Worker ν} (h : s.Accounted) (hcleared : s.Cleared) {moves : List Move}
    (hmoves : 4 * s.queue.length + 3 ≤ moves.count .work) {number : Nat}
    (hnumber : number < s.commands.length) : number ∈ (s.run moves).replied := by
  have howed := s.owed_le s.commands.length
  have hrun := run_owed h hcleared (Nat.le_refl _) moves
  have hzero : (s.run moves).owed s.commands.length = 0 := by omega
  have haccounted : (s.run moves).Accounted := run_keeps (fun _ _ m => m.accounted) h moves
  have hcommands : s.commands.length ≤ (s.run moves).commands.length :=
    run_keeps (P := (s.commands.length ≤ ·.commands.length))
      (fun _ _ m hle => Nat.le_trans hle m.commands_le) (Nat.le_refl _) moves
  exact (haccounted.replied_or_pending (Nat.lt_of_lt_of_le hnumber hcommands)).resolve_right
    (not_pending_of_owed hzero hnumber)

end EventTree.Worker
