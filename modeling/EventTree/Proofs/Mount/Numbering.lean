import EventTree.Proofs.Mount.InodeMaps

/-!
# Numbers issued once

Numbers are issued in ascending order, and as long as no more are issued than there are,
each is issued once. Then every number leads back to its path. `Coherent` says this only
of the numbers below the last, since it also holds when the last is issued again;
`Numbered` says it of the last as well.
-/
namespace EventTree.Inodes

/-- How many of the paths have no number. -/
def untracked (t : Inodes) (paths : List Path) : Nat :=
  paths.countP fun p => (t.numberOf? p).isNone

/-- Issues numbers that stay untracked. -/
def reserve (t : Inodes) (count : Nat) : Inodes :=
  { t with next := min (t.next + count) maxNumber }

@[simp] theorem reserve_next (t : Inodes) (count : Nat) :
    (t.reserve count).next = min (t.next + count) maxNumber := rfl

theorem issue_eq_reserve (t : Inodes) : t.issue = (t.next, t.reserve 1) := rfl

theorem reserve_zero {t : Inodes} (h : t.next ≤ maxNumber) : t.reserve 0 = t := by
  have hnext : min (t.next + 0) maxNumber = t.next := by omega
  rw [reserve, hnext]

theorem reserve_reserve (t : Inodes) (a b : Nat) :
    (t.reserve a).reserve b = t.reserve (a + b) := by
  have hnext : min (min (t.next + a) maxNumber + b) maxNumber =
      min (t.next + (a + b)) maxNumber := by omega
  rw [reserve, reserve, reserve, hnext]

theorem untracked_singleton {t : Inodes} {path : Path} :
    t.untracked [path] = if t.numberOf? path = none then 1 else 0 := by
  rw [untracked, List.countP_singleton]
  simp only [Option.isNone_iff_eq_none]

theorem untracked_of_known {t : Inodes} {path : Path} {inode : Nat}
    (h : t.numberOf? path = some inode) : t.untracked [path] = 0 := by
  rw [untracked_singleton, h, if_neg nofun]

theorem untracked_of_new {t : Inodes} {path : Path} (h : t.numberOf? path = none) :
    t.untracked [path] = 1 := by
  rw [untracked_singleton, if_pos h]

theorem Coherent.reserve {t : Inodes} (h : t.Coherent) (count : Nat) :
    (t.reserve count).Coherent := by
  have hle := h.next_le
  have hroot := h.root_lt_next
  have hlast : rootNumber < maxNumber := by decide
  refine ⟨h.number_of_path, h.path_of_number, ?_, h.root, ?_, ?_⟩
  · intro i p hi
    rw [reserve_next]
    rcases h.issued hi with hlt | hlast <;> omega
  · rw [reserve_next]
    omega
  · rw [reserve_next]
    omega

/-- The numbers up to `issued` are issued, each once. -/
structure Numbered (t : Inodes) (issued : Nat) : Prop where
  coherent : t.Coherent
  next_eq : t.next = min (issued + 1) maxNumber
  number_le : ∀ {i p}, t.numberOf? p = some i → i ≤ issued
  path_of_number : ∀ {i p}, t.numberOf? p = some i → ∃ q, t.pathOf? i = some q ∧ q.Same p

namespace Numbered
variable {t : Inodes} {n : Nat}

theorem inode_le (h : t.Numbered n) {i : Nat} {p : Path} (hp : t.pathOf? i = some p) : i ≤ n :=
  h.number_le (h.coherent.number_of_path hp)

/-- The number to issue next is new, if any is left. -/
theorem next_new (h : t.Numbered n) (hleft : n < maxNumber) : t.next = n + 1 := by
  have hnext := h.next_eq
  omega

theorem pathOf?_next (h : t.Numbered n) (hleft : n < maxNumber) : t.pathOf? t.next = none := by
  cases hp : t.pathOf? t.next with
  | none => rfl
  | some p =>
    have hle := h.inode_le hp
    have hnext := h.next_new hleft
    omega

theorem initial : Inodes.initial.Numbered 1 where
  coherent := initial_coherent
  next_eq := by decide
  number_le {i p} hi := by
    rcases initial_coherent.issued hi with hlt | hlast
    · exact Nat.le_of_lt_succ hlt
    · exact absurd hlast (by decide)
  path_of_number {i p} hi := by
    apply initial_coherent.path_of_number hi
    rcases initial_coherent.issued hi with hlt | hlast
    · exact Nat.lt_trans hlt (by decide)
    · exact absurd hlast (by decide)

theorem modify (h : t.Numbered n) (inode : Nat) {f : TrackedNode → TrackedNode}
    (hf : ∀ e, (f e).path = e.path) : (t.modify inode f).Numbered n := by
  have hnumber : (t.modify inode f).numberOf? = t.numberOf? := by
    funext p
    rw [numberOf?, numberOf?, modify_numbers]
  refine ⟨h.coherent.modify inode hf, ?_, ?_, ?_⟩
  · rw [modify_next]
    exact h.next_eq
  · rw [hnumber]
    exact h.number_le
  · rw [hnumber, t.pathOf?_modify inode hf]
    exact h.path_of_number

theorem reserve (h : t.Numbered n) (count : Nat) : (t.reserve count).Numbered (n + count) where
  coherent := h.coherent.reserve count
  next_eq := by
    have hnext := h.next_eq
    rw [reserve_next]
    omega
  number_le hi := Nat.le_add_right_of_le (h.number_le hi)
  path_of_number := h.path_of_number

theorem enter (h : t.Numbered n) (hleft : n < maxNumber) {path : Path} (kind : NodeKind)
    (hnew : t.numberOf? path = none) : (t.issue.2.enter t.next path kind).Numbered (n + 1) where
  coherent := h.coherent.enter kind hnew
  next_eq := by
    have hnext := h.next_new hleft
    change (t.reserve 1).next = _
    rw [reserve_next]
    omega
  number_le {i p} hi := by
    rw [numberOf?_enter] at hi
    split at hi
    · exact Nat.le_of_eq ((Option.some.inj hi).symm.trans (h.next_new hleft))
    · exact Nat.le_succ_of_le (h.number_le hi)
  path_of_number {i p} hi := by
    rw [numberOf?_enter] at hi
    rw [pathOf?_enter]
    split at hi
    · next hp =>
      rw [if_pos (Option.some.inj hi).symm]
      exact ⟨path, rfl, hp.symm⟩
    · have hle : i ≤ n := h.number_le hi
      have hne : i ≠ t.next := by
        have hnext := h.next_new hleft
        omega
      rw [if_neg hne]
      exact h.path_of_number hi

theorem drop (h : t.Numbered n) {inode : Nat} {path : Path} (hroot : inode ≠ rootNumber)
    (htracked : t.pathOf? inode = some path) : (t.drop inode path).Numbered n where
  coherent := h.coherent.drop hroot htracked
  next_eq := h.next_eq
  number_le {i p} hi := by
    rw [numberOf?_drop] at hi
    split at hi
    · cases hi
    · exact h.number_le hi
  path_of_number {i p} hi := by
    rw [numberOf?_drop] at hi
    split at hi
    · cases hi
    · next hother =>
      obtain ⟨q, hq, hsame⟩ := h.path_of_number hi
      have hne : i ≠ inode := by
        rintro rfl
        rw [htracked] at hq
        exact hother (Option.some.inj hq ▸ hsame.symm)
      exact ⟨q, by rw [pathOf?_drop, if_neg hne]; exact hq, hsame⟩

theorem track (h : t.Numbered n) (path : Path) (kind : NodeKind)
    (hleft : n + t.untracked [path] ≤ maxNumber) :
    (t.track path kind).2.Numbered (n + t.untracked [path]) := by
  cases hnumber : t.numberOf? path with
  | some inode =>
    rw [untracked_of_known hnumber, track_known hnumber]
    exact h.modify inode fun _ => rfl
  | none =>
    rw [untracked_of_new hnumber] at hleft ⊢
    rw [h.coherent.track_new hnumber]
    exact h.enter hleft kind hnumber

theorem lookup (h : t.Numbered n) (path : Path) (kind : NodeKind)
    (hleft : n + t.untracked [path] ≤ maxNumber) :
    (t.lookup path kind).2.Numbered (n + t.untracked [path]) := by
  rw [lookup_eq]
  exact (h.track path kind hleft).modify _ fun _ => rfl

theorem forget (h : t.Numbered n) (inode count : Nat) : (t.forget inode count).Numbered n := by
  rcases t.forget_cases inode count with heq | heq | ⟨e, hroot, he, -, heq⟩
  · rw [heq]
    exact h
  · rw [heq]
    exact h.modify inode fun _ => rfl
  · rw [heq]
    exact h.drop hroot (pathOf?_eq_some_iff.2 ⟨e, he, rfl⟩)

end Numbered

end EventTree.Inodes
