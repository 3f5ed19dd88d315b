import Mathlib.Data.Finset.Card
import EventTree.Mount.Request
import EventTree.Proofs.Mount.Numbering

/-!
# The ledger of references

A lookup that finds a node gives the kernel a reference to it, and a forget takes
references back. A ledger says how many are outstanding. The inode table agrees with a
ledger if each number other than the root's is tracked exactly while references to it are
outstanding, and its entry counts them.

`Booked` lists the changes that a mount makes to its table, each with what is written down
of it. A path is entered without a reference only by a lookup, which then counts the first
one; to enter it again without counting changes nothing but the kind.
-/
namespace EventTree

/-- What a mount has told the kernel and been told by it. -/
structure Ledger where
  /-- Lookups that found a node. -/
  lookups : Nat := 0
  /-- Numbers issued, that of the root among them. -/
  issued : Nat := 1
  /-- The references to a number that are not taken back. -/
  outstanding : Nat → Nat := fun _ => 0

namespace Ledger

def issue (l : Ledger) (count : Nat) : Ledger := { l with issued := l.issued + count }

def hold (l : Ledger) (inode : Nat) : Ledger :=
  { l with
    lookups := l.lookups + 1
    outstanding := fun i => if i = inode then l.outstanding i + 1 else l.outstanding i }

/-- More references may be taken back than there are. -/
def takeBack (l : Ledger) (inode count : Nat) : Ledger :=
  { l with
    outstanding := fun i => if i = inode then l.outstanding i - count else l.outstanding i }

/-- The references after a request and its reply. -/
def record (l : Ledger) : Request → Reply → Ledger
  | .lookup _ _, .node found => l.hold found.inode
  | .forget inode count, _ => l.takeBack inode count
  | _, _ => l

theorem record_issued (l : Ledger) (request : Request) (reply : Reply) :
    (l.record request reply).issued = l.issued := by
  unfold record
  split <;> rfl

end Ledger

namespace Inodes

/-- The lookups counted for a number, none if it is not tracked. -/
def lookupsOf (t : Inodes) (inode : Nat) : Nat := ((t.get? inode).map (·.lookups)).getD 0

/-! ## What is counted -/

theorem lookupsOf_of_get? {t : Inodes} {i : Nat} {e : TrackedNode} (h : t.get? i = some e) :
    t.lookupsOf i = e.lookups := by
  rw [lookupsOf, h]
  rfl

theorem lookupsOf_modify (t : Inodes) (inode i : Nat) {f : TrackedNode → TrackedNode}
    (hf : ∀ e, (f e).lookups = e.lookups) :
    (t.modify inode f).lookupsOf i = t.lookupsOf i := by
  rw [lookupsOf, get?_modify, lookupsOf]
  split
  · next hi =>
    subst hi
    rw [Option.map_map]
    congr 2
    funext e
    exact hf e
  · rfl

/-- Only the number of the path may get another entry. -/
theorem Coherent.get?_track {t : Inodes} (h : t.Coherent) (path : Path) (kind : NodeKind) {i : Nat}
    (hi : i ≠ (t.track path kind).1) : (t.track path kind).2.get? i = t.get? i := by
  cases hnumber : t.numberOf? path with
  | some inode =>
    rw [track_known hnumber] at hi ⊢
    rw [get?_modify, if_neg hi]
  | none =>
    rw [h.track_new hnumber] at hi ⊢
    rw [get?_enter, if_neg hi]
    rfl

/-- A path is entered without lookups. -/
theorem Numbered.lookupsOf_track {t : Inodes} {n : Nat} (h : t.Numbered n) (path : Path)
    (kind : NodeKind) (hleft : n + t.untracked [path] ≤ maxNumber) (i : Nat) :
    (t.track path kind).2.lookupsOf i = t.lookupsOf i := by
  cases hnumber : t.numberOf? path with
  | some inode =>
    rw [track_known hnumber]
    exact t.lookupsOf_modify inode i fun _ => rfl
  | none =>
    rw [untracked_of_new hnumber] at hleft
    have hnew : t.get? t.next = none := Option.map_eq_none_iff.1 (h.pathOf?_next hleft)
    rw [h.coherent.track_new hnumber, lookupsOf, get?_enter]
    split
    · next hi =>
      rw [lookupsOf, hi, hnew]
      rfl
    · rfl

theorem Numbered.lookupsOf_lookup {t : Inodes} {n : Nat} (h : t.Numbered n) (path : Path)
    (kind : NodeKind) (hleft : n + t.untracked [path] ≤ maxNumber) (i : Nat) :
    (t.lookup path kind).2.lookupsOf i =
      if i = (t.lookup path kind).1 then min (t.lookupsOf i + 1) maxNumber else t.lookupsOf i := by
  rw [lookup_eq]
  have hcount := h.lookupsOf_track path kind hleft i
  obtain ⟨p, hp, -⟩ := (h.track path kind hleft).path_of_number
    (numberOf?_track h.coherent path kind)
  obtain ⟨e, he, -⟩ := pathOf?_eq_some_iff.1 hp
  rw [lookupsOf, get?_modify]
  split
  · next hi =>
    rw [← hcount, hi, lookupsOf_of_get? he, he]
    rfl
  · exact hcount

theorem get?_forget (t : Inodes) {inode : Nat} (hroot : inode ≠ rootNumber) (count i : Nat) :
    (t.forget inode count).get? i =
      if i = inode then
        (t.get? inode).bind fun e =>
          if e.lookups ≤ count then none else some { e with lookups := e.lookups - count }
      else t.get? i := by
  unfold forget
  rw [if_neg hroot]
  cases he : t.get? inode with
  | none =>
    by_cases hi : i = inode
    · rw [if_pos hi, hi]
      exact he
    · rw [if_neg hi]
  | some e =>
    simp only [Option.bind_some]
    by_cases hlast : e.lookups ≤ count
    · rw [if_pos (Nat.sub_eq_zero_of_le hlast), if_pos hlast]
      exact Keyed.get?_erase _ _ _
    · rw [if_neg (Nat.sub_ne_zero_of_lt (Nat.lt_of_not_le hlast)), if_neg hlast, get?_modify, he]
      rfl

theorem lookupsOf_forget (t : Inodes) {inode : Nat} (hroot : inode ≠ rootNumber) (count i : Nat) :
    (t.forget inode count).lookupsOf i =
      if i = inode then t.lookupsOf i - count else t.lookupsOf i := by
  rw [lookupsOf, get?_forget t hroot]
  split
  · next hi =>
    rw [lookupsOf, hi]
    cases t.get? inode with
    | none => exact (Nat.zero_sub count).symm
    | some e =>
      simp only [Option.bind_some, Option.map_some, Option.getD_some]
      split
      · next hlast => exact (Nat.sub_eq_zero_of_le hlast).symm
      · rfl
  · rfl

/-! ## The table agrees with the ledger -/

structure Agrees (t : Inodes) (l : Ledger) : Prop where
  numbered : t.Numbered l.issued
  counted : ∀ {i}, i ≠ rootNumber → t.lookupsOf i = l.outstanding i
  /-- No node is kept without a reference. -/
  held : ∀ {i e}, t.get? i = some e → i ≠ rootNumber → 0 < e.lookups
  outstanding_le : ∀ i, l.outstanding i ≤ l.lookups

theorem initial_agrees : initial.Agrees {} where
  numbered := .initial
  counted {i} hi := by
    rw [lookupsOf, get?_initial, if_neg hi]
    rfl
  held {i e} he hi := by
    rw [get?_initial, if_neg hi] at he
    cases he
  outstanding_le _ := Nat.le_refl 0

/-- One change of the table, and what is written down of it. -/
inductive Booked : Inodes → Ledger → Inodes → Ledger → Prop where
  | keep {t : Inodes} {l : Ledger} : Booked t l t l
  | refresh {t : Inodes} {l : Ledger} {path : Path} {inode : Nat} (kind : NodeKind) :
    t.numberOf? path = some inode → Booked t l (t.track path kind).2 l
  | lookup {t : Inodes} {l : Ledger} (path : Path) (kind : NodeKind) :
    Booked t l (t.lookup path kind).2
      ((l.issue (t.untracked [path])).hold (t.lookup path kind).1)
  | forget {t : Inodes} {l : Ledger} (inode count : Nat) :
    Booked t l (t.forget inode count) (l.takeBack inode count)
  | reserve {t : Inodes} {l : Ledger} (count : Nat) :
    Booked t l (t.reserve count) (l.issue count)

namespace Agrees
variable {t : Inodes} {l : Ledger}

theorem refresh (h : t.Agrees l) {path : Path} {inode : Nat} (kind : NodeKind)
    (hknown : t.numberOf? path = some inode) : (t.track path kind).2.Agrees l := by
  rw [track_known hknown]
  refine ⟨h.numbered.modify inode fun _ => rfl, ?_, ?_, h.outstanding_le⟩
  · intro i hi
    have hcount : (t.modify inode fun e => { e with kind }).lookupsOf i = t.lookupsOf i :=
      t.lookupsOf_modify inode i fun _ => rfl
    exact hcount.trans (h.counted hi)
  · intro i e he hi
    rw [get?_modify] at he
    split at he
    · next heq =>
      obtain ⟨known, hget, rfl⟩ := Option.map_eq_some_iff.1 he
      subst heq
      have hpos : 0 < known.lookups := h.held hget hi
      exact hpos
    · exact h.held he hi

theorem lookup (h : t.Agrees l) (path : Path) (kind : NodeKind)
    (hlookups : l.lookups < maxNumber)
    (hleft : l.issued + t.untracked [path] ≤ maxNumber) :
    (t.lookup path kind).2.Agrees
      ((l.issue (t.untracked [path])).hold (t.lookup path kind).1) := by
  have hcount := h.numbered.lookupsOf_lookup path kind hleft
  have hcounted : ∀ {i}, i ≠ rootNumber → (t.lookup path kind).2.lookupsOf i =
      ((l.issue (t.untracked [path])).hold (t.lookup path kind).1).outstanding i := by
    intro i hi
    have hle := h.outstanding_le i
    rw [hcount, h.counted hi]
    simp only [Ledger.hold, Ledger.issue]
    split
    · omega
    · rfl
  refine ⟨h.numbered.lookup path kind hleft, hcounted, ?_, ?_⟩
  · intro i e he hi
    by_cases hnumber : i = (t.lookup path kind).1
    · have hone : 0 < (t.lookup path kind).2.lookupsOf i := by
        rw [hcount, if_pos hnumber]
        have hmax : 0 < maxNumber := by decide
        omega
      rw [lookupsOf_of_get? he] at hone
      exact hone
    · have hother : (t.lookup path kind).2.get? i = t.get? i := by
        rw [lookup_eq] at hnumber ⊢
        rw [get?_modify, if_neg hnumber, h.numbered.coherent.get?_track path kind hnumber]
      exact h.held (hother ▸ he) hi
  · intro i
    have hle := h.outstanding_le i
    simp only [Ledger.hold, Ledger.issue]
    split <;> omega

theorem forget (h : t.Agrees l) (inode count : Nat) :
    (t.forget inode count).Agrees (l.takeBack inode count) := by
  have hle : ∀ i, (l.takeBack inode count).outstanding i ≤ l.lookups := by
    intro i
    have hle := h.outstanding_le i
    simp only [Ledger.takeBack]
    split <;> omega
  by_cases hroot : inode = rootNumber
  · have hsame : t.forget inode count = t := by rw [Inodes.forget, if_pos hroot]
    rw [hsame]
    refine ⟨h.numbered, ?_, h.held, hle⟩
    intro i hi
    have hne : i ≠ inode := hroot ▸ hi
    simp only [Ledger.takeBack, if_neg hne]
    exact h.counted hi
  · refine ⟨h.numbered.forget inode count, ?_, ?_, hle⟩
    · intro i hi
      rw [lookupsOf_forget t hroot, h.counted hi]
      rfl
    · intro i e he hi
      rw [get?_forget t hroot] at he
      split at he
      · obtain ⟨e', -, he'⟩ := Option.bind_eq_some_iff.1 he
        split at he'
        · cases he'
        · next hlast =>
          rw [← Option.some.inj he']
          exact Nat.sub_pos_of_lt (Nat.lt_of_not_le hlast)
      · exact h.held he hi

theorem reserve (h : t.Agrees l) (count : Nat) : (t.reserve count).Agrees (l.issue count) :=
  ⟨h.numbered.reserve count, h.counted, h.held, h.outstanding_le⟩

end Agrees

namespace Booked
variable {t u : Inodes} {l k : Ledger}

theorem lookups_le (b : Booked t l u k) : l.lookups ≤ k.lookups := by
  cases b with
  | lookup path kind => exact Nat.le_succ _
  | _ => exact Nat.le_refl _

theorem issued_le (b : Booked t l u k) : l.issued ≤ k.issued := by
  cases b with
  | lookup path kind => exact Nat.le_add_right _ _
  | reserve count => exact Nat.le_add_right _ _
  | _ => exact Nat.le_refl _

theorem agrees (b : Booked t l u k) (h : t.Agrees l) (hlookups : k.lookups ≤ maxNumber)
    (hissued : k.issued ≤ maxNumber) : u.Agrees k := by
  cases b with
  | keep => exact h
  | refresh kind hknown => exact h.refresh kind hknown
  | lookup path kind => exact h.lookup path kind hlookups hissued
  | forget inode count => exact h.forget inode count
  | reserve count => exact h.reserve count

theorem numbered (b : Booked t l u k) (h : t.Numbered l.issued) (hissued : k.issued ≤ maxNumber) :
    u.Numbered k.issued := by
  cases b with
  | keep => exact h
  | refresh kind hknown =>
    rw [track_known hknown]
    exact h.modify _ fun _ => rfl
  | lookup path kind => exact h.lookup path kind hissued
  | forget inode count => exact h.forget inode count
  | reserve count => exact h.reserve count

/-- A number that was issued before has no other path than it had. -/
theorem pathOf? (b : Booked t l u k) (h : t.Numbered l.issued) (hissued : k.issued ≤ maxNumber)
    {i : Nat} {p : Path} (hi : i ≤ l.issued) (hp : u.pathOf? i = some p) :
    t.pathOf? i = some p := by
  cases b with
  | keep => exact hp
  | refresh kind hknown => exact pathOf?_track_known hknown kind ▸ hp
  | lookup path kind =>
    have hne : ¬(t.numberOf? path = none ∧ i = t.next) := by
      rintro ⟨hnumber, rfl⟩
      have hleft : l.issued + t.untracked [path] ≤ maxNumber := hissued
      rw [untracked_of_new hnumber] at hleft
      have hnext := h.next_new hleft
      omega
    rw [h.coherent.pathOf?_lookup_eq, if_neg hne] at hp
    exact hp
  | forget inode count => exact pathOf?_of_forget hp
  | reserve count => exact hp

end Booked

/-! ## How many are tracked -/

theorem tracked_iff {t : Inodes} {l : Ledger} (h : t.Agrees l) {i : Nat} (hi : i ≠ rootNumber) :
    (∃ e, t.get? i = some e) ↔ 0 < l.outstanding i := by
  rw [← h.counted hi]
  constructor
  · rintro ⟨e, he⟩
    rw [lookupsOf_of_get? he]
    exact h.held he hi
  · intro hpos
    cases he : t.get? i with
    | some e => exact ⟨e, rfl⟩
    | none =>
      rw [lookupsOf, he] at hpos
      cases hpos

/-- The tracked numbers. -/
def tracked (t : Inodes) : Finset Nat := (t.entries.entries.map (·.1)).toFinset

theorem mem_tracked {t : Inodes} {i : Nat} : i ∈ t.tracked ↔ ∃ e, t.get? i = some e := by
  simp only [tracked, List.mem_toFinset, List.mem_map, Prod.exists, exists_and_right,
    exists_eq_right, get?, Keyed.get?_eq_some_iff]

theorem card_tracked (t : Inodes) : t.tracked.card = t.size := by
  rw [tracked, List.toFinset_card_of_nodup t.entries.nodup, List.length_map]
  rfl

end Inodes
end EventTree
