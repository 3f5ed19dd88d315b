import EventTree.Proofs.Mount.Handles
import EventTree.Proofs.Mount.TableUpdates

/-!
# The last number

As long as numbers are left, the last of 64 bits belongs to no place. When the others are
used up it is issued over and over: each new place takes it with the entry behind it, and
the places that had it before keep the number.

Listings alone use the numbers up, since each line whose place is not tracked costs one. That
takes more listings than any kernel will ask for, but a run may be of any length, so what is
said of all runs has to leave the last number out.
-/
namespace EventTree

namespace Inodes

theorem Coherent.number_lt_last {t : Inodes} (h : t.Coherent) (hleft : t.next < maxNumber)
    {p : Path} {i : Nat} (hi : t.numberOf? p = some i) : i < maxNumber :=
  Nat.lt_trans (h.number_lt_next hleft hi) hleft

theorem Coherent.tracked_lt_last {t : Inodes} (h : t.Coherent) (hleft : t.next < maxNumber)
    {i : Nat} {e : TrackedNode} (he : t.get? i = some e) : i < maxNumber :=
  h.number_lt_last hleft (h.number_of_path (pathOf?_eq_some_iff.2 ⟨e, he, rfl⟩))

end Inodes

namespace Mount
variable {σ : Type} [QuerySource σ]

/-! ## While numbers are left -/

theorem serve_next_le {m : Mount} (h : m.inodes.Coherent) (source : σ) (request : Request) :
    m.inodes.next ≤ (m.serve source request).2.1.inodes.next :=
  (serve_updates h.next_le source request).next_le h

/-- A lookup does not find the last number. -/
theorem found_lt_last {m : Mount} (h : m.inodes.Coherent) {source : σ} {parent : Nat}
    {name : Bytes} {found : NodeAttributes} (hok : (m.lookup source parent name).1 = .ok found)
    (hleft : (m.lookup source parent name).2.1.inodes.next < Inodes.maxNumber) :
    found.inode < Inodes.maxNumber := by
  obtain ⟨path, -, hinode, htable⟩ := lookup_ok hok
  rw [htable] at hleft
  rw [hinode]
  exact (h.lookup _ _).number_lt_last hleft (Inodes.numberOf?_lookup h _ _)

/-! ## When they run out -/

/-- The mount with no number left but the last. -/
def exhausted (m : Mount) : Mount :=
  { m with inodes := { m.inodes with next := Inodes.maxNumber } }

section
variable {m : Mount} (source : σ) (inode : Nat) (offset : Int) (room : Nat)

theorem serve_listing (h : m.inodes.next ≤ Inodes.maxNumber) :
    let request := Request.readDirectory inode offset room
    (m.serve source request).2.1 =
      { m with inodes := m.inodes.reserve (m.issues source request) } := by
  intro request
  obtain ⟨inodes, hframe⟩ := m.listing_frame source inode
  rw [serve_readDirectory_mount, ← listing_inodes h source inode offset room, hframe]

/-- A listing changes no number of a place, so each one after it issues as many again. -/
theorem serveAll_listings (h : m.inodes.next ≤ Inodes.maxNumber) (count : Nat) :
    let request := Request.readDirectory inode offset room
    m.serveAll (List.replicate count (source, request)) =
      { m with inodes := m.inodes.reserve (count * m.issues source request) } := by
  intro request
  induction count generalizing m with
  | zero =>
    rw [Nat.zero_mul, Inodes.reserve_zero h]
    rfl
  | succ count ih =>
    have hserve : (m.serve source request).2.1 =
        { m with inodes := m.inodes.reserve (m.issues source request) } :=
      serve_listing source inode offset room h
    rw [List.replicate_succ, serveAll_cons, hserve, ih (Nat.min_le_right _ _), Nat.succ_mul,
      Nat.add_comm, ← Inodes.reserve_reserve]
    rfl

/-- Enough listings with a line that is not tracked use up all numbers but the last. -/
theorem serveAll_listings_exhausted (h : m.inodes.next ≤ Inodes.maxNumber) {count : Nat}
    (hcount : Inodes.maxNumber ≤
      m.inodes.next + count * m.issues source (.readDirectory inode offset room)) :
    m.serveAll (List.replicate count (source, .readDirectory inode offset room)) =
      m.exhausted := by
  rw [serveAll_listings source inode offset room h, Inodes.reserve, Nat.min_eq_right hcount]
  rfl

end

end Mount
end EventTree
