import EventTree.Proofs.Mount.Handles

/-!
# Directories page by page

A directory is read in several calls, each from the offset that came with the last entry
received. Every call asks the index again and lists the whole directory anew, with new numbers
for what is not tracked. As long as the index does not change, names and kinds are the same
each time, and those are what an offset counts. So a page goes on where the one before it
stopped, wherever that was.
-/
namespace EventTree

/-! ## Pages of a list -/

/-- An entry as its reader knows it again: the number may be another the next time. -/
def PageEntry.item (e : PageEntry) : Nat × Entry := (e.next, e.entry.entry)

/-- The entries of a page, none if there is another reply. -/
def Reply.entries : Reply → List PageEntry
  | .page entries => entries
  | _ => []

/-- Where to go on behind a page that brought something. -/
def Reply.next? (r : Reply) : Option Nat := r.entries.getLast?.map (·.next)

/-- Pages that were received in up to so many calls, when some entries were left: they are
the first of these and, if a page was empty, all of them. -/
structure Delivers (left : List (Nat × Entry)) (calls : Nat) (pages : List (List PageEntry)) :
    Prop where
  front : pages.flatten.map (·.item) <+: left
  whole : [] ∈ pages → pages.flatten.map (·.item) = left
  count : pages.length ≤ left.length + 1
  ends : left.length < calls → [] ∈ pages

theorem Delivers.start (left : List (Nat × Entry)) : Delivers left 0 [] :=
  ⟨List.nil_prefix, nofun, Nat.zero_le _, nofun⟩

theorem Delivers.over (calls : Nat) : Delivers [] calls [[]] :=
  ⟨List.nil_prefix, fun _ => rfl, Nat.le_refl _, fun _ => List.mem_cons_self⟩

theorem Delivers.page {left rest : List (Nat × Entry)} {calls : Nat} {page : List PageEntry}
    {pages : List (List PageEntry)} (h : Delivers rest calls pages) (hsome : page ≠ [])
    (hleft : page.map (·.item) ++ rest = left) : Delivers left (calls + 1) (page :: pages) := by
  have hpos := List.length_pos_iff.2 hsome
  have hlength := congrArg List.length hleft
  rw [List.length_append, List.length_map] at hlength
  refine ⟨?_, ?_, ?_, ?_⟩
  · rw [List.flatten_cons, List.map_append, ← hleft]
    exact (List.prefix_append_right_inj _).2 h.front
  · intro hmem
    have hmem' := (List.mem_cons.1 hmem).resolve_left (Ne.symm hsome)
    rw [List.flatten_cons, List.map_append, h.whole hmem', hleft]
  · have hcount := h.count
    rw [List.length_cons]
    omega
  · intro hlong
    exact List.mem_cons_of_mem _ (h.ends (by omega))

namespace Mount
variable {σ : Type} [QuerySource σ]

/-! ## One call -/

/-- A call for a page: the index that it meets, the room for its reply, and the requests that
are served before the next call. -/
structure PageCall (σ : Type) where
  source : σ
  room : Nat
  others : List (σ × Request)

/-- At each of the calls the inode is tracked under its path, and there is room for the line
which is next, if one is left. -/
def Undisturbed (m : Mount) (inode : Nat) (path : Path) (lines : List ListedEntry) :
    (offset : Nat) → List (PageCall σ) → Prop
  | _, [] => True
  | offset, call :: calls =>
    let (reply, next, _) := m.serve call.source (.readDirectory inode offset call.room)
    m.inodes.pathOf? inode = some path ∧ (∀ line ∈ lines[offset]?, line.room ≤ call.room) ∧
      ∀ offset ∈ reply.next?,
        (next.serveAll call.others).Undisturbed inode path lines offset calls

instance decidableUndisturbed (m : Mount) (inode : Nat) (path : Path) (lines : List ListedEntry)
    (offset : Nat) : (calls : List (PageCall σ)) →
    Decidable (m.Undisturbed inode path lines offset calls)
  | [] => isTrue trivial
  | _ :: calls =>
    have (m : Mount) (offset : Nat) := decidableUndisturbed m inode path lines offset calls
    inferInstanceAs (Decidable (_ ∧ _ ∧ _))

end Mount
end EventTree
