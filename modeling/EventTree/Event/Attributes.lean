/-!
# Attributes of an event

A finite map from texts to texts, listed by ascending key. Text is compared by code
points, which is also the byte order of its UTF-8 form. The order is part of the
type, so equal maps are equal values.
-/
namespace EventTree

structure Attributes where
  entries : List (String × String)
  sorted : entries.Pairwise (fun a b => a.1 < b.1)
deriving DecidableEq, Repr

namespace Attributes

def empty : Attributes := ⟨[], .nil⟩

instance : Inhabited Attributes := ⟨empty⟩

def keys (m : Attributes) : List String := m.entries.map (·.1)

def get? (m : Attributes) (key : String) : Option String := m.entries.lookup key

/-- The entries with `key` at its place; a value it already had is replaced. -/
def insertEntry (key value : String) : List (String × String) → List (String × String)
  | [] => [(key, value)]
  | (k, v) :: rest =>
    if key < k then (key, value) :: (k, v) :: rest
    else if key = k then (key, value) :: rest
    else (k, v) :: insertEntry key value rest

theorem mem_insertEntry {key value : String} {e : String × String} {l : List (String × String)}
    (h : e ∈ insertEntry key value l) : e = (key, value) ∨ e ∈ l := by
  induction l with
  | nil => simpa [insertEntry] using h
  | cons hd tl ih =>
    obtain ⟨k, v⟩ := hd
    unfold insertEntry at h
    split at h
    · simpa using h
    · split at h
      · rcases List.mem_cons.1 h with h | h
        · exact .inl h
        · exact .inr (List.mem_cons_of_mem _ h)
      · rcases List.mem_cons.1 h with h | h
        · exact .inr (h ▸ List.mem_cons_self)
        · exact (ih h).imp id (List.mem_cons_of_mem _)

theorem lt_of_not_lt_of_ne {a b : String} (h : ¬ a < b) (hne : a ≠ b) : b < a :=
  String.not_le.1 fun hab => hne (String.le_antisymm hab (String.not_lt.1 h))

theorem sorted_insertEntry (key value : String) {l : List (String × String)}
    (h : l.Pairwise (fun a b => a.1 < b.1)) :
    (insertEntry key value l).Pairwise (fun a b => a.1 < b.1) := by
  induction l with
  | nil => simp [insertEntry]
  | cons hd tl ih =>
    obtain ⟨k, v⟩ := hd
    have hk : ∀ {e}, e ∈ tl → k < e.1 := fun he => List.rel_of_pairwise_cons h he
    unfold insertEntry
    split
    · next hlt =>
      refine h.cons fun e he => ?_
      rcases List.mem_cons.1 he with he | he
      · exact he ▸ hlt
      · exact String.lt_trans hlt (hk he)
    · split
      · next _ heq => exact (List.Pairwise.of_cons h).cons fun e he => heq ▸ hk he
      · next hlt hne =>
        refine (ih (List.Pairwise.of_cons h)).cons fun e he => ?_
        rcases mem_insertEntry he with he | he
        · exact he ▸ lt_of_not_lt_of_ne hlt hne
        · exact hk he

def insert (m : Attributes) (key value : String) : Attributes :=
  ⟨insertEntry key value m.entries, sorted_insertEntry key value m.sorted⟩

/-- The map of a list of pairs; the last pair of a key counts. -/
def ofList (pairs : List (String × String)) : Attributes :=
  pairs.foldl (fun m e => m.insert e.1 e.2) empty

end Attributes
end EventTree
