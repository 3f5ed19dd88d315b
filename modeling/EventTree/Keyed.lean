/-!
# Values under keys

A finite map as a list of entries with the newest first, no two of them under one
key. Only what is found under a key counts, not the order of the entries.
-/
namespace EventTree

structure Keyed (κ ν : Type) where
  entries : List (κ × ν)
  nodup : (entries.map (·.1)).Nodup
deriving Repr

namespace Keyed
variable {κ ν : Type} [DecidableEq κ]

def empty : Keyed κ ν := ⟨[], .nil⟩

instance : Inhabited (Keyed κ ν) := ⟨empty⟩

def get? (m : Keyed κ ν) (key : κ) : Option ν := m.entries.lookup key

def erase (m : Keyed κ ν) (key : κ) : Keyed κ ν :=
  ⟨m.entries.filter (·.1 != key), (List.filter_sublist.map _).nodup m.nodup⟩

theorem notMem_keys_erase (m : Keyed κ ν) (key : κ) : key ∉ (m.erase key).entries.map (·.1) := by
  simp [erase]

/-- The map with `value` under `key`, whatever was there before. -/
def insert (m : Keyed κ ν) (key : κ) (value : ν) : Keyed κ ν :=
  ⟨(key, value) :: (m.erase key).entries,
    List.nodup_cons.2 ⟨m.notMem_keys_erase key, (m.erase key).nodup⟩⟩

def size (m : Keyed κ ν) : Nat := m.entries.length

@[simp] theorem get?_empty (key : κ) : (empty : Keyed κ ν).get? key = none := rfl

theorem lookup_filter_ne {key k : κ} {l : List (κ × ν)} :
    (l.filter (·.1 != k)).lookup key = if key = k then none else l.lookup key := by
  induction l with
  | nil => simp
  | cons hd tl ih =>
    obtain ⟨k', v⟩ := hd
    by_cases h : k' = k
    · rw [List.filter_cons_of_neg (by simpa using h), ih, List.lookup_cons]
      by_cases hk : key = k
      · rw [if_pos hk, if_pos hk]
      · have hb : (key == k') = false := by simpa [h] using hk
        rw [if_neg hk, if_neg hk, hb]
    · rw [List.filter_cons_of_pos (by simpa using h), List.lookup_cons, List.lookup_cons, ih]
      by_cases hk : key = k
      · have hb : (key == k') = false := by simpa [hk] using fun e => h e.symm
        rw [if_pos hk, if_pos hk, hb]
      · rw [if_neg hk, if_neg hk]

@[simp] theorem get?_erase (m : Keyed κ ν) (key k : κ) :
    (m.erase k).get? key = if key = k then none else m.get? key :=
  lookup_filter_ne

@[simp] theorem get?_insert (m : Keyed κ ν) (key k : κ) (v : ν) :
    (m.insert k v).get? key = if key = k then some v else m.get? key := by
  by_cases h : key = k
  · simp [insert, get?, h]
  · have hb : (key == k) = false := by simpa using h
    rw [if_neg h, insert, get?, List.lookup_cons, hb]
    exact (get?_erase m key k).trans (if_neg h)

/-- What is found under a key are exactly the entries. -/
theorem get?_eq_some_iff (m : Keyed κ ν) (key : κ) (v : ν) :
    m.get? key = some v ↔ (key, v) ∈ m.entries := by
  obtain ⟨l, h⟩ := m
  induction l with
  | nil => simp [get?]
  | cons hd tl ih =>
    obtain ⟨k, w⟩ := hd
    rw [List.map_cons, List.nodup_cons] at h
    have ih := ih h.2
    rw [get?] at ih ⊢
    rw [List.lookup_cons, List.mem_cons]
    by_cases hk : key = k
    · subst hk
      have hn : (key, v) ∉ tl := fun hm => h.1 (List.mem_map.2 ⟨_, hm, rfl⟩)
      simp [hn, eq_comm]
    · have hb : (key == k) = false := by simpa using hk
      rw [hb, ih]
      simp [hk]

end Keyed
end EventTree
