import EventTree.Proofs.Text.ByteOrder
import EventTree.Proofs.Tree.Names
import EventTree.Tree.Entries
import Mathlib.Data.List.Sort
import Mathlib.Tactic.Tauto

/-!
# Directories of values

A listing of hosts or services shows which values occur. It is in one order whatever the
order of the events was, and shows nothing of how often a value occurs or with what else, so
it changes only with the set of the values that can be names.
-/
namespace EventTree.Entry

/-- Directories under the names that satisfy `P`, each once, in the ascending order
of the bytes of the names. -/
structure DirectoriesOf (P : String → Prop) (entries : List Entry) : Prop where
  kind : ∀ e ∈ entries, e.kind = .directory
  names : ∀ name, name ∈ entries.map (·.name) ↔ P name
  ascending : entries.Pairwise fun a b => Text.encode a.name < Text.encode b.name

theorem directoriesOf_map {P : String → Prop} {names : List String}
    (hmem : ∀ name, name ∈ names ↔ P name) (hsorted : names.Pairwise (· < ·)) :
    DirectoriesOf P (names.map directory) where
  kind := by
    intro e he
    obtain ⟨name, -, rfl⟩ := List.mem_map.1 he
    rfl
  names := by
    intro name
    rw [List.map_map, ← hmem]
    change name ∈ names.map id ↔ _
    rw [List.map_id]
  ascending := by
    rw [List.pairwise_map]
    exact hsorted.imp Text.encode_lt_encode

theorem mem_valueNames {value : Event → String} {events : List Event} {name : String} :
    name ∈ valueNames value events ↔
      name ≠ "" ∧ '/' ∉ name.toList ∧ ∃ e ∈ events, value e = name := by
  rw [valueNames, mem_distinctNames, List.mem_filter, isSegment_iff, List.mem_map]
  tauto

theorem directoriesOf_ofValues (value : Event → String) (events : List Event) :
    DirectoriesOf
      (fun name => name ≠ "" ∧ '/' ∉ name.toList ∧ ∃ e ∈ events, value e = name)
      (ofValues value events) :=
  directoriesOf_map (fun _ => mem_valueNames) (distinctNames_ascending _)

theorem directoriesOf_ofRoot (events : List Event) :
    DirectoriesOf
      (fun name => name = Node.queryName ∨
        (name ≠ "" ∧ '/' ∉ name.toList ∧ ∃ e ∈ events, e.host = name))
      (ofRoot events) := by
  refine directoriesOf_map (fun name => ?_)
    (insertName_ascending _ (distinctNames_ascending _))
  rw [mem_insertName]
  exact or_congr_right mem_valueNames

/-! ## Equal listings -/

namespace DirectoriesOf
variable {P Q : String → Prop} {entries others : List Entry}

theorem mem_iff (h : DirectoriesOf P entries) {e : Entry} :
    e ∈ entries ↔ e.kind = .directory ∧ P e.name := by
  constructor
  · intro he
    exact ⟨h.kind e he, (h.names _).1 (List.mem_map_of_mem he)⟩
  · rintro ⟨hkind, hname⟩
    obtain ⟨listed, hlisted, heq⟩ := List.mem_map.1 ((h.names _).2 hname)
    have hsame : listed = e := by
      obtain ⟨name, kind⟩ := listed
      obtain ⟨name', kind'⟩ := e
      rw [mk.injEq]
      exact ⟨heq, (h.kind _ hlisted).trans hkind.symm⟩
    exact hsame ▸ hlisted

theorem names_nodup (h : DirectoriesOf P entries) : (entries.map (·.name)).Nodup := by
  rw [List.Nodup, List.pairwise_map]
  refine h.ascending.imp fun hlt heq => ?_
  rw [heq] at hlt
  exact List.lt_irrefl _ hlt

/-- The names say everything. -/
theorem eq_iff (h : DirectoriesOf P entries) (h' : DirectoriesOf Q others) :
    entries = others ↔ ∀ name, P name ↔ Q name := by
  constructor
  · rintro rfl name
    rw [← h.names, ← h'.names]
  · intro hPQ
    have : Std.Irrefl fun a b : Entry => Text.encode a.name < Text.encode b.name :=
      ⟨fun _ => List.lt_irrefl _⟩
    have : Std.Antisymm fun a b : Entry => Text.encode a.name < Text.encode b.name :=
      ⟨fun _ _ hab hba => absurd (List.lt_trans hab hba) (List.lt_irrefl _)⟩
    refine h.ascending.eq_of_mem_iff h'.ascending fun e => ?_
    rw [h.mem_iff, h'.mem_iff, hPQ]

end DirectoriesOf

/-- A listing of hosts or services has one directory for each value that can be a name, in the
order of the bytes. At the root there is the directory of filters too, and only one even if a
host has its name. Two listings are the same just if the same names occur as values. -/
theorem listings_show_value_sets :
    (∀ (value : Event → String) (events : List Event),
      DirectoriesOf (fun name => name ≠ "" ∧ '/' ∉ name.toList ∧ ∃ e ∈ events, value e = name)
        (ofValues value events)) ∧
    (∀ events : List Event,
      DirectoriesOf (fun name => name = ".query" ∨
        (name ≠ "" ∧ '/' ∉ name.toList ∧ ∃ e ∈ events, e.host = name)) (ofRoot events) ∧
      ((ofRoot events).map (·.name)).count ".query" = 1) ∧
    (∀ (value value' : Event → String) (events others : List Event),
      ofValues value events = ofValues value' others ↔
        ∀ name, name ≠ "" → '/' ∉ name.toList →
          ((∃ e ∈ events, value e = name) ↔ ∃ e ∈ others, value' e = name)) ∧
    ∀ events others : List Event,
      ofRoot events = ofRoot others ↔
        ∀ name, name ≠ "" → '/' ∉ name.toList → name ≠ ".query" →
          ((∃ e ∈ events, e.host = name) ↔ ∃ e ∈ others, e.host = name) := by
  refine ⟨directoriesOf_ofValues, fun events => ⟨directoriesOf_ofRoot events, ?_⟩, ?_, ?_⟩
  · have h := directoriesOf_ofRoot events
    exact List.count_eq_one_of_mem h.names_nodup ((h.names _).2 (.inl rfl))
  · intro value value' events others
    rw [(directoriesOf_ofValues value events).eq_iff (directoriesOf_ofValues value' others)]
    simp only [and_congr_right_iff]
  · intro events others
    rw [(directoriesOf_ofRoot events).eq_iff (directoriesOf_ofRoot others)]
    refine forall_congr' fun name => ?_
    change (name = ".query" ∨ _ ↔ name = ".query" ∨ _) ↔ _
    generalize (∃ e ∈ events, e.host = name) = p
    generalize (∃ e ∈ others, e.host = name) = q
    tauto

/-- The same hosts in another order and number, one of them named as the directory of filters
is and one with no name that a directory could have. -/
theorem listings_show_value_sets_reordered :
    let events : List Event := [{ host := "b" }, { host := ".query" }, { host := "é" },
      { host := "Z", service := "s" }, { host := "x/y" }]
    let others : List Event := [{ host := "é" }, { host := "Z" }, { host := "b", service := "t" },
      { host := "é", service := "s" }, { host := "" }, { host := "b" }]
    ofRoot events = ofRoot others ∧ ((ofRoot events).map (·.name)).count ".query" = 1 ∧
      ofRoot others = ([".query", "Z", "b", "é"].map directory) := by
  intro events others
  obtain ⟨-, hroot, -, heq⟩ := listings_show_value_sets
  refine ⟨(heq events others).2 ?_, (hroot events).2, by decide +kernel⟩
  intro name hempty hslash hquery
  have hother : name ≠ "x/y" := by
    rintro rfl
    exact hslash (by decide)
  simp only [events, others, List.mem_cons, List.not_mem_nil, or_false, exists_eq_or_imp,
    exists_eq_left, @eq_comm _ _ name]
  tauto

end EventTree.Entry
