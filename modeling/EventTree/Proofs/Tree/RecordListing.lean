import EventTree.Proofs.Text.ByteOrder
import EventTree.Proofs.Tree.Listed

/-!
# The files of a record

The listing of an event and the reading of one of its files are written apart. The listing
leaves out attributes that would repeat a name and those whose key is no piece of a path;
the reading tries one source of text after the other. Whatever the attributes are, both
speak of the same names, but for those that cannot stand in a path at all.
-/
namespace EventTree

theorem isFixedField_iff {name : String} :
    isFixedField name = true ↔ name ∈ FixedField.all.map (·.name) := by
  rw [isFixedField, FixedField.ofName?, List.find?_isSome, List.mem_map]
  simp only [decide_eq_true_eq]

theorem Attributes.keys_ascending (m : Attributes) : m.keys.Pairwise (· < ·) := by
  rw [keys, List.pairwise_map]
  exact m.sorted

namespace Entry

/-- The keys that are listed as files of their own. -/
theorem mem_attributeNames {e : Event} {name : String} :
    name ∈ attributeNames e ↔ name ∈ e.attributes.keys ∧
      name ∉ FixedField.all.map (·.name) ∧ name ≠ Event.jsonName ∧ isSegment name = true := by
  rw [attributeNames, List.mem_filter, ← isFixedField_iff]
  simp [and_assoc]

theorem attributeNames_ascending (e : Event) : (attributeNames e).Pairwise (· < ·) :=
  e.attributes.keys_ascending.filter _

theorem names_ofEvent (e : Event) :
    (ofEvent e).map (·.name) =
      FixedField.all.map (·.name) ++ attributeNames e ++ [Event.jsonName] := by
  rw [ofEvent, List.map_map]
  exact List.map_id _

theorem mem_names_ofEvent {e : Event} {name : String} :
    name ∈ (ofEvent e).map (·.name) ↔
      isSegment name = true ∧ ∃ bytes, e.fileBytes? name = some bytes := by
  rw [← Option.isSome_iff_exists]
  constructor
  · intro h
    obtain ⟨entry, hentry, rfl⟩ := List.mem_map.1 h
    obtain ⟨hsegment, -, hbytes⟩ := mem_ofEvent hentry
    exact ⟨hsegment, hbytes⟩
  · rintro ⟨hsegment, hbytes⟩
    rw [names_ofEvent, List.mem_append, List.mem_append, List.mem_singleton]
    -- A key that repeats a fixed name or that of the whole event is listed under that name.
    by_cases hjson : name = Event.jsonName
    · exact .inr hjson
    · by_cases hfixed : name ∈ FixedField.all.map (·.name)
      · exact .inl (.inl hfixed)
      · rcases Event.fileBytes?_isSome_iff.1 hbytes with h | hkey | h
        · exact absurd h hjson
        · exact .inl (.inr (mem_attributeNames.2 ⟨hkey, hfixed, hjson, hsegment⟩))
        · exact absurd (isFixedField_iff.1 h) hfixed

theorem names_ofEvent_nodup (e : Event) : ((ofEvent e).map (·.name)).Nodup := by
  have hfixed : (FixedField.all.map (·.name)).Nodup := by decide
  have hattributes : (attributeNames e).Nodup :=
    (attributeNames_ascending e).imp fun hlt => String.ne_of_lt hlt
  rw [names_ofEvent, List.nodup_append, List.nodup_append]
  refine ⟨⟨hfixed, hattributes, ?_⟩, List.pairwise_singleton _ _, ?_⟩
  · rintro name hname key hkey rfl
    exact (mem_attributeNames.1 hkey).2.1 hname
  · intro name hname json hjson
    rw [List.mem_singleton.1 hjson]
    rcases List.mem_append.1 hname with hname | hkey
    · rintro rfl
      exact absurd hname (by decide)
    · exact (mem_attributeNames.1 hkey).2.2.1

theorem length_attributeNames (e : Event) :
    (attributeNames e).length = e.attributes.keys.countP fun key =>
      key ≠ "" ∧ '/' ∉ key.toList ∧ key ∉ FixedField.all.map (·.name) ∧ key ≠ Event.jsonName := by
  rw [attributeNames, ← List.countP_eq_length_filter]
  apply List.countP_congr
  intro key _
  have hfixed : isFixedField key = true ↔ key ∈ FixedField.all.map (·.name) := isFixedField_iff
  have hsegment : isSegment key = true ↔ key ≠ "" ∧ '/' ∉ key.toList := isSegment_iff
  simp only [Bool.and_eq_true, Bool.not_eq_true', bne_iff_ne, decide_eq_true_eq]
  rw [← Bool.not_eq_true, hfixed, hsegment]
  tauto

/-- The files listed for an event are exactly those that can be read and named in a path,
each once: the fixed fields, then further attributes in the order of their bytes, then the
whole event. -/
theorem record_lists_readable (e : Event) :
    let fixed := FixedField.all.map (·.name)
    let names := (ofEvent e).map (·.name)
    (∀ name, name ∈ names ↔
      name ≠ "" ∧ '/' ∉ name.toList ∧ ∃ bytes, e.fileBytes? name = some bytes) ∧
    names.Nodup ∧
    (∃ between, names = fixed ++ between ++ [Event.jsonName] ∧
      (between.map Text.encode).Pairwise (· < ·)) ∧
    names.length = 9 + e.attributes.keys.countP fun key =>
      key ≠ "" ∧ '/' ∉ key.toList ∧ key ∉ fixed ∧ key ≠ Event.jsonName := by
  intro fixed names
  constructor
  · intro name
    rw [mem_names_ofEvent, isSegment_iff, and_assoc]
  constructor
  · exact names_ofEvent_nodup e
  constructor
  · refine ⟨attributeNames e, names_ofEvent e, ?_⟩
    rw [List.pairwise_map]
    exact (attributeNames_ascending e).imp fun hlt => Text.encode_lt_encode hlt
  · have hnine : fixed.length = 8 := rfl
    rw [← length_attributeNames]
    change ((ofEvent e).map (·.name)).length = _
    rw [names_ofEvent, List.length_append, List.length_append, hnine, List.length_singleton]
    omega

end Entry
end EventTree
