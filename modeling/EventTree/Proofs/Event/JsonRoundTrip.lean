import EventTree.Proofs.Json.Numerals
import EventTree.Proofs.Json.Strings
import EventTree.Proofs.Text.ByteOrder
import EventTree.Tree.Content

/-!
# Events are read back from their JSON

The printer and the reader of an event are written apart. Whatever texts, tags and
attributes an event has, the reader takes each value to the end of what was printed of it
and no further, so it meets the next comma or brace where the printer put it.

Numbers are the exception. The reader does not always find the float nearest to a decimal,
so that a float is read back from its own text has to be assumed. A float that is not a
number has no text in JSON. In its place stands a null, which the reader refuses.
-/
namespace EventTree
open Json Number

namespace Json

/-! ## Items with commas between them -/

/-- A comma stands in front of every item, or of every one but the first. -/
def listed : (first : Bool) → List (List Char) → List Char
  | _, [] => []
  | first, item :: items => (if first then item else ',' :: item) ++ listed false items

theorem commaSeparated_eq (items : List (List Char)) :
    commaSeparated items = listed true items := by
  have hlater (item : List Char) (items : List (List Char)) :
      commaSeparated (item :: items) = item ++ listed false items := by
    induction items generalizing item with
    | nil => simp [commaSeparated, listed]
    | cons next items ih => simp [commaSeparated, listed, ih]
  cases items with
  | nil => rfl
  | cons item items => exact hlater item items

theorem listed_append (first : Bool) (items items' : List (List Char)) :
    listed first (items ++ items') =
      listed first items ++ listed (first && items.isEmpty) items' := by
  cases items with
  | nil => simp [listed]
  | cons item items =>
    have hlater (items : List (List Char)) :
        listed false (items ++ items') = listed false items ++ listed false items' := by
      induction items with
      | nil => rfl
      | cons item items ih => simp [listed, ih]
    simp [listed, hlater]

theorem length_le_listed {items : List (List Char)} (h : ∀ item ∈ items, item ≠ []) (first : Bool) :
    items.length ≤ (listed first items).length := by
  induction items generalizing first with
  | nil => exact Nat.zero_le _
  | cons item items ih =>
    have hpos := List.length_pos_iff.2 (h item List.mem_cons_self)
    have hrest := ih (fun item hitem => h item (List.mem_cons_of_mem _ hitem)) false
    rw [listed, List.length_append, List.length_cons]
    split_ifs
    · omega
    · rw [List.length_cons]
      omega

theorem endsNumber_listed {tail : List Char} (h : EndsNumber tail) (items : List (List Char)) :
    EndsNumber (listed false items ++ tail) := by
  cases items with
  | nil => exact h
  | cons item items => exact endsNumber_comma _

theorem stringText_ne_nil (s : String) : stringText s ≠ [] := List.cons_ne_nil _ _

/-- A member of an object. -/
def memberText (member : String × List Char) : List Char := stringText member.1 ++ ':' :: member.2

theorem length_le_listed_members (members : List (String × List Char)) (first : Bool) :
    members.length ≤ (listed first (members.map memberText)).length := by
  have hitems : ∀ item ∈ members.map memberText, item ≠ [] := by
    intro item hitem
    obtain ⟨member, -, rfl⟩ := List.mem_map.1 hitem
    exact List.cons_ne_nil _ _
  have hlength := length_le_listed hitems first
  rwa [List.length_map] at hlength

theorem objectText_eq (members : List (String × List Char)) (rest : List Char) :
    objectText members ++ rest =
      '\x7b' :: (listed true (members.map memberText) ++ '\x7d' :: rest) := by
  have htext : objectText members =
      '\x7b' :: commaSeparated (members.map memberText) ++ ['\x7d'] := rfl
  rw [htext, commaSeparated_eq]
  simp

theorem arrayText_eq (items : List (List Char)) (rest : List Char) :
    arrayText items ++ rest = '[' :: (listed true items ++ ']' :: rest) := by
  rw [arrayText, commaSeparated_eq]
  simp

end Json

namespace EventReader

/-! ## Texts, lists of texts and objects of texts -/

theorem readText_stringText (s : String) (rest : List Char) :
    readText (stringText s ++ rest) = .ok (s, rest) := by
  rw [stringText_append]
  exact readString_written s rest

theorem nextItem_stringText (first : Bool) (s : String) (rest : List Char) :
    nextItem first ((if first then stringText s else ',' :: stringText s) ++ rest) =
      .ok (true, stringText s ++ rest) := by
  cases first with
  | true =>
    rw [if_pos rfl, stringText_append]
    rfl
  | false =>
    rw [if_neg (by decide), List.cons_append, stringText_append]
    rfl

theorem nextItem_bracket (first : Bool) (rest : List Char) :
    nextItem first (']' :: rest) = .ok (false, ']' :: rest) := rfl

theorem readTextItems_listed (items : List String) {fuel : Nat} (hfuel : items.length < fuel)
    (first : Bool) (rest : List Char) :
    readTextItems fuel first (listed first (items.map stringText) ++ ']' :: rest) =
      .ok (items, rest) := by
  induction items generalizing fuel first with
  | nil =>
    obtain ⟨less, rfl⟩ : ∃ less, fuel = less + 1 := ⟨fuel - 1, by omega⟩
    rw [List.map_nil, listed, List.nil_append, readTextItems, nextItem_bracket]
    rfl
  | cons s items ih =>
    rw [List.length_cons] at hfuel
    obtain ⟨less, rfl⟩ : ∃ less, fuel = less + 1 := ⟨fuel - 1, by omega⟩
    rw [List.map_cons, listed, List.append_assoc, readTextItems, nextItem_stringText]
    simp only [bind, Except.bind, readText_stringText, ih (by omega : items.length < less)]
    rfl

theorem readTags_arrayText (tags : List String) (rest : List Char) :
    readTags (arrayText (tags.map stringText) ++ rest) = .ok (tags, rest) := by
  have hitems : ∀ item ∈ tags.map stringText, item ≠ [] := by
    intro item hitem
    obtain ⟨s, -, rfl⟩ := List.mem_map.1 hitem
    exact stringText_ne_nil s
  have hlength := length_le_listed hitems true
  rw [List.length_map] at hlength
  rw [arrayText_eq]
  apply readTextItems_listed
  rw [List.length_append]
  omega

/-- The key of a member is read; its colon and its value are left. -/
theorem nextKey_memberText (first : Bool) (member : String × List Char) (rest : List Char) :
    nextKey first ((if first then memberText member else ',' :: memberText member) ++ rest) =
      .ok (some member.1, ':' :: (member.2 ++ rest)) := by
  have hmember : memberText member ++ rest =
      '"' :: (member.1.toList.flatMap stringChar ++ '"' :: ':' :: (member.2 ++ rest)) := by
    rw [memberText, List.append_assoc, stringText_append]
    rfl
  have hstring := readString_written member.1 (':' :: (member.2 ++ rest))
  cases first with
  | true =>
    rw [if_pos rfl, hmember]
    change (readString _ >>= fun r => pure (some r.1, r.2)) = _
    rw [hstring]
    rfl
  | false =>
    rw [if_neg (by decide), List.cons_append, hmember]
    change (readString _ >>= fun r => pure (some r.1, r.2)) = _
    rw [hstring]
    rfl

theorem nextKey_brace (first : Bool) (rest : List Char) :
    nextKey first ('\x7d' :: rest) = .ok (none, '\x7d' :: rest) := rfl

theorem readColon_colon (rest : List Char) : readColon (':' :: rest) = .ok rest := rfl

theorem readMembers_listed (entries : List (String × String)) {fuel : Nat}
    (hfuel : entries.length < fuel) (first : Bool) (m : Attributes) (rest : List Char) :
    readMembers fuel first m
        (listed first ((entries.map fun e => (e.1, stringText e.2)).map memberText) ++
          '\x7d' :: rest) =
      .ok (entries.foldl (fun m e => m.insert e.1 e.2) m, rest) := by
  induction entries generalizing fuel first m with
  | nil =>
    obtain ⟨less, rfl⟩ : ∃ less, fuel = less + 1 := ⟨fuel - 1, by omega⟩
    rw [List.map_nil, List.map_nil, listed, List.nil_append, readMembers, nextKey_brace]
    rfl
  | cons e entries ih =>
    rw [List.length_cons] at hfuel
    obtain ⟨less, rfl⟩ : ∃ less, fuel = less + 1 := ⟨fuel - 1, by omega⟩
    rw [List.map_cons, List.map_cons, listed, List.append_assoc, readMembers, nextKey_memberText]
    simp only [bind, Except.bind, readColon_colon, readText_stringText,
      ih (by omega : entries.length < less)]
    rfl

end EventReader

namespace Attributes

/-- A key behind all others has its place at the end. -/
theorem insertEntry_last {entries : List (String × String)} {key : String} (value : String)
    (h : ∀ e ∈ entries, e.1 < key) : insertEntry key value entries = entries ++ [(key, value)] := by
  induction entries with
  | nil => rfl
  | cons e entries ih =>
    have hlt := h e List.mem_cons_self
    have hne : key ≠ e.1 := (String.ne_of_lt hlt).symm
    have hrest := ih fun e he => h e (List.mem_cons_of_mem _ he)
    rw [insertEntry, if_neg (String.lt_asymm hlt), if_neg hne, hrest, List.cons_append]

/-- Entries whose keys ascend are inserted one behind the other. -/
theorem foldl_insert (entries : List (String × String)) (m : Attributes)
    (h : (m.entries ++ entries).Pairwise (fun a b => a.1 < b.1)) :
    (entries.foldl (fun m e => m.insert e.1 e.2) m).entries = m.entries ++ entries := by
  induction entries generalizing m with
  | nil => exact (List.append_nil _).symm
  | cons e entries ih =>
    have hlast : (m.insert e.1 e.2).entries = m.entries ++ [e] :=
      insertEntry_last e.2 fun a ha => (List.pairwise_append.1 h).2.2 a ha e List.mem_cons_self
    rw [List.append_cons, ← hlast] at h ⊢
    exact ih _ h

/-- The entries of a map, inserted into the empty one, make the map again. -/
theorem foldl_insert_entries (m : Attributes) :
    m.entries.foldl (fun m e => m.insert e.1 e.2) empty = m := by
  have hentries := foldl_insert m.entries empty m.sorted
  obtain ⟨entries, sorted⟩ := m
  rwa [mk.injEq]

end Attributes

namespace EventReader

theorem readAttributes_valueText (e : Event) (rest : List Char) :
    readAttributes (EventKey.valueText e .attributes ++ rest) = .ok (e.attributes, rest) := by
  let entries := e.attributes.entries
  have htext : EventKey.valueText e .attributes =
      objectText (entries.map fun e => (e.1, stringText e.2)) := rfl
  have hlength := length_le_listed_members (entries.map fun e => (e.1, stringText e.2)) true
  rw [List.length_map] at hlength
  have hread := fun fuel hfuel => @readMembers_listed entries fuel hfuel true .empty rest
  rw [Attributes.foldl_insert_entries] at hread
  rw [htext, objectText_eq]
  apply hread
  rw [List.length_append]
  omega

end EventReader

/-! ## The values of an event -/

/-- The text of a float is read as the float. -/
def ReadsBack (x : Binary64) : Prop := EventReader.readFloat (floatText x) = .ok (x, [])

theorem readsBack_iff {x : Binary64} :
    ReadsBack x ↔ (EventReader.readFloat (floatText x)).toOption = some (x, []) := by
  unfold ReadsBack
  cases EventReader.readFloat (floatText x) <;> simp [Except.toOption]

instance (x : Binary64) : Decidable (ReadsBack x) := decidable_of_iff _ readsBack_iff.symm

namespace EventKey

/-- The float under a key. -/
def float? (e : Event) : EventKey → Option Binary64
  | .metric => some e.metric
  | .ttl => some e.ttl
  | _ => none

/-- The value under a key, put in the place of what is there. -/
def copy (e : Event) (key : EventKey) (into : Event) : Event :=
  match key with
  | .host => { into with host := e.host }
  | .service => { into with service := e.service }
  | .metric => { into with metric := e.metric }
  | .description => { into with description := e.description }
  | .state => { into with state := e.state }
  | .time => { into with time := e.time }
  | .tags => { into with tags := e.tags }
  | .ttl => { into with ttl := e.ttl }
  | .attributes => { into with attributes := e.attributes }

/-- Of a list of keys only the two of numbers matter. -/
theorem float?_readsBack {e : Event} {keys : List EventKey}
    (hmetric : .metric ∈ keys → ReadsBack e.metric) (httl : .ttl ∈ keys → ReadsBack e.ttl) :
    ∀ key ∈ keys, ∀ x, key.float? e = some x → ReadsBack x := by
  intro key hmem x hx
  cases key with
  | metric =>
    cases hx
    exact hmetric hmem
  | ttl =>
    cases hx
    exact httl hmem
  | _ => cases hx

theorem ofName?_name (key : EventKey) : ofName? key.name = some key := by
  cases key <;> decide

/-- The member of an event's object under a key. -/
def member (e : Event) (key : EventKey) : List Char := memberText (key.name, key.valueText e)

end EventKey

namespace EventReader

/-- A draft that has the value under one more key. -/
def Draft.add (e : Event) (draft : Draft) (key : EventKey) : Draft :=
  ⟨key.copy e draft.event, key :: draft.seen⟩

theorem readFloat_floatText {x : Binary64} (h : ReadsBack x) {tail : List Char}
    (htail : EndsNumber tail) : readFloat (floatText x ++ tail) = .ok (x, tail) :=
  readFloat_stops htail _ _ _ h

/-- In front of a comma or a brace the text of a value is read as the value. -/
theorem readValue_valueText {e : Event} {key : EventKey}
    (hfloat : ∀ x, key.float? e = some x → ReadsBack x) (draft : Draft) {tail : List Char}
    (htail : EndsNumber tail) :
    readValue key draft (key.valueText e ++ tail) = .ok (draft.add e key, tail) := by
  cases key with
  | host =>
    rw [readValue, EventKey.valueText, readText_stringText]
    rfl
  | service =>
    rw [readValue, EventKey.valueText, readText_stringText]
    rfl
  | metric =>
    rw [readValue, EventKey.valueText, readFloat_floatText (hfloat _ rfl) htail]
    rfl
  | description =>
    rw [readValue, EventKey.valueText, readText_stringText]
    rfl
  | state =>
    rw [readValue, EventKey.valueText, readText_stringText]
    rfl
  | time =>
    rw [readValue, EventKey.valueText, readInteger_intText htail]
    rfl
  | tags =>
    rw [readValue, EventKey.valueText, readTags_arrayText]
    rfl
  | ttl =>
    rw [readValue, EventKey.valueText, readFloat_floatText (hfloat _ rfl) htail]
    rfl
  | attributes =>
    rw [readValue, readAttributes_valueText]
    rfl

theorem floatText_of_not_finite {x : Binary64} (h : x.isFinite = false) :
    floatText x = ['n', 'u', 'l', 'l'] := by
  unfold Binary64.isFinite at h
  unfold floatText floatText?
  cases hvalue : x.value with
  | finite negative m e =>
    rw [hvalue] at h
    cases h
  | nan => rfl
  | infinite negative => rfl

theorem valueText_of_not_finite {e : Event} {key : EventKey} {x : Binary64}
    (hkey : key.float? e = some x) (hx : x.isFinite = false) :
    key.valueText e = ['n', 'u', 'l', 'l'] := by
  cases key with
  | metric =>
    cases hkey
    exact floatText_of_not_finite hx
  | ttl =>
    cases hkey
    exact floatText_of_not_finite hx
  | _ => cases hkey

/-- In the place of a float that is none the reader finds a null. -/
theorem readValue_null {e : Event} {key : EventKey} {x : Binary64} (hkey : key.float? e = some x)
    (draft : Draft) (tail : List Char) :
    readValue key draft (['n', 'u', 'l', 'l'] ++ tail) =
      failHere (.mismatch (.wrongKind .null .float)) tail := by
  cases key with
  | metric => rfl
  | ttl => rfl
  | _ => cases hkey

/-! ## Objects -/

theorem seen_foldl_add (e : Event) (keys : List EventKey) (draft : Draft) :
    (keys.foldl (Draft.add e) draft).seen = keys.reverse ++ draft.seen := by
  induction keys generalizing draft with
  | nil => rfl
  | cons key keys ih =>
    rw [List.foldl_cons, ih, List.reverse_cons, List.append_assoc]
    rfl

/-- A member under a key that has not been seen is read by the reader of its value. -/
theorem readObject_member (e : Event) {key : EventKey} {draft : Draft} (hnew : key ∉ draft.seen)
    (fuel : Nat) (first : Bool) (rest : List Char) :
    readObject (fuel + 1) first draft
        ((if first then key.member e else ',' :: key.member e) ++ rest) =
      (readValue key draft (key.valueText e ++ rest) >>= fun r =>
        readObject fuel false r.1 r.2) := by
  have hkey := nextKey_memberText first (key.name, key.valueText e) rest
  rw [readObject, EventKey.member, hkey]
  simp only [bind, Except.bind, key.ofName?_name, readColon_colon]
  rw [if_neg (by simpa using hnew)]

/-- The members of an event under keys that have not been seen are read one after the other. -/
theorem readObject_members (e : Event) {keys : List EventKey}
    (hfloat : ∀ key ∈ keys, ∀ x, key.float? e = some x → ReadsBack x) (hnodup : keys.Nodup)
    {draft : Draft} (hnew : ∀ key ∈ keys, key ∉ draft.seen) (fuel : Nat) (first : Bool)
    {tail : List Char} (htail : EndsNumber tail) :
    readObject (keys.length + fuel) first draft (listed first (keys.map (·.member e)) ++ tail) =
      readObject fuel (first && keys.isEmpty) (keys.foldl (Draft.add e) draft) tail := by
  induction keys generalizing draft first with
  | nil => simp [listed]
  | cons key keys ih =>
    have hvalue := readValue_valueText (hfloat key List.mem_cons_self) draft
      (endsNumber_listed htail (keys.map (·.member e)))
    have hlater : ∀ later ∈ keys, later ∉ (draft.add e key).seen := by
      intro later hmem hseen
      rcases List.mem_cons.1 hseen with rfl | hseen
      · exact (List.nodup_cons.1 hnodup).1 hmem
      · exact hnew later (List.mem_cons_of_mem key hmem) hseen
    have hrest := ih (fun later hmem => hfloat later (List.mem_cons_of_mem key hmem))
      (List.nodup_cons.1 hnodup).2 hlater false
    have hfuel : (key :: keys).length + fuel = (keys.length + fuel) + 1 := by
      rw [List.length_cons]
      omega
    rw [hfuel, List.map_cons, listed, List.append_assoc,
      readObject_member e (hnew key List.mem_cons_self), hvalue]
    simp only [bind, Except.bind, hrest, Bool.false_and, List.isEmpty_cons, Bool.and_false,
      List.foldl_cons]

/-- An object ends with its brace if no key is missing. -/
theorem readObject_brace {draft : Draft}
    (hall : EventKey.all.find? (fun key => !draft.seen.contains key) = none) (fuel : Nat)
    (first : Bool) (rest : List Char) :
    readObject (fuel + 1) first draft ('\x7d' :: rest) = .ok (draft.event, rest) := by
  rw [readObject, nextKey_brace]
  simp only [bind, Except.bind, hall]
  rfl

theorem readWhole_object {text : List Char} {e : Event}
    (h : readObject (text.length + 1) true {} text = .ok (e, [])) :
    readWhole ('\x7b' :: text) = .ok e := by
  change (readObject (text.length + 1) true {} text >>= _) = _
  rw [h]
  rfl

theorem readWhole_error {text : List Char} {fault : Fault}
    (h : readObject (text.length + 1) true {} text = .error fault) :
    readWhole ('\x7b' :: text) = .error fault := by
  change (readObject (text.length + 1) true {} text >>= _) = _
  rw [h]
  rfl

end EventReader

namespace Event
open EventReader

theorem toList_toJson (e : Event) :
    e.toJson.toList = '\x7b' :: (listed true (EventKey.all.map (·.member e)) ++ ['\x7d']) := by
  have htext := objectText_eq (EventKey.all.map fun key => (key.name, key.valueText e)) []
  rw [List.append_nil, List.map_map] at htext
  rw [toJson, String.toList_ofList, htext]
  rfl

/-- There is fuel for every member and one round more. -/
theorem fuel_of_members (e : Event) {before after : List EventKey}
    (hall : EventKey.all = before ++ after) :
    ∃ fuel, (listed true (EventKey.all.map (·.member e)) ++ ['\x7d']).length + 1 =
      before.length + (fuel + 1) := by
  have hlength := length_le_listed_members
    (EventKey.all.map fun key => (key.name, key.valueText e)) true
  rw [List.length_map, List.map_map] at hlength
  change EventKey.all.length ≤ (listed true (EventKey.all.map (·.member e))).length at hlength
  have hbefore : before.length ≤ EventKey.all.length := by
    rw [hall, List.length_append]
    exact Nat.le_add_right _ _
  obtain ⟨fuel, hfuel⟩ := Nat.exists_eq_add_of_le (Nat.le_trans hbefore hlength)
  refine ⟨fuel + 1, ?_⟩
  rw [List.length_append, List.length_singleton, hfuel]
  omega

/-- Under its nine keys there is all of an event. -/
theorem draft_of_all (e : Event) :
    EventKey.all.foldl (Draft.add e) {} = ⟨e, EventKey.all.reverse⟩ := by
  simp only [EventKey.all, List.foldl_cons, List.foldl_nil, Draft.add, EventKey.copy]
  rfl

theorem ofJson_toJson {e : Event} (hmetric : ReadsBack e.metric) (httl : ReadsBack e.ttl) :
    ofJson e.toJson = .ok e := by
  have hfloat : ∀ key ∈ EventKey.all, ∀ x, key.float? e = some x → ReadsBack x :=
    EventKey.float?_readsBack (fun _ => hmetric) fun _ => httl
  have hnew : ∀ key ∈ EventKey.all, key ∉ ({} : Draft).seen := fun _ _ => List.not_mem_nil
  obtain ⟨fuel, hfuel⟩ := e.fuel_of_members (List.append_nil EventKey.all).symm
  rw [ofJson, toList_toJson]
  apply readWhole_object
  rw [hfuel, readObject_members e hfloat (by decide) hnew (fuel + 1) true (endsNumber_brace []),
    e.draft_of_all]
  exact readObject_brace rfl fuel _ []

/-- The first key whose float is none is where the reader stops. -/
theorem ofJson_null {e : Event} {before after : List EventKey} {key : EventKey} {x : Binary64}
    (hall : EventKey.all = before ++ key :: after) (hbefore : before ≠ [])
    (hfloat : ∀ key ∈ before, ∀ x, key.float? e = some x → ReadsBack x)
    (hkey : key.float? e = some x) (hx : x.isFinite = false) :
    ∃ front back, e.toJson.toList = front ++ ['n', 'u', 'l', 'l'] ++ back ∧
      ofJson e.toJson = .error ⟨.mismatch (.wrongKind .null .float), unreadBytes back⟩ := by
  let back := listed false (after.map (·.member e)) ++ ['\x7d']
  have htext : listed true (EventKey.all.map (·.member e)) ++ ['\x7d'] =
      listed true (before.map (·.member e)) ++ (',' :: key.member e ++ back) := by
    rw [hall, List.map_append, List.map_cons, listed_append]
    simp [hbefore, listed, back]
  have hnodup : (before ++ key :: after).Nodup := by
    rw [← hall]
    decide
  obtain ⟨hbeforeNodup, -, hdistinct⟩ := List.nodup_append.1 hnodup
  have hnew : key ∉ (before.foldl (Draft.add e) {}).seen := by
    rw [seen_foldl_add, List.append_nil, List.mem_reverse]
    exact fun hmem => hdistinct key hmem key List.mem_cons_self rfl
  have hread : readObject ((listed true (EventKey.all.map (·.member e)) ++ ['\x7d']).length + 1)
      true {} (listed true (EventKey.all.map (·.member e)) ++ ['\x7d']) =
        failHere (.mismatch (.wrongKind .null .float)) back := by
    obtain ⟨fuel, hfuel⟩ := e.fuel_of_members hall
    have hfirst : (true && before.isEmpty) = false := by simp [hbefore]
    have hmember := readObject_member e hnew fuel false back
    rw [if_neg (by decide), valueText_of_not_finite hkey hx, readValue_null hkey] at hmember
    have hfront := @readObject_members e before hfloat hbeforeNodup {} (fun _ _ => List.not_mem_nil)
      (fuel + 1) true (',' :: key.member e ++ back) (endsNumber_comma _)
    rw [hfuel, htext, hfront, hfirst, hmember]
    rfl
  refine ⟨'\x7b' :: (listed true (before.map (·.member e)) ++
    ',' :: (stringText key.name ++ [':'])), back, ?_, ?_⟩
  · rw [toList_toJson, htext, EventKey.member, memberText, valueText_of_not_finite hkey hx]
    simp
  · rw [ofJson, toList_toJson]
    exact readWhole_error hread

/-- The file of the whole event is read back as the event if both its numbers are finite. If
one is not, the reader stops behind the null in its place. Of the numbers nothing is assumed
but that the text of each alone is read as the number. -/
theorem json_reads_back (e : Event) (hmetric : e.metric.isFinite = true → ReadsBack e.metric)
    (httl : e.ttl.isFinite = true → ReadsBack e.ttl) :
    (e.fileBytes? jsonName).bind Text.decode? = some e.toJson ∧
    (e.metric.isFinite = true ∧ e.ttl.isFinite = true → ofJson e.toJson = .ok e) ∧
    (¬(e.metric.isFinite = true ∧ e.ttl.isFinite = true) →
      ∃ front back, e.toJson.toList = front ++ ['n', 'u', 'l', 'l'] ++ back ∧
        ofJson e.toJson = .error ⟨.mismatch (.wrongKind .null .float), unreadBytes back⟩) := by
  constructor
  · rw [fileBytes?, fileText?, if_pos rfl]
    exact Text.decode?_encode e.toJson
  constructor
  · rintro ⟨hmetricFinite, httlFinite⟩
    exact ofJson_toJson (hmetric hmetricFinite) (httl httlFinite)
  · intro hnone
    by_cases hmetricFinite : e.metric.isFinite = true
    · have httlNone : e.ttl.isFinite = false := by
        rw [← Bool.not_eq_true]
        exact fun httlFinite => hnone ⟨hmetricFinite, httlFinite⟩
      have hall : EventKey.all =
          [.host, .service, .metric, .description, .state, .time, .tags] ++ .ttl :: [.attributes] :=
        rfl
      apply ofJson_null hall (List.cons_ne_nil _ _) _ rfl httlNone
      exact EventKey.float?_readsBack (fun _ => hmetric hmetricFinite) fun h => by simp at h
    · have hall : EventKey.all = [.host, .service] ++ .metric ::
          [.description, .state, .time, .tags, .ttl, .attributes] := rfl
      apply ofJson_null hall (List.cons_ne_nil _ _) _ rfl (Bool.eq_false_iff.2 hmetricFinite)
      exact EventKey.float?_readsBack (fun h => by simp at h) fun h => by simp at h

/-- Texts that look like JSON, a control character, the least time, and a float that is none. -/
theorem json_reads_back_odd_texts :
    let e : Event :=
      { host := "a\"b\\"
        service := "\x00\u001f\t😀"
        metric := ⟨0x3FB999999999999A⟩
        time := Int64.minValue
        tags := ["", "\",\"]"]
        ttl := ⟨0x404E000000000000⟩
        attributes := .ofList [("", "\x7d"), ("Host", ":")] }
    ReadsBack e.metric ∧ ReadsBack e.ttl ∧ ofJson e.toJson = .ok e ∧
      ∃ front back, { e with ttl := .nan }.toJson.toList = front ++ ['n', 'u', 'l', 'l'] ++ back ∧
        ofJson { e with ttl := .nan }.toJson =
          .error ⟨.mismatch (.wrongKind .null .float), unreadBytes back⟩ := by
  intro e
  have hmetric : ReadsBack e.metric := by decide +kernel
  have httl : ReadsBack e.ttl := by decide +kernel
  have hnone : ¬Binary64.nan.isFinite = true := by decide
  obtain ⟨-, hread, -⟩ := json_reads_back e (fun _ => hmetric) fun _ => httl
  obtain ⟨-, -, hnull⟩ :=
    json_reads_back { e with ttl := .nan } (fun _ => hmetric) fun h => absurd h hnone
  exact ⟨hmetric, httl, hread (by decide), hnull fun h => hnone h.2⟩

end Event

end EventTree
