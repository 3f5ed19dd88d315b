import EventTree.Proofs.Wire.CutOut
import EventTree.Proofs.Wire.FieldForms
import EventTree.Proofs.Wire.RoundTrip
import EventTree.Remote.Answer
import Mathlib.Logic.Relation

/-!
# Unknown fields leave no trace

A sender may know more fields than are declared here. Such a field may stand between any
two others, in a message of any kind and at any depth, and whatever its form, the message
that is read is the one without it.

Two facts carry this. A reader of a declared field takes exactly what the skipper would
take, so the places between the fields are where the forms of the fields say, whatever the
fields are. And a message inside another is read like a message of its own, so a field
that is put into it can only be seen from around it by the lengths, which are enlarged.
-/
namespace EventTree.Wire
open Number

/-! ## What is read is what would be skipped -/

section
variable {α β μ : Type} {depth tag : Nat} {w : WireType}
  {read : Bytes → Except DecodeFault (α × Bytes)}

/-- What the reader of a field leaves is what the skipper leaves. -/
def Skipped (depth tag : Nat) (w : WireType) (read : Bytes → Except DecodeFault (α × Bytes)) :
    Prop :=
  ∀ bytes a rest, read bytes = .ok (a, rest) → skipField depth tag w bytes = .ok rest

theorem Skipped.update (h : Skipped depth tag w read) (f : α → β) :
    Skipped depth tag w fun bytes => read bytes >>= fun (a, rest) => pure (f a, rest) := by
  intro bytes b rest hread
  obtain ⟨⟨a, behind⟩, hfirst, hsecond⟩ := bind_eq_ok.1 hread
  cases hsecond
  exact h _ _ _ hfirst

theorem Skipped.of_value {expected : WireType} (hdepth : depth ≠ 0)
    (hexpected : expected ≠ .startGroup)
    (h : ∀ bytes a rest, read bytes = .ok (a, rest) → passValue expected bytes = .ok ((), rest))
    (name : String) (actual : WireType) :
    Skipped depth tag actual fun bytes => inField name (typed expected actual (read bytes)) := by
  intro bytes a rest hread
  obtain ⟨rfl, hvalue⟩ := typed_eq_ok.1 (inField_eq_ok.1 hread)
  rw [skipField_eq, if_neg hdepth, if_neg hexpected, h _ _ _ hvalue]
  rfl

theorem passValue_of_readDelimited {bytes payload rest : Bytes}
    (h : readDelimited bytes = .ok (payload, rest)) :
    passValue .delimited bytes = .ok ((), rest) := by
  rw [passValue, h]
  rfl

theorem textField_skipped (hdepth : depth ≠ 0) (name : String) :
    Skipped depth tag w (textField name w) := by
  apply Skipped.of_value hdepth (by decide)
  intro bytes s rest h
  unfold readText at h
  split at h
  · cases h
  · next hpayload =>
    split at h
    · cases h
      exact passValue_of_readDelimited hpayload
    · cases h

theorem varintField_skipped (hdepth : depth ≠ 0) (name : String) :
    Skipped depth tag w (varintField name w) := by
  apply Skipped.of_value hdepth (by decide)
  intro bytes n rest h
  rw [passValue, h]
  rfl

theorem readBytes_of_readFixed (f : Nat → α) {count : Nat} {bytes rest : Bytes} {a : α}
    (h : (readFixed count bytes).map (fun (n, rest) => (f n, rest)) = .ok (a, rest)) :
    ∃ taken, readBytes count bytes = .ok (taken, rest) := by
  obtain ⟨⟨n, behind⟩, hfixed, ha⟩ := map_eq_ok.1 h
  cases ha
  obtain ⟨⟨taken, left⟩, htaken, hn⟩ := map_eq_ok.1 hfixed
  cases hn
  exact ⟨taken, htaken⟩

theorem binary32Field_skipped (hdepth : depth ≠ 0) (name : String) :
    Skipped depth tag w (binary32Field name w) := by
  apply Skipped.of_value hdepth (by decide)
  intro bytes x rest h
  obtain ⟨taken, htaken⟩ := readBytes_of_readFixed (fun n => Binary32.mk n.toUInt32) h
  rw [passValue, htaken]
  rfl

theorem binary64Field_skipped (hdepth : depth ≠ 0) (name : String) :
    Skipped depth tag w (binary64Field name w) := by
  apply Skipped.of_value hdepth (by decide)
  intro bytes x rest h
  obtain ⟨taken, htaken⟩ := readBytes_of_readFixed (fun n => Binary64.mk n.toUInt64) h
  rw [passValue, htaken]
  rfl

variable {field : μ → Nat → WireType → Bytes → Except DecodeFault (μ × Bytes)}

theorem messageField_skipped (hfield : ∀ m tag wireType, Local (field m tag wireType))
    (hdepth : depth ≠ 0) (name : String) (m : μ) :
    Skipped depth tag w fun bytes =>
      inField name (typed .delimited w (readMessage depth field m bytes)) := by
  apply Skipped.of_value hdepth (by decide)
  intro bytes m' rest h
  have hcut := (readMessage_eq_ok_iff hfield depth m bytes _).1 h
  rw [readCut, if_neg hdepth] at hcut
  obtain ⟨⟨payload, behind⟩, hpayload, hinside⟩ := bind_eq_ok.1 hcut
  obtain ⟨⟨m'', left⟩, -, hr⟩ := bind_eq_ok.1 hinside
  cases hr
  exact passValue_of_readDelimited hpayload

theorem unknownField_skipped (m : μ) : Skipped depth tag w (unknownField depth m tag w) := by
  intro bytes m' rest h
  exact (unknownField_eq_ok.1 h).2

end

theorem everyKind_skipped {μ : Type} {depth : Nat} (hdepth : depth ≠ 0) (tag : Nat)
    (w : WireType) : EveryKind depth tag w (@Skipped μ depth tag w) where
  text name f := (textField_skipped hdepth name).update f
  varint name f := (varintField_skipped hdepth name).update f
  binary32 name f := (binary32Field_skipped hdepth name).update f
  binary64 name f := (binary64Field_skipped hdepth name).update f
  inner hfield start name f := (messageField_skipped hfield hdepth name start).update f
  unknown m := unknownField_skipped m

/-! ## Between two fields -/

section
variable {μ : Type} {field : μ → Nat → WireType → Bytes → Except DecodeFault (μ × Bytes)}
  {depth tag : Nat} {m m' : μ}

theorem IsField.length_pos {bytes : Bytes} (h : IsField depth tag bytes) : 0 < bytes.length := by
  obtain ⟨w, front, back, rfl, hkey, -⟩ := h.skip
  have hpos := hkey.varint.length_pos
  rw [List.length_append]
  omega

/-- Readers that take what the skipper takes read a field to its end and no further. -/
theorem FieldRun.first (hfield : ∀ m tag w, Skipped depth tag w (field m tag w))
    {part after : Bytes} (hpart : IsField depth tag part) (h : FieldRun field m (part ++ after) m') :
    ∃ middle, Takes (readField field m) part middle ∧ FieldRun field middle after m' := by
  generalize hbytes : part ++ after = bytes at h
  cases h with
  | nil m =>
    have hpos := hpart.length_pos
    rw [(List.append_eq_nil_iff.1 hbytes).1] at hpos
    exact absurd hpos (Nat.lt_irrefl 0)
  | @cons _ middle _ taken behind htaken hbehind =>
    obtain ⟨w, front, back, rfl, hkey, hskip⟩ := hpart.skip
    have hread := htaken behind
    rw [← hbytes, readField, List.append_assoc, hkey.read] at hread
    have hsame := hfield _ _ _ _ _ _ hread
    rw [hskip after] at hsame
    cases hsame
    rw [List.append_cancel_right hbytes]
    exact ⟨middle, htaken, hbehind⟩

theorem FieldRun.split (hfield : ∀ m tag w, Skipped depth tag w (field m tag w)) {after : Bytes} :
    ∀ {before : Bytes} {m : μ}, AreFields depth before → FieldRun field m (before ++ after) m' →
      ∃ middle, FieldRun field m before middle ∧ FieldRun field middle after m'
  | _, m, .nil, h => ⟨m, .nil m, h⟩
  | _, m, @AreFields.cons _ _ part rest hpart hrest, h => by
    rw [List.append_assoc] at h
    obtain ⟨middle, htaken, hbehind⟩ := h.first hfield hpart
    obtain ⟨last, hfront, hback⟩ := hbehind.split hfield hrest
    exact ⟨last, .cons htaken hfront, hback⟩

/-- A message inside another is read as its fields are. -/
theorem readMessage_eq_ok {length body rest : Bytes}
    (hfield : ∀ m tag w, Local (field m tag w)) (hdepth : depth ≠ 0)
    (hlength : IsVarint 10 body.length length) :
    readMessage depth field m (length ++ body ++ rest) = .ok (m', rest) ↔
      FieldRun field m body m' := by
  have hread : readLength (length ++ body ++ rest) = .ok (body.length, body ++ rest) := by
    rw [readLength, List.append_assoc, hlength.readVarint]
    exact if_neg (by simp)
  have hstop : (body ++ rest).length - body.length = rest.length := by
    rw [List.length_append]
    omega
  have hfields : readMessage depth field m (length ++ body ++ rest) =
      readFields field rest.length (body ++ rest).length m (body ++ rest) := by
    rw [readMessage, if_neg hdepth, hread, ← hstop]
    rfl
  rw [hfields]
  constructor
  · intro h
    obtain ⟨-, taken, htaken, hrun⟩ := readFields_local hfield h
    rw [List.append_cancel_right htaken]
    exact hrun
  · intro h
    exact h.read (by simp) rest

end

theorem Message.decode_eq_ok {bytes : Bytes} {m : Message} :
    decode bytes = .ok m ↔ FieldRun (field depthLimit) {} bytes m := by
  rw [decode, merge, map_eq_ok]
  constructor
  · rintro ⟨⟨m', rest⟩, hread, rfl⟩
    obtain ⟨hend, taken, rfl, hrun⟩ := readFields_local (field_local depthLimit) hread
    rw [List.length_eq_zero_iff.1 hend, List.append_nil]
    exact hrun
  · intro h
    have hread := h.read (Nat.le_refl _) []
    rw [List.append_nil] at hread
    exact ⟨(m, []), hread, rfl⟩

/-! ## The kinds of messages -/

inductive MessageKind where
  | message
  | query
  | event
  | eventAttribute
deriving DecidableEq, Repr

namespace MessageKind

def Value : MessageKind → Type
  | .message => Message
  | .query => Query
  | .event => SentEvent
  | .eventAttribute => Attribute

/-- The tags that mean something in a message of this kind. -/
def declared : MessageKind → List Nat
  | .message => [2, 3, 5, 6]
  | .query => [1]
  | .event => [1, 2, 3, 4, 5, 7, 8, 9, 10, 13, 14, 15]
  | .eventAttribute => [1, 2]

/-- The kind of the messages in a field. -/
def inner? : MessageKind → Nat → Option MessageKind
  | .message, 5 => some .query
  | .message, 6 => some .event
  | .event, 9 => some .eventAttribute
  | _, _ => none

def reader : (kind : MessageKind) → Nat → kind.Value → Nat → WireType → Bytes →
    Except DecodeFault (kind.Value × Bytes)
  | .message => Message.field
  | .query => Query.field
  | .event => SentEvent.field
  | .eventAttribute => Attribute.field

theorem reader_everyKind {kind : MessageKind} {depth tag : Nat} {w : WireType}
    {P : (Bytes → Except DecodeFault (kind.Value × Bytes)) → Prop} (h : EveryKind depth tag w P)
    (m : kind.Value) : P (kind.reader depth m tag w) := by
  cases kind with
  | message => exact Message.field_everyKind h m
  | query => exact Query.field_everyKind h m
  | event => exact SentEvent.field_everyKind h m
  | eventAttribute => exact Attribute.field_everyKind h m

theorem reader_local (kind : MessageKind) (depth : Nat) (m : kind.Value) (tag : Nat)
    (w : WireType) : Local (kind.reader depth m tag w) :=
  reader_everyKind (everyKind_local depth tag w) m

theorem reader_skipped (kind : MessageKind) {depth : Nat} (hdepth : depth ≠ 0) (m : kind.Value)
    (tag : Nat) (w : WireType) : Skipped depth tag w (kind.reader depth m tag w) :=
  reader_everyKind (everyKind_skipped hdepth tag w) m

theorem typedField_eq_ok {α β : Type} (place : α → β) {name : String} {w : WireType}
    {read : Except DecodeFault (α × Bytes)} {b : β} {rest : Bytes} :
    (inField name (typed w w read) >>= fun (a, rest) => pure (place a, rest)) = .ok (b, rest) ↔
      ∃ a, read = .ok (a, rest) ∧ place a = b := by
  rw [bind_eq_ok]
  constructor
  · rintro ⟨⟨a, behind⟩, hread, hplace⟩
    cases hplace
    exact ⟨a, (typed_eq_ok.1 (inField_eq_ok.1 hread)).2, rfl⟩
  · rintro ⟨a, hread, rfl⟩
    exact ⟨(a, rest), inField_eq_ok.2 (typed_eq_ok.2 ⟨rfl, hread⟩), rfl⟩

/-- A message inside another is read by the reader of its kind, one deeper, and put in its
place in the message around it. -/
theorem reader_inner {kind inner : MessageKind} {tag : Nat} (h : kind.inner? tag = some inner)
    (depth : Nat) (m : kind.Value) :
    ∃ (start : inner.Value) (place : inner.Value → kind.Value), ∀ bytes m' rest,
      kind.reader depth m tag .delimited bytes = .ok (m', rest) ↔
        ∃ a, readMessage depth (inner.reader (depth - 1)) start bytes = .ok (a, rest) ∧
          place a = m' := by
  unfold inner? at h
  split at h <;> cases h
  · let place (m : Message) (q : Query) : Message := { m with query := some q }
    exact ⟨Option.getD (Message.query m) {}, place m, fun _ _ _ => typedField_eq_ok (place m)⟩
  · let place (m : Message) (e : SentEvent) : Message := { m with events := m.events ++ [e] }
    exact ⟨({} : SentEvent), place m, fun _ _ _ => typedField_eq_ok (place m)⟩
  · let place (m : SentEvent) (a : Attribute) : SentEvent :=
      { m with attributes := m.attributes ++ [a] }
    exact ⟨({} : Attribute), place m, fun _ _ _ => typedField_eq_ok (place m)⟩

/-- A fault in a declared field names the field. -/
theorem reader_of_declared {kind : MessageKind} {tag : Nat} (h : tag ∈ kind.declared)
    (depth : Nat) :
    ∃ m fault, kind.reader depth m tag .endGroup [] = .error fault ∧ fault.fields ≠ [] := by
  cases kind with
  | message =>
    refine ⟨({} : Message), ?_⟩
    simp only [declared, List.mem_cons, List.not_mem_nil, or_false] at h
    rcases h with rfl | rfl | rfl | rfl <;> exact ⟨_, rfl, List.cons_ne_nil _ _⟩
  | query =>
    refine ⟨({} : Query), ?_⟩
    simp only [declared, List.mem_cons, List.not_mem_nil, or_false] at h
    subst h
    exact ⟨_, rfl, List.cons_ne_nil _ _⟩
  | event =>
    refine ⟨({} : SentEvent), ?_⟩
    simp only [declared, List.mem_cons, List.not_mem_nil, or_false] at h
    rcases h with rfl | rfl | rfl | rfl | rfl | rfl | rfl | rfl | rfl | rfl | rfl | rfl <;>
      exact ⟨_, rfl, List.cons_ne_nil _ _⟩
  | eventAttribute =>
    refine ⟨({} : Attribute), ?_⟩
    simp only [declared, List.mem_cons, List.not_mem_nil, or_false] at h
    rcases h with rfl | rfl <;> exact ⟨_, rfl, List.cons_ne_nil _ _⟩

theorem reader_of_undeclared {kind : MessageKind} {tag : Nat} (h : tag ∉ kind.declared)
    (depth : Nat) (m : kind.Value) (w : WireType) (bytes : Bytes) :
    kind.reader depth m tag w bytes = unknownField depth m tag w bytes := by
  cases kind with
  | message =>
    have hfield (m : Message) :
        Message.field depth m tag w bytes = unknownField depth m tag w bytes := by
      simp_all [declared, Message.field]
    exact hfield m
  | query =>
    have hfield (m : Query) :
        Query.field depth m tag w bytes = unknownField depth m tag w bytes := by
      simp_all [declared, Query.field]
    exact hfield m
  | event =>
    have hfield (m : SentEvent) :
        SentEvent.field depth m tag w bytes = unknownField depth m tag w bytes := by
      simp_all [declared, SentEvent.field]
    exact hfield m
  | eventAttribute =>
    have hfield (m : Attribute) :
        Attribute.field depth m tag w bytes = unknownField depth m tag w bytes := by
      simp_all [declared, Attribute.field]
    exact hfield m

/-- The declared tags are those that a reader does not pass over. -/
theorem reader_eq_unknownField_iff (kind : MessageKind) (depth tag : Nat) :
    (∀ m w bytes, kind.reader depth m tag w bytes = unknownField depth m tag w bytes) ↔
      tag ∉ kind.declared := by
  constructor
  · intro h hdeclared
    obtain ⟨m, fault, hfault, hfields⟩ := reader_of_declared hdeclared depth
    rw [h] at hfault
    cases depth <;> cases hfault <;> exact hfields rfl
  · exact fun h => reader_of_undeclared h depth

end MessageKind

/-! ## Fields that are put in -/

/-- The second bytes are the first with an unknown field put in somewhere between two fields,
in a message of this kind or in one inside it. The lengths around the place are told anew. -/
inductive Inserted : (depth : Nat) → (kind : MessageKind) → Bytes → Bytes → Prop
  | here {depth tag : Nat} {kind : MessageKind} {before extra after : Bytes}
      (hbefore : AreFields depth before) (hextra : IsField depth tag extra)
      (hunknown : tag ∉ kind.declared) :
      Inserted depth kind (before ++ after) (before ++ (extra ++ after))
  | inside {depth tag : Nat} {kind inner : MessageKind}
      {before front length body length' body' after : Bytes}
      (hbefore : AreFields (depth + 1) before) (hkey : IsKey tag .delimited front)
      (hinner : kind.inner? tag = some inner) (hlength : IsVarint 10 body.length length)
      (hlength' : IsVarint 10 body'.length length') (h : Inserted depth inner body body') :
      Inserted (depth + 1) kind (before ++ (front ++ (length ++ body) ++ after))
        (before ++ (front ++ (length' ++ body') ++ after))

/-- A written message and the messages inside it are fields, one behind the other, so there is
a place for one more between any two of them. -/
theorem Message.areFields_encode {m : Message} (hlength : m.encode.length < 2 ^ 64) (depth : Nat) :
    AreFields (depth + 1) m.encode ∧
    (∀ q, m.query = some q → AreFields (depth + 1) q.encode) ∧
    ∀ e ∈ m.events, AreFields (depth + 1) e.encode ∧
      ∀ a ∈ e.attributes, AreFields (depth + 1) a.encode := by
  have hinner {whole body : Bytes} {tag length : Nat} (hwhole : whole.length < 2 ^ 64)
      (h : Encloses whole tag length body) : body.length < 2 ^ 64 := by
    have hle := h.2.length_le
    simp only [List.length_append] at hle
    omega
  constructor
  · exact m.formed_encode hlength depth
  constructor
  · intro q hq
    exact q.formed_encode (hinner hlength (encloses_query hlength hq)) depth
  · intro e he
    have hevent := hinner hlength (encloses_event hlength he)
    constructor
    · exact e.formed_encode hevent depth
    · intro a ha
      exact a.formed_encode (hinner hevent (SentEvent.encloses_attribute hevent ha)) depth

theorem takes_unknown {kind : MessageKind} {depth tag : Nat} {extra : Bytes}
    (hextra : IsField depth tag extra) (hunknown : tag ∉ kind.declared) (m : kind.Value) :
    Takes (readField (kind.reader depth) m) extra m := by
  intro rest
  obtain ⟨w, front, back, rfl, hkey, hskip⟩ := hextra.skip
  rw [readField, List.append_assoc, hkey.read]
  change kind.reader depth m tag w (back ++ rest) = _
  rw [(kind.reader_eq_unknownField_iff depth tag).2 hunknown]
  exact unknownField_eq_ok.2 ⟨rfl, hskip rest⟩

/-- A message inside another may be exchanged for one that is read alike. -/
theorem Takes.exchange {kind inner : MessageKind} {depth tag : Nat}
    {front length body length' body' : Bytes} (hkey : IsKey tag .delimited front)
    (hinner : kind.inner? tag = some inner) (hlength : IsVarint 10 body.length length)
    (hlength' : IsVarint 10 body'.length length')
    (halike : ∀ m m', FieldRun (inner.reader depth) m body m' →
      FieldRun (inner.reader depth) m body' m')
    {m m' : kind.Value}
    (h : Takes (readField (kind.reader (depth + 1)) m) (front ++ (length ++ body)) m') :
    Takes (readField (kind.reader (depth + 1)) m) (front ++ (length' ++ body')) m' := by
  obtain ⟨start, place, hread⟩ := MessageKind.reader_inner hinner (depth + 1) m
  have hlocal := inner.reader_local depth
  intro rest
  have hwhole := h rest
  rw [readField, List.append_assoc, hkey.read] at hwhole ⊢
  obtain ⟨a, hbody, hplace⟩ := (hread _ _ _).1 hwhole
  have hrun := (readMessage_eq_ok hlocal (Nat.succ_ne_zero depth) hlength).1 hbody
  apply (hread _ _ _).2
  have hrun' := halike _ _ hrun
  exact ⟨a, (readMessage_eq_ok hlocal (Nat.succ_ne_zero depth) hlength').2 hrun', hplace⟩

/-- By induction on how deep the field is put in: what is read around the place is read as
before, since of the messages around it nothing but the bytes has changed. -/
theorem Inserted.run {depth : Nat} {kind : MessageKind} {bytes bytes' : Bytes}
    (h : Inserted depth kind bytes bytes') :
    ∀ m m' : kind.Value, FieldRun (kind.reader depth) m bytes m' →
      FieldRun (kind.reader depth) m bytes' m' := by
  induction h with
  | @here depth tag kind before extra after hbefore hextra hunknown =>
    intro m m' hrun
    have hskipped := kind.reader_skipped (Nat.ne_of_gt hextra.depth_pos)
    obtain ⟨middle, hfront, hback⟩ := hrun.split hskipped hbefore
    exact hfront.append (.cons (takes_unknown hextra hunknown middle) hback)
  | @inside depth tag kind inner before front length body length' body' after
      hbefore hkey hinner hlength hlength' _ ih =>
    intro m m' hrun
    have hskipped := kind.reader_skipped (Nat.succ_ne_zero depth)
    obtain ⟨middle, hfront, hback⟩ := hrun.split hskipped hbefore
    have hfield : IsField (depth + 1) tag (front ++ (length ++ body)) :=
      .value hkey (.delimited hlength)
    obtain ⟨last, htaken, hbehind⟩ := hback.first hskipped hfield
    exact hfront.append (.cons (htaken.exchange hkey hinner hlength hlength' ih) hbehind)

namespace Message

theorem decode_inserted {bytes bytes' : Bytes} {m : Message}
    (h : Inserted depthLimit .message bytes bytes') (hread : decode bytes = .ok m) :
    decode bytes' = .ok m :=
  decode_eq_ok.2 (h.run _ _ (decode_eq_ok.1 hread))

theorem decode_insertions {bytes bytes' : Bytes} {m : Message}
    (h : Relation.ReflTransGen (Inserted depthLimit .message) bytes bytes')
    (hread : decode bytes = .ok m) : decode bytes' = .ok m := by
  induction h with
  | refl => exact hread
  | tail _ hlast ih => exact decode_inserted hlast ih

/-- However many unknown fields are put into a message, it is read as it was without them,
and so are the events of an answer. This holds of all bytes that can be read, whoever wrote
them, and so of every message that is written here. -/
theorem unknown_fields_invisible {bytes bytes' : Bytes}
    (h : Relation.ReflTransGen (Inserted depthLimit .message) bytes bytes') :
    (∀ m, decode bytes = .ok m → decode bytes' = .ok m) ∧
    ∀ m : Message, bytes = m.encode → m.encode.length < 2 ^ 64 →
      decode bytes' = decode m.encode ∧ decode bytes' = .ok m ∧
        (decode bytes').map events? = (decode m.encode).map events? := by
  constructor
  · exact fun m hread => decode_insertions h hread
  · rintro m rfl hlength
    have hwritten : decode m.encode = .ok m :=
      decode_of_reads (reads_encode (by decide) m) hlength
    have hread := decode_insertions h hwritten
    rw [hread, hwritten]
    exact ⟨rfl, rfl, rfl⟩

/-- A group behind the key of an attribute, two messages deep, and behind the only event four
bytes of a tag that is not declared. -/
theorem unknown_fields_invisible_nested :
    let m : Message := { ok := some true, events := [{ attributes := [{ key := "k" }] }] }
    let bytes : Bytes := [0x10, 1, 0x32, 10, 0x4a, 8, 0x0a, 1, 0x6b, 0x1b, 8, 0x96, 1, 0x1c,
      0x25, 1, 2, 3, 4]
    m.encode.length < 2 ^ 64 ∧
      Relation.ReflTransGen (Inserted depthLimit .message) m.encode bytes ∧
      decode bytes = .ok m := by
  intro m bytes
  have hencode : m.encode = [0x10, 1, 0x32, 5, 0x4a, 3, 0x0a, 1, 0x6b] := by decide +kernel
  have hlength : m.encode.length < 2 ^ 64 := by
    rw [hencode]
    decide
  have hkey (tag : Nat) (hpos : tag ≠ 0) (htag : tag < 2 ^ 29) (w : WireType) :
      IsKey tag w (key tag w) := isKey_key hpos htag w
  have hname : AreFields 98 [0x0a, 1, 0x6b] := by
    have hattribute : ({ key := "k" } : Attribute).encode = [0x0a, 1, 0x6b] := by decide +kernel
    obtain ⟨-, -, hevents⟩ := areFields_encode hlength 97
    rw [← hattribute]
    exact (hevents _ List.mem_cons_self).2 _ List.mem_cons_self
  have hnumber : IsField 97 1 ([8] ++ [0x96, 1]) :=
    .value (hkey 1 (by decide) (by decide) .varint)
      (.varint (isVarint_varint (by decide : 150 < _)))
  have hgroup : IsField 98 3 ([0x1b] ++ ([8, 0x96, 1] ++ [0x1c])) :=
    .group (hkey 3 (by decide) (by decide) .startGroup) (.one hnumber)
      (hkey 3 (by decide) (by decide) .endGroup)
  have hattribute : Inserted 98 .eventAttribute ([0x0a, 1, 0x6b] ++ [])
      ([0x0a, 1, 0x6b] ++ ([0x1b, 8, 0x96, 1, 0x1c] ++ [])) :=
    .here hname hgroup (by decide)
  have hevent : Inserted 99 .event ([] ++ ([0x4a] ++ ([3] ++ [0x0a, 1, 0x6b]) ++ []))
      ([] ++ ([0x4a] ++ ([8] ++ [0x0a, 1, 0x6b, 0x1b, 8, 0x96, 1, 0x1c]) ++ [])) :=
    .inside .nil (hkey 9 (by decide) (by decide) .delimited) rfl (isVarint_varint (by decide))
      (isVarint_varint (by decide)) hattribute
  have hok : IsField 100 2 ([0x10] ++ [1]) :=
    .value (hkey 2 (by decide) (by decide) .varint) (.varint (isVarint_varint (by decide : 1 < _)))
  have hdeep : Inserted 100 .message
      ([0x10, 1] ++ ([0x32] ++ ([5] ++ [0x4a, 3, 0x0a, 1, 0x6b]) ++ []))
      ([0x10, 1] ++
        ([0x32] ++ ([10] ++ [0x4a, 8, 0x0a, 1, 0x6b, 0x1b, 8, 0x96, 1, 0x1c]) ++ [])) :=
    .inside (.one hok) (hkey 6 (by decide) (by decide) .delimited) rfl (isVarint_varint (by decide))
      (isVarint_varint (by decide)) hevent
  have hlast : IsField 100 6 ([0x32] ++
      ([10] ++ [0x4a, 8, 0x0a, 1, 0x6b, 0x1b, 8, 0x96, 1, 0x1c])) :=
    .value (hkey 6 (by decide) (by decide) .delimited) (.delimited (isVarint_varint (by decide)))
  have hfixed : IsField 100 4 ([0x25] ++ [1, 2, 3, 4]) :=
    .value (hkey 4 (by decide) (by decide) .fixed32) (.fixed32 rfl)
  have hend : Inserted 100 .message (([0x10, 1] ++
        [0x32, 10, 0x4a, 8, 0x0a, 1, 0x6b, 0x1b, 8, 0x96, 1, 0x1c]) ++ [])
      (([0x10, 1] ++ [0x32, 10, 0x4a, 8, 0x0a, 1, 0x6b, 0x1b, 8, 0x96, 1, 0x1c]) ++
        ([0x25, 1, 2, 3, 4] ++ [])) :=
    .here (.cons hok (.one hlast)) hfixed (by decide)
  have hinserted : Relation.ReflTransGen (Inserted depthLimit .message) m.encode bytes := by
    rw [hencode]
    exact .tail (.single hdeep) hend
  exact ⟨hlength, hinserted, ((unknown_fields_invisible hinserted).2 m rfl hlength).2.1⟩

end Message

end EventTree.Wire
