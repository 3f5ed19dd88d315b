import EventTree.Proofs.Wire.Locality

/-!
# Messages inside messages, cut out

A message inside another is read from the input around it, and whether it kept to its
length is only looked at between two of its fields. The reader that is defined here takes
no such liberty: it first cuts the message out and then reads the piece, which has an end
of its own. All other fields it reads as the decoder does, and it counts the depth in the
same way.

Both accept the same bytes and make the same message of them. A value that reaches past
the end of its message is a fault of the piece at once; in the decoder it leads to the
next look at the length, which then fails. So only the faults differ.
-/
namespace EventTree.Wire
open Number

section
variable {μ : Type}

/-- A message inside another, cut out and read by itself. -/
def readCut (depth : Nat)
    (field : μ → Nat → WireType → Bytes → Except DecodeFault (μ × Bytes)) (m : μ) (bytes : Bytes) :
    Except DecodeFault (μ × Bytes) :=
  if depth = 0 then fail .tooDeep
  else do
    let (payload, rest) ← readDelimited bytes
    let (m, _) ← readFields field 0 payload.length m payload
    return (m, rest)

end

def SentEvent.fieldCut (depth : Nat) (m : SentEvent) (tag : Nat) (wireType : WireType)
    (bytes : Bytes) : Except DecodeFault (SentEvent × Bytes) := do
  match tag with
  | 9 =>
    let (a, rest) ← inField "RawEvent.attributes" (typed .delimited wireType
      (readCut depth (Attribute.field (depth - 1)) {} bytes))
    return ({ m with attributes := m.attributes ++ [a] }, rest)
  | _ => field depth m tag wireType bytes

namespace Message

def fieldCut (depth : Nat) (m : Message) (tag : Nat) (wireType : WireType) (bytes : Bytes) :
    Except DecodeFault (Message × Bytes) := do
  match tag with
  | 5 =>
    let (q, rest) ← inField "Msg.query" (typed .delimited wireType
      (readCut depth (Query.field (depth - 1)) (m.query.getD {}) bytes))
    return ({ m with query := some q }, rest)
  | 6 =>
    let (e, rest) ← inField "Msg.events" (typed .delimited wireType
      (readCut depth (SentEvent.fieldCut (depth - 1)) {} bytes))
    return ({ m with events := m.events ++ [e] }, rest)
  | _ => field depth m tag wireType bytes

/-- The message that a decoder reads which cuts every message inside it out. -/
def decodeCut (bytes : Bytes) : Except DecodeFault Message :=
  (readFields (fieldCut depthLimit) 0 bytes.length {} bytes).map (·.1)

end Message

/-! ## One message inside another -/

section
variable {μ : Type} {field field' : μ → Nat → WireType → Bytes → Except DecodeFault (μ × Bytes)}

theorem readLength_le {bytes rest : Bytes} {length : Nat}
    (h : readLength bytes = .ok (length, rest)) : length ≤ rest.length := by
  unfold readLength at h
  split at h
  · cases h
  · split_ifs at h with hshort
    · cases h
    · cases h
      exact Nat.le_of_not_lt hshort

theorem readDelimited_eq_ok {bytes payload rest : Bytes} :
    readDelimited bytes = .ok (payload, rest) ↔ ∃ length whole,
      readLength bytes = .ok (length, whole) ∧ whole.take length = payload ∧
        whole.drop length = rest := by
  unfold readDelimited
  cases readLength bytes with
  | error fault => simp
  | ok r =>
    simp only [List.splitAt_eq, Except.ok.injEq, Prod.mk.injEq]
    constructor
    · rintro ⟨htake, hdrop⟩
      exact ⟨_, _, rfl, htake, hdrop⟩
    · rintro ⟨length, whole, rfl, htake, hdrop⟩
      exact ⟨htake, hdrop⟩

/-- What is read inside a message ends where the message does, or not at all. -/
theorem readMessage_eq_ok_iff (hfield : ∀ m tag wireType, Local (field m tag wireType))
    (depth : Nat) (m : μ) (bytes : Bytes) (r : μ × Bytes) :
    readMessage depth field m bytes = .ok r ↔ readCut depth field m bytes = .ok r := by
  obtain ⟨m', rest⟩ := r
  unfold readMessage readCut
  split_ifs
  · rfl
  simp only [bind_eq_ok]
  constructor
  · rintro ⟨⟨length, whole⟩, hlength, hfields⟩
    obtain ⟨hrest, taken, rfl, htaken⟩ := readFields_local hfield hfields
    have hle := readLength_le hlength
    rw [List.length_append] at hrest hle
    have hsize : taken.length = length := by omega
    have hpayload : readDelimited bytes = .ok (taken, rest) :=
      readDelimited_eq_ok.2 ⟨length, _, hlength, List.take_left' hsize, List.drop_left' hsize⟩
    have halone := htaken.read (Nat.le_refl _) []
    rw [List.append_nil] at halone
    exact ⟨_, hpayload, _, halone, rfl⟩
  · rintro ⟨⟨payload, behind⟩, hpayload, ⟨m'', left⟩, hfields, hr⟩
    cases hr
    obtain ⟨length, whole, hlength, rfl, rfl⟩ := readDelimited_eq_ok.1 hpayload
    obtain ⟨hend, taken, htake, htaken⟩ := readFields_local hfield hfields
    rw [List.length_eq_zero_iff.1 hend, List.append_nil] at htake
    subst htake
    have hwhole := htaken.read (List.length_take_le' ..) (whole.drop length)
    rw [List.length_drop, List.take_append_drop] at hwhole
    exact ⟨_, hlength, hwhole⟩

theorem readCut_local (depth : Nat) (m : μ) : Local (readCut depth field m) := by
  unfold readCut
  split_ifs
  · exact local_error _
  · have hpayload : ∀ payload : Bytes, Local fun rest : Bytes =>
        readFields field 0 payload.length m payload >>= fun (m, _) => pure (m, rest) := by
      intro payload
      cases readFields field 0 payload.length m payload with
      | error fault => exact local_error fault
      | ok r => exact local_pure r.1
    exact readDelimited_local.bind hpayload

theorem readMessage_local (hfield : ∀ m tag wireType, Local (field m tag wireType)) (depth : Nat)
    (m : μ) : Local (readMessage depth field m) :=
  (readCut_local depth m).of_ok_iff (readMessage_eq_ok_iff hfield depth m)

/-- Readers that accept the same fields accept the same sequences of fields. -/
theorem readFields_congr
    (h : ∀ m tag wireType bytes r, field m tag wireType bytes = .ok r ↔
      field' m tag wireType bytes = .ok r) (stop fuel : Nat) (m : μ) (bytes : Bytes)
    (r : μ × Bytes) :
    readFields field stop fuel m bytes = .ok r ↔ readFields field' stop fuel m bytes = .ok r := by
  induction fuel generalizing m bytes with
  | zero =>
    unfold readFields
    rfl
  | succ fuel ih =>
    rcases Nat.lt_trichotomy stop bytes.length with hmore | hstop | hover
    · simp only [readFields_more hmore, readField, bind_eq_ok, h, ih]
    · rw [readFields_stop hstop.symm, readFields_stop hstop.symm]
    · rw [readFields_over hover, readFields_over hover]

theorem readCut_congr
    (h : ∀ m tag wireType bytes r, field m tag wireType bytes = .ok r ↔
      field' m tag wireType bytes = .ok r) (depth : Nat) (m : μ) (bytes : Bytes) (r : μ × Bytes) :
    readCut depth field m bytes = .ok r ↔ readCut depth field' m bytes = .ok r := by
  unfold readCut
  split_ifs with hdepth
  · rfl
  · simp only [bind_eq_ok, readFields_congr h]

end

/-! ## The fields of each message -/

theorem textField_local (name : String) (wireType : WireType) : Local (textField name wireType) :=
  readText_local.typedField name .delimited wireType

theorem varintField_local (name : String) (wireType : WireType) :
    Local (varintField name wireType) :=
  readVarint_local.typedField name .varint wireType

theorem binary32Field_local (name : String) (wireType : WireType) :
    Local (binary32Field name wireType) :=
  ((readFixed_local 4).map fun n => Binary32.mk n.toUInt32).typedField name .fixed32 wireType

theorem binary64Field_local (name : String) (wireType : WireType) :
    Local (binary64Field name wireType) :=
  ((readFixed_local 8).map fun n => Binary64.mk n.toUInt64).typedField name .fixed64 wireType

/-- What holds of the readers of every kind of field: of texts, of numbers, of messages inside
and of fields that are passed over. -/
structure EveryKind {μ : Type} (depth tag : Nat) (w : WireType)
    (P : (Bytes → Except DecodeFault (μ × Bytes)) → Prop) : Prop where
  text (name : String) (f : String → μ) : P fun bytes => do
    let (s, rest) ← textField name w bytes
    return (f s, rest)
  varint (name : String) (f : Nat → μ) : P fun bytes => do
    let (n, rest) ← varintField name w bytes
    return (f n, rest)
  binary32 (name : String) (f : Binary32 → μ) : P fun bytes => do
    let (x, rest) ← binary32Field name w bytes
    return (f x, rest)
  binary64 (name : String) (f : Binary64 → μ) : P fun bytes => do
    let (x, rest) ← binary64Field name w bytes
    return (f x, rest)
  inner {ν : Type} {field : ν → Nat → WireType → Bytes → Except DecodeFault (ν × Bytes)}
      (hfield : ∀ m tag wireType, Local (field m tag wireType)) (start : ν) (name : String)
      (f : ν → μ) : P fun bytes => do
    let (m, rest) ← inField name (typed .delimited w (readMessage depth field start bytes))
    return (f m, rest)
  unknown (m : μ) : P (unknownField depth m tag w)

theorem everyKind_local {μ : Type} (depth tag : Nat) (w : WireType) :
    EveryKind depth tag w (@Local μ) where
  text name f := (textField_local name w).update f
  varint name f := (varintField_local name w).update f
  binary32 name f := (binary32Field_local name w).update f
  binary64 name f := (binary64Field_local name w).update f
  inner hfield start name f :=
    ((readMessage_local hfield depth start).typedField name .delimited w).update f
  unknown m := unknownField_local depth m tag w

section
variable {depth tag : Nat} {w : WireType}

theorem Attribute.field_everyKind {P : (Bytes → Except DecodeFault (Attribute × Bytes)) → Prop}
    (h : EveryKind depth tag w P) (m : Attribute) : P (field depth m tag w) := by
  unfold field
  split
  · exact h.text _ fun s => { m with key := s }
  · exact h.text _ fun s => { m with value := some s }
  · exact h.unknown m

theorem Attribute.field_local (depth : Nat) (m : Attribute) (tag : Nat) (w : WireType) :
    Local (field depth m tag w) :=
  field_everyKind (everyKind_local depth tag w) m

theorem Query.field_everyKind {P : (Bytes → Except DecodeFault (Query × Bytes)) → Prop}
    (h : EveryKind depth tag w P) (m : Query) : P (field depth m tag w) := by
  unfold field
  split
  · exact h.text _ fun s => { m with text := some s }
  · exact h.unknown m

theorem Query.field_local (depth : Nat) (m : Query) (tag : Nat) (w : WireType) :
    Local (field depth m tag w) :=
  field_everyKind (everyKind_local depth tag w) m

theorem SentEvent.field_everyKind {P : (Bytes → Except DecodeFault (SentEvent × Bytes)) → Prop}
    (h : EveryKind depth tag w P) (m : SentEvent) : P (field depth m tag w) := by
  unfold field
  split
  · exact h.varint _ fun n => { m with time := some (int64OfBits n) }
  · exact h.text _ fun s => { m with state := some s }
  · exact h.text _ fun s => { m with service := some s }
  · exact h.text _ fun s => { m with host := some s }
  · exact h.text _ fun s => { m with description := some s }
  · exact h.text _ fun s => { m with tags := m.tags ++ [s] }
  · exact h.binary32 _ fun x => { m with ttl := some x }
  · exact h.inner (Attribute.field_local (depth - 1)) {} _ fun a =>
      { m with attributes := m.attributes ++ [a] }
  · exact h.varint _ fun n => { m with timeMicros := some (int64OfBits n) }
  · exact h.varint _ fun n => { m with metricInt := some (unzigzag n) }
  · exact h.binary64 _ fun x => { m with metricDouble := some x }
  · exact h.binary32 _ fun x => { m with metricFloat := some x }
  · exact h.unknown m

theorem SentEvent.field_local (depth : Nat) (m : SentEvent) (tag : Nat) (w : WireType) :
    Local (field depth m tag w) :=
  field_everyKind (everyKind_local depth tag w) m

theorem Message.field_everyKind {P : (Bytes → Except DecodeFault (Message × Bytes)) → Prop}
    (h : EveryKind depth tag w P) (m : Message) : P (field depth m tag w) := by
  unfold field
  split
  · exact h.varint _ fun n => { m with ok := some (n != 0) }
  · exact h.text _ fun s => { m with error := some s }
  · exact h.inner (Query.field_local (depth - 1)) (m.query.getD {}) _ fun q =>
      { m with query := some q }
  · exact h.inner (SentEvent.field_local (depth - 1)) {} _ fun e =>
      { m with events := m.events ++ [e] }
  · exact h.unknown m

theorem Message.field_local (depth : Nat) (m : Message) (tag : Nat) (w : WireType) :
    Local (field depth m tag w) :=
  field_everyKind (everyKind_local depth tag w) m

end

theorem SentEvent.field_eq_ok_iff (depth : Nat) (m : SentEvent) (tag : Nat) (wireType : WireType)
    (bytes : Bytes) (r : SentEvent × Bytes) :
    field depth m tag wireType bytes = .ok r ↔ fieldCut depth m tag wireType bytes = .ok r := by
  unfold fieldCut
  split
  · have hattribute := readMessage_eq_ok_iff (Attribute.field_local (depth - 1)) depth {}
    simp only [field, bind_eq_ok, inField_eq_ok, typed_eq_ok, hattribute]
  · rfl

theorem Message.field_eq_ok_iff (depth : Nat) (m : Message) (tag : Nat) (wireType : WireType)
    (bytes : Bytes) (r : Message × Bytes) :
    field depth m tag wireType bytes = .ok r ↔ fieldCut depth m tag wireType bytes = .ok r := by
  unfold fieldCut
  split
  · have hquery := readMessage_eq_ok_iff (Query.field_local (depth - 1)) depth
    simp only [field, bind_eq_ok, inField_eq_ok, typed_eq_ok, hquery]
  · have hevent := readMessage_eq_ok_iff (SentEvent.field_local (depth - 1)) depth
    have hcut := readCut_congr (SentEvent.field_eq_ok_iff (depth - 1)) depth
    simp only [field, bind_eq_ok, inField_eq_ok, typed_eq_ok, hevent, hcut]
  · rfl

/-- Whatever bytes are read, they are read as if every message inside were cut out. -/
theorem Message.decode_as_cut_out (bytes : Bytes) (m : Message) :
    decode bytes = .ok m ↔ decodeCut bytes = .ok m := by
  have hfields := readFields_congr (field_eq_ok_iff depthLimit) 0 bytes.length {} bytes
  simp only [decode, merge, decodeCut, map_eq_ok, hfields]

end EventTree.Wire
