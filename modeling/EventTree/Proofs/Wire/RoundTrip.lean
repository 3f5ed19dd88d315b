import EventTree.Remote.Frame
import EventTree.Proofs.Wire.Locality
import EventTree.Proofs.Wire.Sizes

/-!
# Written messages are read back

A reader takes one written field after the other off the front of the bytes. `Reads`
says of a part of a message what it does to the value read so far, whatever stands
behind the part; parts are joined one behind the other, so a message is read like the
list of its fields, and a message inside another like any field.

Lengths are written in 64 bits. A part that is longer has none, so `Reads` leaves it
out; no other condition is put on a message.
-/
namespace EventTree.Wire
open Number

section
variable {μ α : Type}

/-- Reading `part` turns `m` into `m'` and nothing behind the part is touched. There may
be more fuel than bytes, since the bytes of a message inside another are counted with
those behind it. -/
def Reads (field : μ → Nat → WireType → Bytes → Except DecodeFault (μ × Bytes)) (m : μ)
    (part : Bytes) (m' : μ) : Prop :=
  part.length < 2 ^ 64 → ∀ stop fuel rest, stop ≤ rest.length → (part ++ rest).length ≤ fuel →
    ∃ left, rest.length ≤ left ∧
      readFields field stop fuel m (part ++ rest) = readFields field stop left m' rest

variable {field : μ → Nat → WireType → Bytes → Except DecodeFault (μ × Bytes)}

theorem Reads.nil (m : μ) : Reads field m [] m := by
  intro _ stop fuel rest _ hfuel
  exact ⟨fuel, hfuel, rfl⟩

theorem Reads.append {m m' m'' : μ} {part part' : Bytes} (h : Reads field m part m')
    (h' : Reads field m' part' m'') : Reads field m (part ++ part') m'' := by
  intro hlength stop fuel rest hstop hfuel
  rw [List.length_append] at hlength
  rw [List.append_assoc] at hfuel ⊢
  have hstop' : stop ≤ (part' ++ rest).length := by
    rw [List.length_append]
    omega
  obtain ⟨middle, hmiddle, heq⟩ := h (by omega) stop fuel (part' ++ rest) hstop' hfuel
  obtain ⟨left, hleft, heq'⟩ := h' (by omega) stop middle rest hstop hmiddle
  exact ⟨left, hleft, heq.trans heq'⟩

/-- One field is read by its key and the reader of its value. -/
theorem Reads.one {m m' : μ} {tag : Nat} {w : WireType} {value : Bytes}
    (htag : 0 < tag ∧ tag < 2 ^ 29)
    (h : value.length < 2 ^ 64 → ∀ rest, field m tag w (value ++ rest) = .ok (m', rest)) :
    Reads field m (key tag w ++ value) m' := by
  intro hlength stop fuel rest hstop hfuel
  rw [List.append_assoc] at hfuel ⊢
  rw [List.length_append] at hlength
  have hkey := readKey_key (Nat.ne_of_gt htag.1) htag.2 w (value ++ rest)
  have hnonempty : 0 < (key tag w).length := by
    rw [key, varint, varintIn]
    split <;> exact Nat.succ_pos _
  have hmore : stop < (key tag w ++ (value ++ rest)).length := by
    simp only [List.length_append]
    omega
  obtain ⟨left, rfl⟩ : ∃ left, fuel = left + 1 := ⟨fuel - 1, by omega⟩
  refine ⟨left, ?_, ?_⟩
  · simp only [List.length_append] at hfuel
    omega
  · rw [readFields.eq_def]
    dsimp only
    rw [if_neg (Nat.not_lt.2 (Nat.le_of_lt hmore)), if_neg (Nat.ne_of_gt hmore), hkey]
    simp only [bind, Except.bind]
    rw [h (by omega) rest]

/-- A field that may be left out; `m'` is the message by what the field holds. -/
theorem Reads.option (tag : Nat) (htag : 0 < tag ∧ tag < 2 ^ 29) (m' : Option α → μ)
    {w : WireType} {value : α → Bytes}
    (h : ∀ a, (value a).length < 2 ^ 64 → ∀ rest,
      field (m' none) tag w (value a ++ rest) = .ok (m' (some a), rest)) (o : Option α) :
    Reads field (m' none) (fieldOf tag w value o) (m' o) := by
  cases o with
  | none => exact .nil _
  | some a => exact .one htag (h a)

/-- A field that is written once for each of its values. -/
theorem Reads.repeated (tag : Nat) (htag : 0 < tag ∧ tag < 2 ^ 29) (m' : List α → μ)
    {w : WireType} {value : α → Bytes}
    (h : ∀ done a, (value a).length < 2 ^ 64 → ∀ rest,
      field (m' done) tag w (value a ++ rest) = .ok (m' (done ++ [a]), rest)) (as : List α) :
    Reads field (m' []) (as.flatMap fun a => fieldOf tag w value (some a)) (m' as) := by
  have hfrom : ∀ done, Reads field (m' done)
      (as.flatMap fun a => fieldOf tag w value (some a)) (m' (done ++ as)) := by
    induction as with
    | nil =>
      intro done
      rw [List.append_nil]
      exact .nil _
    | cons a as ih =>
      intro done
      rw [List.flatMap_cons, List.append_cons]
      exact (Reads.one htag (h done a)).append (ih _)
  exact hfrom []

/-- A message inside another ends where its length says. -/
theorem Reads.readMessage {m m' : μ} {body : Bytes} (h : Reads field m body m')
    (hlength : body.length < 2 ^ 64) {depth : Nat} (hdepth : depth ≠ 0) (rest : Bytes) :
    readMessage depth field m (withLength body ++ rest) = .ok (m', rest) := by
  have hstop : (body ++ rest).length - body.length = rest.length := by
    rw [List.length_append]
    omega
  obtain ⟨left, -, heq⟩ := h hlength rest.length (body ++ rest).length rest
    (Nat.le_refl _) (Nat.le_refl _)
  rw [Wire.readMessage, if_neg hdepth, readLength_withLength hlength]
  change readFields field ((body ++ rest).length - body.length) _ m (body ++ rest) = _
  rw [hstop, heq, readFields_stop rfl]

end

/-! ## Fields by their kind -/

theorem textField_textBytes (name : String) {s : String} (h : (textBytes s).length < 2 ^ 64)
    (rest : Bytes) : textField name .delimited (textBytes s ++ rest) = .ok (s, rest) := by
  have hpayload : (Text.encode s).length < 2 ^ 64 := by
    rw [textBytes, length_withLength] at h
    omega
  rw [textField, typed, if_pos rfl, readText_textBytes hpayload]
  rfl

theorem varintField_varint (name : String) {n : Nat} (h : n < 2 ^ 64) (rest : Bytes) :
    varintField name .varint (varint n ++ rest) = .ok (n, rest) := by
  rw [varintField, typed, if_pos rfl, readVarint_varint h]
  rfl

theorem binary32Field_littleEndian (name : String) (x : Binary32) (rest : Bytes) :
    binary32Field name .fixed32 (littleEndian 4 x.bits.toNat ++ rest) = .ok (x, rest) := by
  have hbits : x.bits.toNat < 256 ^ 4 := x.bits.toNat_lt
  rw [binary32Field, typed, if_pos rfl, readFixed_littleEndian hbits]
  simp [inField, Except.map, Except.mapError]

theorem binary64Field_littleEndian (name : String) (x : Binary64) (rest : Bytes) :
    binary64Field name .fixed64 (littleEndian 8 x.bits.toNat ++ rest) = .ok (x, rest) := by
  have hbits : x.bits.toNat < 256 ^ 8 := x.bits.toNat_lt
  rw [binary64Field, typed, if_pos rfl, readFixed_littleEndian hbits]
  simp [inField, Except.map, Except.mapError]

section
variable {μ α : Type} {field : μ → Nat → WireType → Bytes → Except DecodeFault (μ × Bytes)}

/-! A field of a kind that may be left out, in a message whose reader takes it as one of
that kind. -/

theorem Reads.text (tag : Nat) (htag : 0 < tag ∧ tag < 2 ^ 29) (m' : Option String → μ)
    {name : String}
    (hfield : ∀ bytes, field (m' none) tag .delimited bytes = do
      let (s, rest) ← textField name .delimited bytes
      return (m' (some s), rest)) (o : Option String) :
    Reads field (m' none) (putText tag o) (m' o) := by
  refine Reads.option tag htag m' ?_ o
  intro s h rest
  rw [hfield, textField_textBytes name h]
  rfl

/-- The code of a value is a number of 64 bits and tells the value. -/
theorem Reads.varint (tag : Nat) (htag : 0 < tag ∧ tag < 2 ^ 29) (m' : Option α → μ)
    {name : String} {code : α → Nat} (value : Nat → α) (hcode : ∀ a, code a < 2 ^ 64)
    (hvalue : ∀ a, value (code a) = a)
    (hfield : ∀ bytes, field (m' none) tag .varint bytes = do
      let (n, rest) ← varintField name .varint bytes
      return (m' (some (value n)), rest)) (o : Option α) :
    Reads field (m' none) (fieldOf tag .varint (fun a => Wire.varint (code a)) o) (m' o) := by
  refine Reads.option tag htag m' ?_ o
  intro a _ rest
  rw [hfield, varintField_varint name (hcode a)]
  simp only [bind, Except.bind, pure, Except.pure, hvalue]

theorem Reads.binary32 (tag : Nat) (htag : 0 < tag ∧ tag < 2 ^ 29) (m' : Option Binary32 → μ)
    {name : String}
    (hfield : ∀ bytes, field (m' none) tag .fixed32 bytes = do
      let (x, rest) ← binary32Field name .fixed32 bytes
      return (m' (some x), rest)) (o : Option Binary32) :
    Reads field (m' none) (putBinary32 tag o) (m' o) := by
  refine Reads.option tag htag m' ?_ o
  intro x _ rest
  rw [hfield, binary32Field_littleEndian]
  rfl

end

/-! ## Messages -/

theorem Attribute.reads_encode (depth : Nat) (a : Attribute) :
    Reads (field depth) {} a.encode a := by
  have hkey : Reads (field depth) {} (putText 1 (some a.key)) { key := a.key } := by
    refine Reads.one (by decide) ?_
    intro h rest
    rw [field, textField_textBytes _ h]
    rfl
  have hvalue : Reads (field depth) { key := a.key } (putText 2 a.value) a :=
    Reads.text 2 (by decide) (fun o => ({ key := a.key, value := o } : Attribute))
      (fun _ => rfl) a.value
  exact hkey.append hvalue

/-- What is known of an event when its fields have been read up to a tag. -/
def SentEvent.upTo (e : SentEvent) (tag : Nat) : SentEvent where
  time := if 1 ≤ tag then e.time else none
  state := if 2 ≤ tag then e.state else none
  service := if 3 ≤ tag then e.service else none
  host := if 4 ≤ tag then e.host else none
  description := if 5 ≤ tag then e.description else none
  tags := if 7 ≤ tag then e.tags else []
  ttl := if 8 ≤ tag then e.ttl else none
  attributes := if 9 ≤ tag then e.attributes else []
  timeMicros := if 10 ≤ tag then e.timeMicros else none
  metricInt := if 13 ≤ tag then e.metricInt else none
  metricDouble := if 14 ≤ tag then e.metricDouble else none
  metricFloat := if 15 ≤ tag then e.metricFloat else none

theorem SentEvent.reads_encode {depth : Nat} (hdepth : depth ≠ 0) (e : SentEvent) :
    Reads (field depth) {} e.encode e := by
  have htime : Reads (field depth) (e.upTo 0) (putInt64 1 e.time) (e.upTo 1) :=
    Reads.varint 1 (by decide) (fun o => { e.upTo 0 with time := o }) int64OfBits
      int64Bits_lt int64OfBits_int64Bits (fun _ => rfl) e.time
  have hstate : Reads (field depth) (e.upTo 1) (putText 2 e.state) (e.upTo 2) :=
    Reads.text 2 (by decide) (fun o => { e.upTo 1 with state := o }) (fun _ => rfl) e.state
  have hservice : Reads (field depth) (e.upTo 2) (putText 3 e.service) (e.upTo 3) :=
    Reads.text 3 (by decide) (fun o => { e.upTo 2 with service := o }) (fun _ => rfl) e.service
  have hhost : Reads (field depth) (e.upTo 3) (putText 4 e.host) (e.upTo 4) :=
    Reads.text 4 (by decide) (fun o => { e.upTo 3 with host := o }) (fun _ => rfl) e.host
  have hdescription : Reads (field depth) (e.upTo 4) (putText 5 e.description) (e.upTo 5) :=
    Reads.text 5 (by decide) (fun o => { e.upTo 4 with description := o }) (fun _ => rfl)
      e.description
  have htags : Reads (field depth) (e.upTo 5) (e.tags.flatMap fun s => putText 7 (some s))
      (e.upTo 7) := by
    refine Reads.repeated 7 (by decide) (fun l => { e.upTo 5 with tags := l }) ?_ e.tags
    intro done s h rest
    rw [field, textField_textBytes _ h]
    rfl
  have httl : Reads (field depth) (e.upTo 7) (putBinary32 8 e.ttl) (e.upTo 8) :=
    Reads.binary32 8 (by decide) (fun o => { e.upTo 7 with ttl := o }) (fun _ => rfl) e.ttl
  have hattributes : Reads (field depth) (e.upTo 8)
      (e.attributes.flatMap fun a => putMessage 9 Attribute.encode (some a)) (e.upTo 9) := by
    refine Reads.repeated 9 (by decide) (fun l => { e.upTo 8 with attributes := l }) ?_
      e.attributes
    intro done a h rest
    rw [length_withLength] at h
    rw [field, typed, if_pos rfl,
      (Attribute.reads_encode (depth - 1) a).readMessage (by omega) hdepth]
    rfl
  have hmicros : Reads (field depth) (e.upTo 9) (putInt64 10 e.timeMicros) (e.upTo 10) :=
    Reads.varint 10 (by decide) (fun o => { e.upTo 9 with timeMicros := o }) int64OfBits
      int64Bits_lt int64OfBits_int64Bits (fun _ => rfl) e.timeMicros
  have hint : Reads (field depth) (e.upTo 10) (putZigzag 13 e.metricInt) (e.upTo 13) :=
    Reads.varint 13 (by decide) (fun o => { e.upTo 10 with metricInt := o }) unzigzag
      zigzag_lt unzigzag_zigzag (fun _ => rfl) e.metricInt
  have hdouble : Reads (field depth) (e.upTo 13) (putBinary64 14 e.metricDouble)
      (e.upTo 14) := by
    refine Reads.option 14 (by decide) (fun o => { e.upTo 13 with metricDouble := o }) ?_
      e.metricDouble
    intro x _ rest
    rw [field, binary64Field_littleEndian]
    rfl
  have hfloat : Reads (field depth) (e.upTo 14) (putBinary32 15 e.metricFloat) (e.upTo 15) :=
    Reads.binary32 15 (by decide) (fun o => { e.upTo 14 with metricFloat := o })
      (fun _ => rfl) e.metricFloat
  exact ((((((((((htime.append hstate).append hservice).append hhost).append hdescription).append
    htags).append httl).append hattributes).append hmicros).append hint).append hdouble).append
    hfloat

theorem Query.reads_encode (depth : Nat) (q : Query) : Reads (field depth) {} q.encode q :=
  Reads.text 1 (by decide) (fun o => ({ text := o } : Query)) (fun _ => rfl) q.text

/-- Queries are read into one another, so that of a message must find none before it. -/
theorem Message.reads_encode {depth : Nat} (hdepth : 1 < depth) (m : Message) :
    Reads (field depth) {} m.encode m := by
  have hok : Reads (field depth) {}
      (fieldOf 2 .varint (fun ok => varint (if ok then 1 else 0)) m.ok) { ok := m.ok } := by
    have hcode : ∀ ok : Bool, (if ok then 1 else 0) < 2 ^ 64 := by decide
    have hvalue : ∀ ok : Bool, ((if ok then 1 else 0 : Nat) != 0) = ok := by decide
    exact Reads.varint 2 (by decide) (fun o => ({ ok := o } : Message)) (· != 0)
      hcode hvalue (fun _ => rfl) m.ok
  have herror : Reads (field depth) { ok := m.ok } (putText 3 m.error)
      { ok := m.ok, error := m.error } :=
    Reads.text 3 (by decide) (fun o => ({ ok := m.ok, error := o } : Message))
      (fun _ => rfl) m.error
  have hquery : Reads (field depth) { ok := m.ok, error := m.error }
      (putMessage 5 Query.encode m.query)
      { ok := m.ok, error := m.error, query := m.query } := by
    refine Reads.option 5 (by decide)
      (fun o => ({ ok := m.ok, error := m.error, query := o } : Message)) ?_ m.query
    intro q h rest
    rw [length_withLength] at h
    rw [field, typed, if_pos rfl, Option.getD_none,
      (Query.reads_encode (depth - 1) q).readMessage (by omega) (by omega)]
    rfl
  have hevents : Reads (field depth) { ok := m.ok, error := m.error, query := m.query }
      (m.events.flatMap fun e => putMessage 6 SentEvent.encode (some e)) m := by
    refine Reads.repeated 6 (by decide) (fun l => { m with events := l }) ?_ m.events
    intro done e h rest
    rw [length_withLength] at h
    rw [field, typed, if_pos rfl,
      (SentEvent.reads_encode (by omega) e).readMessage (by omega) (by omega)]
    rfl
  exact ((hok.append herror).append hquery).append hevents

theorem Message.decode_of_reads {m : Message} {bytes : Bytes}
    (h : Reads (field depthLimit) {} bytes m) (hlength : bytes.length < 2 ^ 64) :
    decode bytes = .ok m := by
  obtain ⟨left, -, heq⟩ := h hlength 0 bytes.length [] (Nat.le_refl _) (by simp)
  rw [List.append_nil] at heq
  have hend : readFields (field depthLimit) 0 left m [] = .ok (m, []) :=
    readFields_stop List.length_nil left
  rw [decode, merge, heq, hend]
  rfl

/-- Every message that can be written is read back as it was, and every length in front
of it or inside it, which is known before, is the number of the bytes written behind. -/
theorem Message.decode_encode (m : Message) (hlength : m.encode.length < 2 ^ 64) :
    decode m.encode = .ok m ∧ m.encode.length = m.size ∧
    (∀ q, m.query = some q → Encloses m.encode 5 q.size q.encode) ∧
    (∀ e ∈ m.events, Encloses m.encode 6 e.size e.encode ∧
      ∀ a ∈ e.attributes, Encloses e.encode 9 a.size a.encode) ∧
    (m.size < 2 ^ 32 → m.frame = .ok (bigEndian32 m.size ++ m.encode)) := by
  have hdepth : 1 < depthLimit := by decide
  have hsize : m.encode.length = m.size := m.sized_encode hlength
  refine ⟨decode_of_reads (reads_encode hdepth m) hlength, hsize, ?_, ?_, ?_⟩
  · intro q hq
    exact encloses_query hlength hq
  · intro e he
    have hevent := encloses_event hlength he
    have hinner := hevent.2.length_le
    simp only [List.length_append] at hinner
    refine ⟨hevent, ?_⟩
    intro a ha
    exact SentEvent.encloses_attribute (by omega) ha
  · intro hfits
    rw [← hsize] at hfits ⊢
    exact if_pos hfits

/-- Parts that are there but empty, and numbers at the ends of their ranges. -/
theorem Message.decode_encode_extremes :
    let m : Message :=
      { ok := some false
        error := some ""
        query := some {}
        events :=
          [{ time := some Int64.minValue
             service := some ""
             tags := ["", "é"]
             attributes := [{}, { value := some "" }]
             timeMicros := some (-1)
             metricInt := some Int64.minValue
             metricDouble := some ⟨0x7FF8000000000001⟩
             metricFloat := some ⟨0x80000000⟩ }, {}] }
    m.encode.length < 2 ^ 64 ∧ decode m.encode = .ok m ∧ m.encode.length = 75 := by
  intro m
  have hlength : m.encode.length < 2 ^ 64 := by decide +kernel
  have hsize : m.size = 75 := by decide +kernel
  obtain ⟨hdecode, hsized, -⟩ := decode_encode m hlength
  exact ⟨hlength, hdecode, hsized.trans hsize⟩

end EventTree.Wire
