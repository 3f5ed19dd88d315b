import EventTree.Proofs.Remote.Framing
import EventTree.Proofs.Wire.RoundTrip

/-!
# A stream of frames

Frames stand one behind the other without a mark between them, so a reader is right
about where a frame begins only if it took all of the frame before and nothing else.
A reading that got to the end of a frame has done so, whether or not there was a message
in it, and one that refused a length has taken the length alone. Of the bytes behind it
a reading knows nothing.

A stream that ends inside a frame is not covered: what is left of it is lost.
-/
namespace EventTree
open Wire

/-- The frames of messages one behind the other, unless one of them has none. -/
def writeMessages : List Message → Except ExchangeFault Bytes
  | [] => .ok []
  | m :: ms => do
    let frame ← m.frame
    let frames ← writeMessages ms
    return frame ++ frames

/-- The results of `count` readings, each from where the one before it stopped, and what
they left. -/
def readInTurn (limit : Nat) :
    (count : Nat) → Bytes → List (Except ExchangeFault Message) × Bytes
  | 0, bytes => ([], bytes)
  | count + 1, bytes =>
    let (result, rest) := readMessage limit bytes
    let (results, rest) := readInTurn limit count rest
    (result :: results, rest)

/-- The results of a reading that got to the end of a frame. -/
inductive OfFrame : Except ExchangeFault Message → Prop where
  | message (m : Message) : OfFrame (.ok m)
  | unreadable (fault : DecodeFault) : OfFrame (.error (.decode fault))

/-- A reading takes the first `count` bytes, and they decide on its result. -/
structure TakesFirst (limit count : Nat) (bytes : Bytes) : Prop where
  enough : count ≤ bytes.length
  rest : (readMessage limit bytes).2 = bytes.drop count
  alone : ∀ other,
    readMessage limit (bytes.take count ++ other) = ((readMessage limit bytes).1, other)

/-! ## One reading -/

theorem takeRecorded_append {bytes : Bytes} {count : Nat} (h : bytes.length = count)
    (rest : Bytes) : takeRecorded (bytes ++ rest) count = (.ok (some bytes), rest) := by
  have henough : ¬(bytes ++ rest).length < count := by
    rw [List.length_append]
    omega
  rw [takeRecorded, if_neg henough, List.take_left' h, List.drop_left' h]

theorem takeRecorded_short {bytes : Bytes} {count : Nat} (h : bytes.length < count) :
    takeRecorded bytes count = (.ok none, []) := if_pos h

section
variable {limit : Nat} {head body : Bytes}

/-- A frame is read alike whatever stands behind it. -/
theorem readMessage_frame (hhead : head.length = 4) (hbody : body.length = ofBigEndian head)
    (hlimit : body.length ≤ limit) (rest : Bytes) :
    readMessage limit (head ++ body ++ rest) =
      ((Message.decode body).mapError .decode, rest) := by
  have hallowed : ¬limit < ofBigEndian head := by omega
  rw [readMessage, takeMessage, List.append_assoc, takeRecorded_append hhead]
  dsimp only
  rw [if_neg hallowed, takeRecorded_append hbody]

theorem readMessage_tooLarge (hhead : head.length = 4) (hlimit : limit < ofBigEndian head)
    (rest : Bytes) :
    readMessage limit (head ++ rest) = (.error (.frameTooLarge (ofBigEndian head)), rest) := by
  rw [readMessage, takeMessage, takeRecorded_append hhead]
  exact if_pos hlimit

/-- Of every stream a reading takes a frame, or a length above the limit, or else all
there is. -/
theorem readMessage_cases (limit : Nat) (bytes : Bytes) :
    (∃ head body rest, bytes = head ++ body ++ rest ∧ head.length = 4 ∧
      body.length = ofBigEndian head ∧ body.length ≤ limit) ∨
    (∃ head rest, bytes = head ++ rest ∧ head.length = 4 ∧ limit < ofBigEndian head) ∨
    ∃ reason, readMessage limit bytes = (.error (.io reason), []) := by
  by_cases hshort : bytes.length < 4
  · refine .inr (.inr ⟨"unexpected end of file", ?_⟩)
    rw [readMessage, takeMessage, takeRecorded_short hshort]
  obtain ⟨head, tail, rfl, hhead⟩ : ∃ head tail, bytes = head ++ tail ∧ head.length = 4 :=
    ⟨bytes.take 4, bytes.drop 4, (List.take_append_drop 4 bytes).symm,
      List.length_take_of_le (Nat.not_lt.1 hshort)⟩
  by_cases hlimit : limit < ofBigEndian head
  · exact .inr (.inl ⟨head, tail, rfl, hhead, hlimit⟩)
  by_cases hcut : tail.length < ofBigEndian head
  · refine .inr (.inr ⟨"early eof", ?_⟩)
    rw [readMessage, takeMessage, takeRecorded_append hhead]
    dsimp only
    rw [if_neg hlimit, takeRecorded_short hcut]
  · have hbody : (tail.take (ofBigEndian head)).length = ofBigEndian head :=
      List.length_take_of_le (Nat.not_lt.1 hcut)
    refine .inl ⟨head, tail.take (ofBigEndian head), tail.drop (ofBigEndian head), ?_, hhead,
      hbody, by omega⟩
    rw [List.append_assoc, List.take_append_drop]

end

/-! ## What a result says of the bytes -/

theorem takesFirst_append {limit : Nat} {taken : Bytes} {result : Except ExchangeFault Message}
    (h : ∀ other, readMessage limit (taken ++ other) = (result, other)) (rest : Bytes) :
    TakesFirst limit taken.length (taken ++ rest) where
  enough := by
    rw [List.length_append]
    exact Nat.le_add_right _ _
  rest := by rw [h, List.drop_left]
  alone := by
    intro other
    rw [List.take_left, h, h]

theorem ofFrame_decoded (result : Except DecodeFault Message) :
    OfFrame (result.mapError .decode) := by
  cases result with
  | ok m => exact .message m
  | error fault => exact .unreadable fault

section
variable {limit : Nat} {bytes : Bytes}

theorem takesFirst_of_ofFrame (h : OfFrame (readMessage limit bytes).1) :
    ofBigEndian (bytes.take 4) ≤ limit ∧
      TakesFirst limit (4 + ofBigEndian (bytes.take 4)) bytes := by
  rcases readMessage_cases limit bytes with ⟨head, body, rest, rfl, hhead, hbody, hlimit⟩ |
    ⟨head, rest, rfl, hhead, hlimit⟩ | ⟨reason, hio⟩
  · have htaken : (head ++ body).length = 4 + ofBigEndian head := by
      rw [List.length_append, hhead, hbody]
    have htakes := takesFirst_append (readMessage_frame hhead hbody hlimit) rest
    rw [htaken] at htakes
    rw [List.append_assoc, List.take_left' hhead, ← List.append_assoc]
    exact ⟨hbody ▸ hlimit, htakes⟩
  · rw [readMessage_tooLarge hhead hlimit] at h
    cases h
  · rw [hio] at h
    cases h

theorem takesFirst_of_tooLarge {n : Nat}
    (h : (readMessage limit bytes).1 = .error (.frameTooLarge n)) :
    limit < ofBigEndian (bytes.take 4) ∧ n = ofBigEndian (bytes.take 4) ∧
      TakesFirst limit 4 bytes := by
  rcases readMessage_cases limit bytes with ⟨head, body, rest, rfl, hhead, hbody, hlimit⟩ |
    ⟨head, rest, rfl, hhead, hlimit⟩ | ⟨reason, hio⟩
  · have hresult := ofFrame_decoded (Message.decode body)
    rw [readMessage_frame hhead hbody hlimit] at h
    dsimp only at h
    rw [h] at hresult
    cases hresult
  · have htakes := takesFirst_append (readMessage_tooLarge hhead hlimit) rest
    rw [hhead] at htakes
    rw [readMessage_tooLarge hhead hlimit] at h
    cases h
    rw [List.take_left' hhead]
    exact ⟨hlimit, rfl, htakes⟩
  · rw [hio] at h
    cases h

theorem readMessage_tooLarge_iff (hfour : 4 ≤ bytes.length) (n : Nat) :
    (readMessage limit bytes).1 = .error (.frameTooLarge n) ↔
      limit < ofBigEndian (bytes.take 4) ∧ n = ofBigEndian (bytes.take 4) := by
  constructor
  · intro h
    obtain ⟨hlimit, hn, -⟩ := takesFirst_of_tooLarge h
    exact ⟨hlimit, hn⟩
  · rintro ⟨hlimit, rfl⟩
    have hread := readMessage_tooLarge (List.length_take_of_le hfour) hlimit (bytes.drop 4)
    rw [List.take_append_drop] at hread
    rw [hread]

end

/-! ## Many readings -/

/-- What is written as one frame is read back, and the next reading begins behind it. -/
theorem frame_read_back {limit : Nat} {m : Message} (hlimit : m.encode.length ≤ limit)
    (hfits : m.encode.length < 2 ^ 32) :
    ∃ frame, m.frame = .ok frame ∧
      ∀ rest, readMessage limit (frame ++ rest) = (.ok m, rest) := by
  refine ⟨bigEndian32 m.encode.length ++ m.encode, if_pos hfits, ?_⟩
  intro rest
  have hhead := ofBigEndian_bigEndian32 hfits
  have hdecode : Message.decode m.encode = .ok m :=
    Message.decode_of_reads (Message.reads_encode (by decide) m) (by omega)
  rw [readMessage_frame (length_bigEndian32 _) hhead.symm hlimit, hdecode]
  rfl

theorem messages_read_back {limit : Nat} {ms : List Message}
    (h : ∀ m ∈ ms, m.encode.length ≤ limit ∧ m.encode.length < 2 ^ 32) (rest : Bytes) :
    ∃ stream, writeMessages ms = .ok stream ∧
      readInTurn limit ms.length (stream ++ rest) = (ms.map .ok, rest) := by
  induction ms with
  | nil => exact ⟨[], rfl, rfl⟩
  | cons m ms ih =>
    obtain ⟨hm, hms⟩ := List.forall_mem_cons.1 h
    obtain ⟨frame, hframe, hread⟩ := frame_read_back hm.1 hm.2
    obtain ⟨frames, hframes, hreads⟩ := ih hms
    refine ⟨frame ++ frames, ?_, ?_⟩
    · rw [writeMessages, hframe, hframes]
      rfl
    · rw [List.append_assoc, List.length_cons, readInTurn, hread]
      dsimp only
      rw [hreads]
      rfl

/-- Messages written one behind the other are read back one by one, whatever follows them.
Of any stream a reading takes one frame with the length that its first bytes say, or those
alone if they say too much, and nothing it did not take counts. -/
theorem frames_split_stream (limit : Nat) :
    (∀ ms rest, (∀ m ∈ ms, m.encode.length ≤ limit ∧ m.encode.length < 2 ^ 32) →
      ∃ stream, writeMessages ms = .ok stream ∧
        readInTurn limit ms.length (stream ++ rest) = (ms.map .ok, rest)) ∧
    ∀ bytes,
      let length := ofBigEndian (bytes.take 4)
      let result := (readMessage limit bytes).1
      (OfFrame result → length ≤ limit ∧ TakesFirst limit (4 + length) bytes) ∧
      (4 ≤ bytes.length →
        ∀ n, result = .error (.frameTooLarge n) ↔ limit < length ∧ n = length) ∧
      ∀ n, result = .error (.frameTooLarge n) → TakesFirst limit 4 bytes := by
  refine ⟨fun ms rest h => messages_read_back h rest, ?_⟩
  intro bytes length result
  refine ⟨takesFirst_of_ofFrame, readMessage_tooLarge_iff, ?_⟩
  intro n hresult
  exact (takesFirst_of_tooLarge hresult).2.2

/-- A message without bytes and one as long as the limit, with a frame behind them that
cannot be read and a length above the limit behind that. -/
theorem frames_split_stream_to_refused :
    let ms : List Message := [{}, { ok := some true }]
    let refused : Bytes := [0, 0, 0, 3, 0x10]
    let unreadable : Bytes := [0, 0, 0, 1, 0x0F] ++ refused
    (∃ stream, writeMessages ms = .ok stream ∧
      readInTurn 2 2 (stream ++ unreadable) = (ms.map .ok, unreadable)) ∧
    (∀ other, ∃ fault,
      readMessage 2 (unreadable.take 5 ++ other) = (.error (.decode fault), other)) ∧
    (readMessage 2 unreadable).2 = refused ∧
    readMessage 2 refused = (.error (.frameTooLarge 3), [0x10]) := by
  intro ms refused unreadable
  have hms : ∀ m ∈ ms, m.encode.length ≤ 2 ∧ m.encode.length < 2 ^ 32 := by decide +kernel
  obtain ⟨hwritten, hread⟩ := frames_split_stream 2
  obtain ⟨hframe, -, -⟩ := hread unreadable
  obtain ⟨-, hlarge, hlength⟩ := hread refused
  obtain ⟨fault, hfault⟩ : ∃ fault, (readMessage 2 unreadable).1 = .error (.decode fault) :=
    ⟨_, rfl⟩
  obtain ⟨-, htakes⟩ := hframe (hfault ▸ .unreadable fault)
  have hrefused := (hlarge (by decide) 3).2 (by decide)
  refine ⟨hwritten ms unreadable hms, ?_, htakes.rest, ?_⟩
  · intro other
    exact ⟨fault, hfault ▸ htakes.alone other⟩
  · exact Prod.ext hrefused (hlength 3 hrefused).rest

end EventTree
