import EventTree.Proofs.Wire.UnknownFields

/-!
# Bytes one behind the other

A message has no end of its own: where bytes that are a message are followed by others, the
reader goes on, and reads the later fields into the message that it has. What it makes of
all the bytes can therefore be told from the two messages alone. Of a field that occurs once
the later value stays, events collect, and a later query is read into an earlier one.

No field is read in another way because of the fields before it. Where reading goes wrong
behind the first message, it does so for the same reason as if nothing stood there.
-/
namespace EventTree.Wire

/-! ## Reading on -/

section
variable {μ : Type} {field : μ → Nat → WireType → Bytes → Except DecodeFault (μ × Bytes)}

/-- Any fuel that lasts for the bytes does, also for a reading that fails. -/
theorem readFields_fuel (hfield : ∀ m tag w, Local (field m tag w)) {stop fuel fuel' : Nat}
    {m : μ} {bytes : Bytes} (h : bytes.length ≤ fuel) (h' : bytes.length ≤ fuel') :
    readFields field stop fuel m bytes = readFields field stop fuel' m bytes := by
  induction fuel generalizing fuel' m bytes with
  | zero =>
    rcases Nat.eq_zero_or_pos stop with rfl | hstop
    · rw [readFields_stop (by omega), readFields_stop (by omega)]
    · rw [readFields_over (by omega), readFields_over (by omega)]
  | succ fuel ih =>
    rcases Nat.lt_trichotomy stop bytes.length with hmore | hstop | hover
    · obtain ⟨fuel', rfl⟩ : ∃ less, fuel' = less + 1 := ⟨fuel' - 1, by omega⟩
      rw [readFields_more hmore, readFields_more hmore]
      cases hone : readField field m bytes with
      | error fault => rfl
      | ok r =>
        obtain ⟨taken, rfl, htaken⟩ := readField_local hfield m _ _ _ hone
        have hpos := htaken.readField_pos
        rw [List.length_append] at h h'
        exact ih (by omega) (by omega)
    · rw [readFields_stop hstop.symm, readFields_stop hstop.symm]
    · rw [readFields_over hover, readFields_over hover]

/-- Behind the fields of `taken` reading goes on as if it began there, with what it has. -/
theorem FieldRun.resume (hfield : ∀ m tag w, Local (field m tag w)) {m m' : μ} {taken : Bytes}
    (h : FieldRun field m taken m') (rest : Bytes) {fuel : Nat}
    (hfuel : (taken ++ rest).length ≤ fuel) :
    readFields field 0 fuel m (taken ++ rest) = readFields field 0 rest.length m' rest := by
  induction h generalizing fuel with
  | nil m => exact readFields_fuel hfield hfuel (Nat.le_refl _)
  | @cons m m' m'' part taken hpart _ ih =>
    have hpos := hpart.readField_pos
    rw [List.append_assoc] at hfuel ⊢
    rw [List.length_append] at hfuel
    obtain ⟨less, rfl⟩ : ∃ less, fuel = less + 1 := ⟨fuel - 1, by omega⟩
    have hmore : 0 < (part ++ (taken ++ rest)).length := by
      rw [List.length_append]
      omega
    rw [readFields_more hmore, hpart]
    exact ih (by omega)

/-! ## Reading into a message that is there already -/

/-- What a reader makes of `f m` is `f` of what it makes of `m`, faults and all. -/
def Carries (f : μ → μ)
    (field : μ → Nat → WireType → Bytes → Except DecodeFault (μ × Bytes)) : Prop :=
  ∀ m tag w bytes,
    field (f m) tag w bytes = (field m tag w bytes).map fun (m', rest) => (f m', rest)

variable {f : μ → μ}

theorem Carries.readField (h : Carries f field) (m : μ) (bytes : Bytes) :
    readField field (f m) bytes =
      (readField field m bytes).map fun (m', rest) => (f m', rest) := by
  unfold Wire.readField
  cases readKey bytes with
  | error fault => rfl
  | ok r => exact h m r.1.1 r.1.2 r.2

theorem Carries.readFields (h : Carries f field) (stop fuel : Nat) (m : μ) (bytes : Bytes) :
    readFields field stop fuel (f m) bytes =
      (readFields field stop fuel m bytes).map fun (m', rest) => (f m', rest) := by
  induction fuel generalizing m bytes with
  | zero =>
    unfold Wire.readFields
    split_ifs <;> rfl
  | succ fuel ih =>
    rcases Nat.lt_trichotomy stop bytes.length with hmore | hstop | hover
    · rw [readFields_more hmore, readFields_more hmore, h.readField]
      cases Wire.readField field m bytes with
      | error fault => rfl
      | ok r => exact ih r.1 r.2
    · rw [readFields_stop hstop.symm, readFields_stop hstop.symm]
      rfl
    · rw [readFields_over hover, readFields_over hover]
      rfl

theorem Carries.readMessage (h : Carries f field) (depth : Nat) (m : μ) (bytes : Bytes) :
    readMessage depth field (f m) bytes =
      (readMessage depth field m bytes).map fun (m', rest) => (f m', rest) := by
  unfold Wire.readMessage
  split_ifs
  · rfl
  · cases readLength bytes with
    | error fault => rfl
    | ok r => exact h.readFields _ _ m r.2

theorem inField_typed_map {α β : Type} (name : String) (expected actual : WireType) (g : α → β)
    (r : Except DecodeFault α) :
    inField name (typed expected actual (r.map g)) =
      (inField name (typed expected actual r)).map g := by
  unfold typed
  split_ifs
  · cases r <;> rfl
  · rfl

end

/-! ## A message behind a message -/

/-- The query when `later` was read behind `q`. -/
def Query.followedBy (q later : Query) : Query where
  text := later.text.or q.text

@[simp] theorem Query.followedBy_empty (q : Query) : q.followedBy {} = q := rfl

@[simp] theorem Query.empty_followedBy (q : Query) : ({} : Query).followedBy q = q := by
  rw [followedBy, Option.or_none]

namespace Message

/-- The message when `later` was read behind `m`. -/
def followedBy (m later : Message) : Message where
  ok := later.ok.or m.ok
  error := later.error.or m.error
  query := Option.merge Query.followedBy m.query later.query
  events := m.events ++ later.events

theorem followedBy_empty (m : Message) : m.followedBy {} = m := by
  simp [followedBy]

/-- A query is read into the one that is there, and that is one made of two. -/
theorem query_followedBy (m later : Message) :
    (m.followedBy later).query.getD {} =
      (m.query.getD {}).followedBy (later.query.getD {}) := by
  unfold followedBy
  cases m.query <;> cases later.query <;> simp

theorem merge_query_some (m : Message) (q : Query) :
    Option.merge Query.followedBy m.query (some q) = some ((m.query.getD {}).followedBy q) := by
  cases m.query <;> simp

end Message

theorem Query.field_carries (depth : Nat) (q : Query) : Carries q.followedBy (field depth) := by
  intro m tag w bytes
  unfold field
  split
  · cases textField "Query.string" w bytes <;> rfl
  · unfold unknownField
    cases skipField depth tag w bytes <;> rfl

theorem Message.field_carries (depth : Nat) (m : Message) :
    Carries m.followedBy (field depth) := by
  intro later tag w bytes
  unfold field
  split
  · cases varintField "Msg.ok" w bytes <;> rfl
  · cases textField "Msg.error" w bytes <;> rfl
  · rw [query_followedBy, (Query.field_carries _ _).readMessage, inField_typed_map]
    cases inField "Msg.query" (typed .delimited w
      (readMessage depth (Query.field (depth - 1)) (later.query.getD {}) bytes)) with
    | error fault => rfl
    | ok r =>
      have hquery := m.merge_query_some r.1
      simp only [bind, Except.bind, pure, Except.pure, Except.map, followedBy, hquery]
  · cases inField "Msg.events" (typed .delimited w
      (readMessage depth (SentEvent.field (depth - 1)) {} bytes)) with
    | error fault => rfl
    | ok r =>
      simp only [bind, Except.bind, pure, Except.pure, Except.map, followedBy, List.append_assoc]
  · unfold unknownField
    cases skipField depth tag w bytes <;> rfl

/-- No bytes are the message without any field. Behind the bytes of a message, others are
read or fail to be read as they are alone, and are then put behind it. -/
theorem Message.decode_append :
    decode [] = .ok {} ∧
    ∀ {front : Bytes} {m : Message}, decode front = .ok m →
      ∀ back, decode (front ++ back) = (decode back).map m.followedBy := by
  refine ⟨rfl, ?_⟩
  intro front m hfront back
  have hrun := decode_eq_ok.1 hfront
  have hon := hrun.resume (field_local depthLimit) back (Nat.le_refl _)
  have hback := (field_carries depthLimit m).readFields 0 back.length {} back
  rw [followedBy_empty] at hback
  rw [decode, merge, hon, hback, decode, merge]
  cases readFields (field depthLimit) 0 back.length {} back <;> rfl

/-- A query without a text behind one with a text, and the same bytes without the last. -/
theorem Message.decode_append_second_query :
    let front : Bytes := [0x10, 1, 0x2a, 3, 0x0a, 1, 0x61, 0x32, 0]
    let back : Bytes := [0x10, 0, 0x2a, 0, 0x32, 3, 0x22, 1, 0x68]
    decode front = .ok { ok := some true, query := some { text := some "a" }, events := [{}] } ∧
      decode (front ++ back) =
        .ok { ok := some false, query := some { text := some "a" },
              events := [{}, { host := some "h" }] } ∧
      decode (front ++ back.take 8) = .error ⟨.underflow, ["Msg.events"]⟩ := by
  intro front back
  have hfront : decode front =
      .ok { ok := some true, query := some { text := some "a" }, events := [{}] } := by
    decide +kernel
  have hback : decode back =
      .ok { ok := some false, query := some {}, events := [{ host := some "h" }] } := by
    decide +kernel
  have hcut : decode (back.take 8) = .error ⟨.underflow, ["Msg.events"]⟩ := by decide +kernel
  have happend := decode_append.2 hfront
  refine ⟨hfront, ?_, ?_⟩
  · rw [happend, hback]
    rfl
  · rw [happend, hcut]
    rfl

end EventTree.Wire
