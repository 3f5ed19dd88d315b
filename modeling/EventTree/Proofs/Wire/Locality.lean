import EventTree.Wire.Decode
import Mathlib.Tactic.SplitIfs

/-!
# Readers look no further than they read

A reader that succeeds has taken some bytes off the front, and it takes the same bytes
off whatever stands behind them. This is plain of a reader that stops at a byte that it
has seen. It also holds of those that are told their end by a length: the length is
checked against all that is left of the input, but what is left does not come into the
value.

Fuel does not count, as long as there is as much as there are bytes to take.
-/
namespace EventTree.Wire
open Number

/-- A computation of two parts succeeds if both do. -/
theorem bind_eq_ok {ε α β : Type} {x : Except ε α} {f : α → Except ε β} {b : β} :
    x >>= f = .ok b ↔ ∃ a, x = .ok a ∧ f a = .ok b := by
  cases x <;> simp [bind, Except.bind]

theorem map_eq_ok {ε α β : Type} {x : Except ε α} {f : α → β} {b : β} :
    x.map f = .ok b ↔ ∃ a, x = .ok a ∧ f a = b := by
  cases x <;> simp [Except.map]

section
variable {α β : Type}

/-- The reader takes `taken` off the front and makes `a` of it, whatever stands behind. -/
def Takes (read : Bytes → Except DecodeFault (α × Bytes)) (taken : Bytes) (a : α) : Prop :=
  ∀ rest, read (taken ++ rest) = .ok (a, rest)

def Local (read : Bytes → Except DecodeFault (α × Bytes)) : Prop :=
  ∀ bytes a rest, read bytes = .ok (a, rest) → ∃ taken, bytes = taken ++ rest ∧ Takes read taken a

variable {read : Bytes → Except DecodeFault (α × Bytes)}

/-- A reader that fails at the end of the input takes at least one byte. -/
theorem Takes.length_pos {taken : Bytes} {a : α} (h : Takes read taken a)
    (hend : read [] ≠ .ok (a, [])) : 0 < taken.length := by
  cases taken with
  | nil => exact absurd (h []) hend
  | cons b rest => exact Nat.succ_pos _

/-! ## Readers made of readers -/

theorem local_pure (a : α) : Local fun rest => .ok (a, rest) := by
  intro bytes b rest h
  cases h
  exact ⟨[], rfl, fun _ => rfl⟩

theorem local_error (fault : DecodeFault) :
    Local (fun _ => .error fault : Bytes → Except DecodeFault (α × Bytes)) :=
  nofun

theorem Local.bind {next : α → Bytes → Except DecodeFault (β × Bytes)} (h : Local read)
    (hnext : ∀ a, Local (next a)) :
    Local fun bytes => read bytes >>= fun (a, rest) => next a rest := by
  intro bytes b rest hread
  obtain ⟨⟨a, middle⟩, hfirst, hsecond⟩ := bind_eq_ok.1 hread
  obtain ⟨front, rfl, hfront⟩ := h _ _ _ hfirst
  obtain ⟨back, rfl, hback⟩ := hnext a _ _ _ hsecond
  refine ⟨front ++ back, (List.append_assoc ..).symm, fun more => ?_⟩
  rw [List.append_assoc]
  exact bind_eq_ok.2 ⟨_, hfront _, hback more⟩

theorem Local.update (h : Local read) (f : α → β) :
    Local fun bytes => read bytes >>= fun (a, rest) => pure (f a, rest) :=
  h.bind fun a => local_pure (f a)

theorem Local.map (h : Local read) (f : α → β) :
    Local fun bytes => (read bytes).map fun (a, rest) => (f a, rest) :=
  h.update f

/-- Only what is read counts, not the faults. -/
theorem Local.of_ok_iff {read' : Bytes → Except DecodeFault (α × Bytes)} (h : Local read)
    (heq : ∀ bytes r, read' bytes = .ok r ↔ read bytes = .ok r) : Local read' := by
  intro bytes a rest hread
  obtain ⟨taken, htaken, ha⟩ := h _ _ _ ((heq _ _).1 hread)
  exact ⟨taken, htaken, fun more => (heq _ _).2 (ha more)⟩

theorem inField_eq_ok {name : String} {r : Except DecodeFault α} {a : α} :
    inField name r = .ok a ↔ r = .ok a := by
  cases r <;> simp [inField, Except.mapError]

theorem typed_eq_ok {expected actual : WireType} {r : Except DecodeFault α} {a : α} :
    typed expected actual r = .ok a ↔ actual = expected ∧ r = .ok a := by
  unfold typed
  split_ifs with h <;> simp [h, fail]

theorem Local.typedField (h : Local read) (name : String) (expected actual : WireType) :
    Local fun bytes => inField name (typed expected actual (read bytes)) := by
  by_cases hw : actual = expected
  · refine h.of_ok_iff fun bytes r => ?_
    rw [inField_eq_ok, typed_eq_ok, and_iff_right hw]
  · intro bytes a rest hread
    exact absurd (typed_eq_ok.1 (inField_eq_ok.1 hread)).1 hw

end

/-! ## Primitive parts -/

theorem readVarintIn_local {room n : Nat} {bytes rest : Bytes}
    (h : readVarintIn room bytes = some (n, rest)) :
    ∃ taken, bytes = taken ++ rest ∧
      ∀ more, readVarintIn room (taken ++ more) = some (n, more) := by
  induction room generalizing bytes n with
  | zero => cases h
  | succ room ih =>
    cases bytes with
    | nil => cases h
    | cons b bytes =>
      unfold readVarintIn at h
      split_ifs at h with hlast hover
      · cases h
        refine ⟨[b], rfl, fun more => ?_⟩
        simp [readVarintIn, hlast, hover]
      · cases hmore : readVarintIn room bytes with
        | none =>
          rw [hmore] at h
          cases h
        | some r =>
          rw [hmore] at h
          cases h
          obtain ⟨taken, rfl, htaken⟩ := ih hmore
          refine ⟨b :: taken, rfl, fun more => ?_⟩
          simp [readVarintIn, hlast, htaken]

theorem readVarint_local : Local readVarint := by
  intro bytes n rest h
  unfold readVarint at h
  split at h
  · next r hread =>
    cases h
    obtain ⟨taken, htaken, hmore⟩ := readVarintIn_local hread
    refine ⟨taken, htaken, fun more => ?_⟩
    rw [readVarint, hmore]
  · cases h

theorem keyParts_local (key : Nat) : Local fun rest : Bytes =>
    if 0x100000000 ≤ key then fail (.invalidKey key)
    else match WireType.ofNumber? (key % 8) with
      | none => fail (.invalidWireType (key % 8))
      | some wireType =>
        if key / 8 = 0 then fail (.invalidTag 0) else .ok ((key / 8, wireType), rest) := by
  split_ifs
  · exact local_error _
  · cases WireType.ofNumber? (key % 8) <;> exact local_error _
  · cases WireType.ofNumber? (key % 8) with
    | none => exact local_error _
    | some wireType => exact local_pure _

theorem readKey_local : Local readKey := by
  refine (readVarint_local.bind keyParts_local).of_ok_iff fun bytes r => ?_
  unfold readKey
  cases readVarint bytes <;> rfl

theorem readBytes_local (count : Nat) : Local (readBytes count) := by
  intro bytes taken rest h
  unfold readBytes at h
  split_ifs at h with hshort
  · cases h
  rw [List.splitAt_eq] at h
  cases h
  refine ⟨bytes.take count, (List.take_append_drop ..).symm, fun more => ?_⟩
  have hlength : (bytes.take count).length = count := by
    rw [List.length_take]
    omega
  have henough : ¬ (bytes.take count ++ more).length < count := by
    rw [List.length_append, hlength]
    omega
  rw [readBytes, if_neg henough, List.splitAt_eq, List.take_left' hlength, List.drop_left' hlength]

theorem readFixed_local (count : Nat) : Local (readFixed count) :=
  (readBytes_local count).map ofLittleEndian

theorem readDelimited_eq (bytes : Bytes) :
    readDelimited bytes = (readVarint bytes >>= fun (length, rest) => readBytes length rest) := by
  unfold readDelimited readLength
  cases readVarint bytes with
  | error fault => rfl
  | ok r =>
    simp only [bind, Except.bind, readBytes]
    split_ifs <;> rfl

theorem readDelimited_local : Local readDelimited :=
  (readVarint_local.bind readBytes_local).of_ok_iff fun bytes r => by rw [readDelimited_eq]

theorem payloadText_local (payload : Bytes) : Local fun rest : Bytes =>
    match Text.decode? payload with
    | some s => Except.ok (s, rest)
    | none => fail .notText := by
  cases Text.decode? payload with
  | some s => exact local_pure s
  | none => exact local_error _

theorem readText_local : Local readText := by
  refine (readDelimited_local.bind payloadText_local).of_ok_iff fun bytes r => ?_
  unfold readText
  cases readDelimited bytes <;> rfl

/-! ## Fields that are passed over -/

/-- Passes over a value that is not a group. -/
def passValue (wireType : WireType) (bytes : Bytes) : Except DecodeFault (Unit × Bytes) :=
  match wireType with
  | .varint => (readVarint bytes).map fun (_, rest) => ((), rest)
  | .fixed32 => (readBytes 4 bytes).map fun (_, rest) => ((), rest)
  | .fixed64 => (readBytes 8 bytes).map fun (_, rest) => ((), rest)
  | .delimited => (readDelimited bytes).map fun (_, rest) => ((), rest)
  | .startGroup | .endGroup => fail .unexpectedEndGroup

theorem passValue_local (wireType : WireType) : Local (passValue wireType) := by
  cases wireType with
  | varint => exact readVarint_local.map fun _ => ()
  | fixed32 => exact (readBytes_local 4).map fun _ => ()
  | fixed64 => exact (readBytes_local 8).map fun _ => ()
  | delimited => exact readDelimited_local.map fun _ => ()
  | startGroup => exact local_error _
  | endGroup => exact local_error _

theorem passValue_bind (wireType : WireType) (bytes : Bytes)
    (next : Bytes → Except DecodeFault β) :
    (passValue wireType bytes >>= fun (_, rest) => next rest) =
      match wireType with
      | .varint => readVarint bytes >>= fun (_, rest) => next rest
      | .fixed32 => readBytes 4 bytes >>= fun (_, rest) => next rest
      | .fixed64 => readBytes 8 bytes >>= fun (_, rest) => next rest
      | .delimited => readDelimited bytes >>= fun (_, rest) => next rest
      | .startGroup | .endGroup => fail .unexpectedEndGroup := by
  cases wireType with
  | varint =>
    rw [passValue]
    cases readVarint bytes <;> rfl
  | fixed32 =>
    rw [passValue]
    cases readBytes 4 bytes <;> rfl
  | fixed64 =>
    rw [passValue]
    cases readBytes 8 bytes <;> rfl
  | delimited =>
    rw [passValue]
    cases readDelimited bytes <;> rfl
  | startGroup => rfl
  | endGroup => rfl

theorem skipField_eq (depth tag : Nat) (wireType : WireType) (bytes : Bytes) :
    skipField depth tag wireType bytes =
      if depth = 0 then fail .tooDeep
      else if wireType = .startGroup then skipGroups depth bytes.length [tag] bytes
      else passValue wireType bytes >>= fun (_, rest) => .ok rest := by
  rw [passValue_bind, skipField.eq_def]
  split_ifs with hdepth hgroup
  · rfl
  · rw [hgroup]
  · cases wireType with
    | startGroup => exact absurd rfl hgroup
    | _ => rfl

/-- Passes over one part of the groups in `tags`, the innermost of which is `tag`, by the
key that came before it. The result are the groups that are open behind it. -/
def passPart (depth tag : Nat) (tags : List Nat) (key : Nat × WireType) (bytes : Bytes) :
    Except DecodeFault (List Nat × Bytes) :=
  if key.2 = .endGroup then
    if key.1 = tag then .ok (tags, bytes) else fail .unexpectedEndGroup
  else if depth ≤ (tag :: tags).length then fail .tooDeep
  else if key.2 = .startGroup then .ok (key.1 :: tag :: tags, bytes)
  else passValue key.2 bytes >>= fun (_, rest) => pure (tag :: tags, rest)

theorem passPart_local (depth tag : Nat) (tags : List Nat) (key : Nat × WireType) :
    Local (passPart depth tag tags key) := by
  unfold passPart
  split_ifs
  · exact local_pure tags
  · exact local_error _
  · exact local_error _
  · exact local_pure _
  · exact (passValue_local key.2).update fun _ => tag :: tags

/-- Passes over a key and the part of the groups behind it. -/
def passKeyed (depth tag : Nat) (tags : List Nat) (bytes : Bytes) :
    Except DecodeFault (List Nat × Bytes) :=
  readKey bytes >>= fun (key, rest) => passPart depth tag tags key rest

theorem passKeyed_local (depth tag : Nat) (tags : List Nat) : Local (passKeyed depth tag tags) :=
  readKey_local.bind (passPart_local depth tag tags)

@[simp] theorem skipGroups_nil (depth fuel : Nat) (bytes : Bytes) :
    skipGroups depth fuel [] bytes = .ok bytes := by
  unfold skipGroups
  rfl

theorem skipGroups_cons (depth fuel tag : Nat) (tags : List Nat) (bytes : Bytes) :
    skipGroups depth (fuel + 1) (tag :: tags) bytes =
      (passKeyed depth tag tags bytes >>= fun (left, rest) => skipGroups depth fuel left rest) := by
  rw [skipGroups, passKeyed, bind_assoc]
  congr 1
  funext ⟨⟨inner, wireType⟩, rest⟩
  cases wireType with
  | endGroup =>
    simp only [passPart, if_true]
    split_ifs <;> rfl
  | startGroup =>
    simp only [passPart, reduceCtorEq, if_false, if_true]
    split_ifs <;> rfl
  | _ =>
    simp only [passPart, reduceCtorEq, if_false]
    split_ifs
    · rfl
    · simp only [bind_assoc, pure_bind, passValue_bind]

theorem Takes.passKeyed_pos {depth tag : Nat} {tags open' : List Nat} {taken : Bytes}
    (h : Takes (passKeyed depth tag tags) taken open') : 0 < taken.length :=
  h.length_pos nofun

/-- Keys and what stands behind them are passed over up to the end of `taken`. The groups
in `tags` are open in front of it and those in `tags'` behind it. -/
inductive GroupRun (depth : Nat) : List Nat → Bytes → List Nat → Prop
  | nil (tags : List Nat) : GroupRun depth tags [] tags
  | cons {tag : Nat} {tags tags' tags'' : List Nat} {part taken : Bytes}
      (hpart : Takes (passKeyed depth tag tags) part tags')
      (h : GroupRun depth tags' taken tags'') : GroupRun depth (tag :: tags) (part ++ taken) tags''

theorem GroupRun.append {depth : Nat} {tags tags' tags'' : List Nat} {taken taken' : Bytes}
    (h : GroupRun depth tags taken tags') (h' : GroupRun depth tags' taken' tags'') :
    GroupRun depth tags (taken ++ taken') tags'' := by
  induction h with
  | nil tags => exact h'
  | cons hpart _ ih =>
    rw [List.append_assoc]
    exact .cons hpart (ih h')

/-- Groups are passed over in as many rounds as they have keys, so their own bytes are
fuel enough. -/
theorem GroupRun.skip {depth : Nat} {tags : List Nat} {taken : Bytes}
    (h : GroupRun depth tags taken []) {fuel : Nat} (hfuel : taken.length ≤ fuel) (rest : Bytes) :
    skipGroups depth fuel tags (taken ++ rest) = .ok rest := by
  generalize hend : [] = tags' at h
  induction h generalizing fuel with
  | nil tags =>
    subst hend
    exact skipGroups_nil depth fuel rest
  | @cons tag tags tags' tags'' part taken hpart _ ih =>
    have hpos := hpart.passKeyed_pos
    rw [List.length_append] at hfuel
    obtain ⟨less, rfl⟩ : ∃ less, fuel = less + 1 := ⟨fuel - 1, by omega⟩
    rw [List.append_assoc, skipGroups_cons, hpart]
    exact ih (by omega) hend

theorem skipGroups_local {depth fuel : Nat} {tags : List Nat} {bytes rest : Bytes}
    (h : skipGroups depth fuel tags bytes = .ok rest) :
    ∃ taken, bytes = taken ++ rest ∧ GroupRun depth tags taken [] := by
  induction fuel generalizing tags bytes with
  | zero =>
    cases tags with
    | nil =>
      rw [skipGroups_nil] at h
      cases h
      exact ⟨[], rfl, .nil []⟩
    | cons tag tags => cases h
  | succ fuel ih =>
    cases tags with
    | nil =>
      rw [skipGroups_nil] at h
      cases h
      exact ⟨[], rfl, .nil []⟩
    | cons tag tags =>
      rw [skipGroups_cons] at h
      obtain ⟨⟨inside, behind⟩, hround, hbehind⟩ := bind_eq_ok.1 h
      obtain ⟨part, rfl, hpart⟩ := passKeyed_local depth tag tags _ _ _ hround
      obtain ⟨taken, rfl, htaken⟩ := ih hbehind
      exact ⟨part ++ taken, (List.append_assoc ..).symm, .cons hpart htaken⟩

theorem unknownField_eq_ok {μ : Type} {depth tag : Nat} {m : μ} {wireType : WireType}
    {bytes : Bytes} {r : μ × Bytes} :
    unknownField depth m tag wireType bytes = .ok r ↔
      m = r.1 ∧ skipField depth tag wireType bytes = .ok r.2 := by
  rw [unknownField, map_eq_ok]
  constructor
  · rintro ⟨rest, hskip, rfl⟩
    exact ⟨rfl, hskip⟩
  · rintro ⟨rfl, hskip⟩
    exact ⟨r.2, hskip, rfl⟩

theorem unknownField_local {μ : Type} (depth : Nat) (m : μ) (tag : Nat) (wireType : WireType) :
    Local (unknownField depth m tag wireType) := by
  intro bytes m' rest h
  obtain ⟨rfl, hskip⟩ := unknownField_eq_ok.1 h
  rw [skipField_eq] at hskip
  split_ifs at hskip with hdepth hgroup
  · cases hskip
  · obtain ⟨taken, htaken, hrun⟩ := skipGroups_local hskip
    refine ⟨taken, htaken, fun more => unknownField_eq_ok.2 ⟨rfl, ?_⟩⟩
    rw [skipField_eq, if_neg hdepth, if_pos hgroup]
    exact hrun.skip (by simp) more
  · obtain ⟨⟨⟨⟩, _⟩, hpass, hskip⟩ := bind_eq_ok.1 hskip
    cases hskip
    obtain ⟨taken, htaken, hmore⟩ := passValue_local wireType _ _ _ hpass
    refine ⟨taken, htaken, fun more => unknownField_eq_ok.2 ⟨rfl, ?_⟩⟩
    rw [skipField_eq, if_neg hdepth, if_neg hgroup, hmore]
    rfl

/-! ## Fields -/

section
variable {μ : Type} {field : μ → Nat → WireType → Bytes → Except DecodeFault (μ × Bytes)}

def readField (field : μ → Nat → WireType → Bytes → Except DecodeFault (μ × Bytes)) (m : μ)
    (bytes : Bytes) : Except DecodeFault (μ × Bytes) :=
  readKey bytes >>= fun (key, rest) => field m key.1 key.2 rest

theorem readField_local (hfield : ∀ m tag wireType, Local (field m tag wireType)) (m : μ) :
    Local (readField field m) :=
  readKey_local.bind fun key => hfield m key.1 key.2

theorem Takes.readField_pos {m m' : μ} {taken : Bytes} (h : Takes (readField field m) taken m') :
    0 < taken.length :=
  h.length_pos nofun

theorem readFields_more {stop fuel : Nat} {bytes : Bytes} (h : stop < bytes.length) (m : μ) :
    readFields field stop (fuel + 1) m bytes =
      (readField field m bytes >>= fun (m, rest) => readFields field stop fuel m rest) := by
  rw [readFields.eq_def, readField, bind_assoc]
  dsimp only
  rw [if_neg (Nat.not_lt.2 (Nat.le_of_lt h)), if_neg (Nat.ne_of_gt h)]

theorem readFields_stop {m : μ} {stop : Nat} {rest : Bytes} (h : rest.length = stop)
    (fuel : Nat) : readFields field stop fuel m rest = .ok (m, rest) := by
  unfold readFields
  rw [if_neg (by omega), if_pos h]

theorem readFields_over {m : μ} {stop : Nat} {rest : Bytes} (h : rest.length < stop)
    (fuel : Nat) : readFields field stop fuel m rest = fail .overrun := by
  unfold readFields
  rw [if_pos h]

/-- Fields are read off `taken` one after the other, up to its end, and turn `m` into `m'`. -/
inductive FieldRun (field : μ → Nat → WireType → Bytes → Except DecodeFault (μ × Bytes)) :
    μ → Bytes → μ → Prop
  | nil (m : μ) : FieldRun field m [] m
  | cons {m m' m'' : μ} {part taken : Bytes} (hpart : Takes (readField field m) part m')
      (h : FieldRun field m' taken m'') : FieldRun field m (part ++ taken) m''

theorem FieldRun.append {m m' m'' : μ} {taken taken' : Bytes} (h : FieldRun field m taken m')
    (h' : FieldRun field m' taken' m'') : FieldRun field m (taken ++ taken') m'' := by
  induction h with
  | nil m => exact h'
  | cons hpart _ ih =>
    rw [List.append_assoc]
    exact .cons hpart (ih h')

/-- Any fuel that lasts for the bytes does, and what stands behind them is left. -/
theorem FieldRun.read {m m' : μ} {taken : Bytes} (h : FieldRun field m taken m') {fuel : Nat}
    (hfuel : taken.length ≤ fuel) (rest : Bytes) :
    readFields field rest.length fuel m (taken ++ rest) = .ok (m', rest) := by
  induction h generalizing fuel with
  | nil m => exact readFields_stop rfl fuel
  | @cons m m' m'' part taken hpart _ ih =>
    have hpos := hpart.readField_pos
    rw [List.length_append] at hfuel
    obtain ⟨less, rfl⟩ : ∃ less, fuel = less + 1 := ⟨fuel - 1, by omega⟩
    have hmore : rest.length < (part ++ (taken ++ rest)).length := by
      simp only [List.length_append]
      omega
    rw [List.append_assoc, readFields_more hmore, hpart]
    exact ih (by omega)

/-- A reader of fields that has not failed stands where it was to stop. -/
theorem readFields_local (hfield : ∀ m tag wireType, Local (field m tag wireType))
    {stop fuel : Nat} {m m' : μ} {bytes rest : Bytes}
    (h : readFields field stop fuel m bytes = .ok (m', rest)) :
    rest.length = stop ∧ ∃ taken, bytes = taken ++ rest ∧ FieldRun field m taken m' := by
  induction fuel generalizing m bytes with
  | zero =>
    unfold readFields at h
    split_ifs at h with hover hstop
    · cases h
    · cases h
      exact ⟨hstop, [], rfl, .nil _⟩
    · cases h
  | succ fuel ih =>
    rcases Nat.lt_trichotomy stop bytes.length with hmore | hstop | hover
    · rw [readFields_more hmore] at h
      obtain ⟨⟨next, behind⟩, hone, hbehind⟩ := bind_eq_ok.1 h
      obtain ⟨part, rfl, hpart⟩ := readField_local hfield m _ _ _ hone
      obtain ⟨hrest, taken, rfl, htaken⟩ := ih hbehind
      exact ⟨hrest, part ++ taken, (List.append_assoc ..).symm, .cons hpart htaken⟩
    · rw [readFields_stop hstop.symm] at h
      cases h
      exact ⟨hstop.symm, [], rfl, .nil _⟩
    · rw [readFields_over hover] at h
      cases h

end

end EventTree.Wire
