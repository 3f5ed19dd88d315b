import EventTree.Proofs.Wire.Locality
import EventTree.Proofs.Wire.Primitive

/-!
# Well-formed fields

What a field looks like, whoever wrote it: a key, and behind it a value of the wire type
that the key names. A group has no length. It is a sequence of fields between two keys of
one tag, and it may hold groups, as many inside one another as the depth leaves.

The skipper takes exactly a field and nothing behind it. Inside a group this is a run of
the rounds that the skipper makes, from one set of open groups back to the same.
-/
namespace EventTree.Wire

/-- The bytes are a value that is no group. Numbers may be longer than need be. -/
inductive IsValue : WireType → Bytes → Prop
  | varint {n : Nat} {bytes : Bytes} (h : IsVarint 10 n bytes) : IsValue .varint bytes
  | fixed32 {bytes : Bytes} (h : bytes.length = 4) : IsValue .fixed32 bytes
  | fixed64 {bytes : Bytes} (h : bytes.length = 8) : IsValue .fixed64 bytes
  | delimited {length payload : Bytes} (h : IsVarint 10 payload.length length) :
      IsValue .delimited (length ++ payload)

mutual

/-- The bytes are one field with `tag`. As deep as `depth` allows, groups stand in it. -/
inductive IsField : (depth tag : Nat) → Bytes → Prop
  | value {depth tag : Nat} {w : WireType} {front back : Bytes} (hkey : IsKey tag w front)
      (hvalue : IsValue w back) : IsField (depth + 1) tag (front ++ back)
  | group {depth tag : Nat} {start inner stop : Bytes} (hstart : IsKey tag .startGroup start)
      (hinner : AreFields depth inner) (hstop : IsKey tag .endGroup stop) :
      IsField (depth + 1) tag (start ++ (inner ++ stop))

/-- The bytes are fields, one behind the other. -/
inductive AreFields : (depth : Nat) → Bytes → Prop
  | nil {depth : Nat} : AreFields depth []
  | cons {depth tag : Nat} {part rest : Bytes} (hfield : IsField depth tag part)
      (h : AreFields depth rest) : AreFields depth (part ++ rest)

end

theorem IsField.depth_pos {depth tag : Nat} {bytes : Bytes} (h : IsField depth tag bytes) :
    0 < depth := by
  cases h <;> exact Nat.succ_pos _

theorem IsVarint.length_pos {room n : Nat} {bytes : Bytes} (h : IsVarint room n bytes) :
    0 < bytes.length := by
  cases h <;> exact Nat.succ_pos _

theorem AreFields.one {depth tag : Nat} {part : Bytes} (h : IsField depth tag part) :
    AreFields depth part := by
  have hone := AreFields.cons h .nil
  rwa [List.append_nil] at hone

theorem AreFields.append {depth : Nat} {bytes bytes' : Bytes} :
    AreFields depth bytes → AreFields depth bytes' → AreFields depth (bytes ++ bytes')
  | .nil, h' => h'
  | .cons hfield h, h' => by
    rw [List.append_assoc]
    exact .cons hfield (h.append h')

/-! ## Values are passed over -/

theorem readDelimited_append {length payload : Bytes} (h : IsVarint 10 payload.length length)
    (rest : Bytes) : readDelimited (length ++ payload ++ rest) = .ok (payload, rest) := by
  rw [readDelimited_eq, List.append_assoc, h.readVarint]
  exact readBytes_append payload rest

theorem IsValue.passed {w : WireType} {bytes : Bytes} (h : IsValue w bytes) :
    Takes (passValue w) bytes () := by
  intro rest
  cases h with
  | varint h => rw [passValue, h.readVarint, Except.map]
  | fixed32 h => rw [passValue, ← h, readBytes_append, Except.map]
  | fixed64 h => rw [passValue, ← h, readBytes_append, Except.map]
  | delimited h => rw [passValue, readDelimited_append h, Except.map]

theorem IsValue.ne_group {w : WireType} {bytes : Bytes} (h : IsValue w bytes) :
    w ≠ .startGroup ∧ w ≠ .endGroup := by
  cases h <;> decide

/-! ## Inside a group -/

section
variable {depth tag : Nat} {tags : List Nat}

theorem IsKey.closes {stop : Bytes} (h : IsKey tag .endGroup stop) :
    Takes (passKeyed depth tag tags) stop tags := by
  intro rest
  rw [passKeyed, h.read]
  change passPart depth tag tags (tag, .endGroup) rest = _
  rw [passPart, if_pos rfl, if_pos rfl]

/-- Only what is not an end is counted against the depth. -/
theorem IsKey.opens {inner : Nat} {start : Bytes} (h : IsKey inner .startGroup start)
    (hdepth : (tag :: tags).length < depth) :
    Takes (passKeyed depth tag tags) start (inner :: tag :: tags) := by
  intro rest
  rw [passKeyed, h.read]
  change passPart depth tag tags (inner, .startGroup) rest = _
  rw [passPart, if_neg (by simp), if_neg (Nat.not_le.2 hdepth), if_pos rfl]

theorem IsValue.passedKeyed {inner : Nat} {w : WireType} {front back : Bytes}
    (hkey : IsKey inner w front) (hvalue : IsValue w back) (hdepth : (tag :: tags).length < depth) :
    Takes (passKeyed depth tag tags) (front ++ back) (tag :: tags) := by
  intro rest
  obtain ⟨hstart, hend⟩ := hvalue.ne_group
  rw [passKeyed, List.append_assoc, hkey.read]
  change passPart depth tag tags (inner, w) (back ++ rest) = _
  rw [passPart, if_neg hend, if_neg (Nat.not_le.2 hdepth), if_neg hstart, hvalue.passed]
  rfl

theorem GroupRun.one {tags' : List Nat} {part : Bytes}
    (h : Takes (passKeyed depth tag tags) part tags') :
    GroupRun depth (tag :: tags) part tags' := by
  have hone := GroupRun.cons h (.nil tags')
  rwa [List.append_nil] at hone

end

mutual

/-- The groups that are open around a field take from the depth that it was made for. -/
theorem IsField.groupRun {limit tag : Nat} {tags : List Nat} :
    ∀ {depth inner : Nat} {bytes : Bytes}, IsField depth inner bytes →
      depth + (tag :: tags).length ≤ limit → GroupRun limit (tag :: tags) bytes (tag :: tags)
  | _, _, _, .value hkey hvalue, hlimit => .one (hvalue.passedKeyed hkey (by omega))
  | _, inner, _, @IsField.group depth _ _ body _ hstart hinner hstop, hlimit => by
    have hdeeper : depth + (inner :: tag :: tags).length ≤ limit := by
      simp only [List.length_cons] at hlimit ⊢
      omega
    have hopen := GroupRun.one (hstart.opens (by omega : (tag :: tags).length < limit))
    have hfields : GroupRun limit (inner :: tag :: tags) body (inner :: tag :: tags) :=
      hinner.groupRun hdeeper
    exact hopen.append (hfields.append (.one hstop.closes))

theorem AreFields.groupRun {limit tag : Nat} {tags : List Nat} :
    ∀ {depth : Nat} {bytes : Bytes}, AreFields depth bytes →
      depth + (tag :: tags).length ≤ limit → GroupRun limit (tag :: tags) bytes (tag :: tags)
  | _, _, .nil, _ => .nil _
  | _, _, .cons hfield h, hlimit => (hfield.groupRun hlimit).append (h.groupRun hlimit)

end

/-! ## Fields are passed over -/

/-- A field is a key and what the skipper passes over by that key. -/
theorem IsField.skip {depth tag : Nat} {bytes : Bytes} (h : IsField depth tag bytes) :
    ∃ w front back, bytes = front ++ back ∧ IsKey tag w front ∧
      ∀ rest, skipField depth tag w (back ++ rest) = .ok rest := by
  cases h with
  | @value depth _ w front back hkey hvalue =>
    refine ⟨w, front, back, rfl, hkey, fun rest => ?_⟩
    rw [skipField_eq, if_neg (Nat.succ_ne_zero _), if_neg hvalue.ne_group.1, hvalue.passed]
    rfl
  | @group depth _ start inner stop hstart hinner hstop =>
    refine ⟨.startGroup, start, inner ++ stop, rfl, hstart, fun rest => ?_⟩
    have hfields : GroupRun (depth + 1) [tag] inner [tag] := hinner.groupRun (Nat.le_refl _)
    have hrun := hfields.append (.one hstop.closes)
    rw [skipField_eq, if_neg (Nat.succ_ne_zero _), if_pos rfl]
    exact hrun.skip (by simp) rest

/-! ## Written messages -/

/-- The bytes are fields, if the lengths in them can be written. No groups are written, so any
depth is enough. -/
def Formed (part : Bytes) : Prop := part.length < 2 ^ 64 → ∀ depth, AreFields (depth + 1) part

theorem Formed.append {part part' : Bytes} (h : Formed part) (h' : Formed part') :
    Formed (part ++ part') := by
  intro hlength depth
  rw [List.length_append] at hlength
  exact (h (by omega) depth).append (h' (by omega) depth)

theorem isValue_varint {n : Nat} (h : n < 2 ^ 64) : IsValue .varint (varint n) :=
  .varint (isVarint_varint h)

theorem isValue_withLength {payload : Bytes} (h : (withLength payload).length < 2 ^ 64) :
    IsValue .delimited (withLength payload) := by
  rw [length_withLength] at h
  exact .delimited (isVarint_varint (by omega))

section
variable {α : Type} {tag : Nat} {w : WireType} {value : α → Bytes}

theorem formed_fieldOf (htag : 0 < tag ∧ tag < 2 ^ 29)
    (h : ∀ a, (value a).length < 2 ^ 64 → IsValue w (value a)) (o : Option α) :
    Formed (fieldOf tag w value o) := by
  intro hlength depth
  cases o with
  | none => exact .nil
  | some a =>
    rw [fieldOf, List.length_append] at hlength
    exact .one (.value (isKey_key (Nat.ne_of_gt htag.1) htag.2 w) (h a (by omega)))

theorem formed_flatMap (htag : 0 < tag ∧ tag < 2 ^ 29)
    (h : ∀ a, (value a).length < 2 ^ 64 → IsValue w (value a)) (as : List α) :
    Formed (as.flatMap fun a => fieldOf tag w value (some a)) := by
  induction as with
  | nil => exact fun _ _ => .nil
  | cons a as ih =>
    rw [List.flatMap_cons]
    exact (formed_fieldOf htag h (some a)).append ih

end

theorem formed_putText {tag : Nat} (htag : 0 < tag ∧ tag < 2 ^ 29) (s : Option String) :
    Formed (putText tag s) :=
  formed_fieldOf htag (fun _ h => isValue_withLength h) s

theorem formed_putInt64 {tag : Nat} (htag : 0 < tag ∧ tag < 2 ^ 29) (n : Option Int64) :
    Formed (putInt64 tag n) :=
  formed_fieldOf htag (fun n _ => isValue_varint (int64Bits_lt n)) n

theorem formed_putBinary32 {tag : Nat} (htag : 0 < tag ∧ tag < 2 ^ 29)
    (x : Option Number.Binary32) : Formed (putBinary32 tag x) :=
  formed_fieldOf htag (fun _ _ => .fixed32 (length_littleEndian 4 _)) x

theorem Attribute.formed_encode (a : Attribute) : Formed a.encode :=
  (formed_putText (by decide) _).append (formed_putText (by decide) _)

theorem Query.formed_encode (q : Query) : Formed q.encode :=
  formed_putText (by decide) _

theorem SentEvent.formed_encode (e : SentEvent) : Formed e.encode := by
  unfold encode
  apply Formed.append _ (formed_putBinary32 (by decide) _)
  apply Formed.append _
    (formed_fieldOf (by decide) (fun _ _ => .fixed64 (length_littleEndian 8 _)) _)
  apply Formed.append _ (formed_fieldOf (by decide) (fun n _ => isValue_varint (zigzag_lt n)) _)
  apply Formed.append _ (formed_putInt64 (by decide) _)
  apply Formed.append _ (formed_flatMap (by decide) (fun _ h => isValue_withLength h) _)
  apply Formed.append _ (formed_putBinary32 (by decide) _)
  apply Formed.append _ (formed_flatMap (by decide) (fun _ h => isValue_withLength h) _)
  apply Formed.append _ (formed_putText (by decide) _)
  apply Formed.append _ (formed_putText (by decide) _)
  apply Formed.append _ (formed_putText (by decide) _)
  apply Formed.append _ (formed_putText (by decide) _)
  exact formed_putInt64 (by decide) _

theorem Message.formed_encode (m : Message) : Formed m.encode := by
  have hbit : ∀ ok : Bool, (if ok then 1 else 0) < 2 ^ 64 := by decide
  unfold encode
  apply Formed.append _ (formed_flatMap (by decide) (fun _ h => isValue_withLength h) _)
  apply Formed.append _ (formed_fieldOf (by decide) (fun _ h => isValue_withLength h) _)
  apply Formed.append _ (formed_putText (by decide) _)
  exact formed_fieldOf (by decide) (fun ok _ => isValue_varint (hbit ok)) _

end EventTree.Wire
