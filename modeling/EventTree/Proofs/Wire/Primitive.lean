import EventTree.Wire.Encode
import EventTree.Proofs.Text.ByteOrder
import Mathlib.Algebra.Group.Nat.Defs
import Mathlib.Tactic.SplitIfs

/-!
# Primitive parts are read back

What a writer of one primitive part puts down is read back by the reader of that part,
and whatever stands behind it is left. Lengths and integers are numbers of 64 bits; a
tag leaves three of 32 bits to the wire type.
-/
namespace EventTree.Wire

/-! ## Variable-length integers -/

theorem toNat_toUInt8 {n : Nat} (h : n < 256) : n.toUInt8.toNat = n :=
  Nat.mod_eq_of_lt h

/-- The bytes are a form of `n` that takes up to `room` of them. It may be longer than need
be; the last byte that there is room for holds a single bit. -/
inductive IsVarint : (room n : Nat) → Bytes → Prop
  | last {room : Nat} {b : UInt8} (hb : b < 128) (hroom : room = 0 → b < 2) :
      IsVarint (room + 1) b.toNat [b]
  | more {room n : Nat} {b : UInt8} {rest : Bytes} (hb : ¬b < 128) (h : IsVarint room n rest) :
      IsVarint (room + 1) (b.toNat - 128 + 128 * n) (b :: rest)

theorem IsVarint.read {room n : Nat} {bytes : Bytes} (h : IsVarint room n bytes) (rest : Bytes) :
    readVarintIn room (bytes ++ rest) = some (n, rest) := by
  induction h with
  | @last room b hb hroom =>
    have hfits : ¬(room == 0 && decide (2 ≤ b)) = true := by
      simpa using hroom
    rw [List.singleton_append, readVarintIn, if_pos hb, if_neg hfits]
  | more hb _ ih => rw [List.cons_append, readVarintIn, if_neg hb, ih]

/-- The room has one bit more than the bytes before the last one hold. -/
theorem isVarint_varintIn {room n : Nat} (h : n < 2 ^ (7 * room + 1)) :
    IsVarint (room + 1) n (varintIn (room + 1) n) := by
  induction room generalizing n with
  | zero =>
    have hbit : n = 0 ∨ n = 1 := by omega
    rcases hbit with rfl | rfl
    · exact @IsVarint.last 0 0 (by decide) fun _ => by decide
    · exact @IsVarint.last 0 1 (by decide) fun _ => by decide
  | succ room ih =>
    unfold varintIn
    by_cases hlast : n < 128
    · have hbyte := toNat_toUInt8 (by omega : n < 256)
      have hsmall : n.toUInt8 < 128 := by
        rw [UInt8.lt_iff_toNat_lt, hbyte]
        exact hlast
      have hvarint := @IsVarint.last (room + 1) n.toUInt8 hsmall nofun
      rw [hbyte] at hvarint
      rw [if_pos hlast]
      exact hvarint
    · have hbyte := toNat_toUInt8 (by omega : n % 128 + 128 < 256)
      have hmarked : ¬(n % 128 + 128).toUInt8 < 128 := by
        rw [UInt8.lt_iff_toNat_lt, hbyte]
        exact Nat.not_lt.2 (Nat.le_add_left 128 _)
      have hrest : n / 128 < 2 ^ (7 * room + 1) := by
        have hpow : 2 ^ (7 * (room + 1) + 1) = 128 * 2 ^ (7 * room + 1) := by
          rw [Nat.mul_add, Nat.add_right_comm, Nat.pow_add, Nat.mul_comm]
        omega
      have hvarint := IsVarint.more hmarked (ih hrest)
      have hvalue : n % 128 + 128 - 128 + 128 * (n / 128) = n := by omega
      rw [hbyte, hvalue] at hvarint
      rw [if_neg hlast]
      exact hvarint

theorem IsVarint.readVarint {n : Nat} {bytes : Bytes} (h : IsVarint 10 n bytes) (rest : Bytes) :
    readVarint (bytes ++ rest) = .ok (n, rest) := by
  rw [Wire.readVarint, h.read]

theorem isVarint_varint {n : Nat} (h : n < 2 ^ 64) : IsVarint 10 n (varint n) :=
  isVarint_varintIn h

theorem readVarint_varint {n : Nat} (h : n < 2 ^ 64) (rest : Bytes) :
    readVarint (varint n ++ rest) = .ok (n, rest) :=
  (isVarint_varint h).readVarint rest

/-! ## Keys -/

theorem WireType.ofNumber?_number (w : WireType) : ofNumber? w.number = some w := by
  cases w <;> rfl

theorem WireType.number_lt (w : WireType) : w.number < 8 := by
  cases w <;> decide

/-- The bytes are a form of the key of a field. -/
structure IsKey (tag : Nat) (w : WireType) (bytes : Bytes) : Prop where
  pos : tag ≠ 0
  fits : tag < 2 ^ 29
  varint : IsVarint 10 (tag * 8 + w.number) bytes

theorem IsKey.read {tag : Nat} {w : WireType} {bytes : Bytes} (h : IsKey tag w bytes)
    (rest : Bytes) : readKey (bytes ++ rest) = .ok ((tag, w), rest) := by
  have hw := w.number_lt
  have htag := h.fits
  have hlow : (tag * 8 + w.number) % 8 = w.number := by omega
  have hhigh : (tag * 8 + w.number) / 8 = tag := by omega
  rw [readKey, h.varint.readVarint]
  dsimp only
  rw [if_neg (by omega), hlow, w.ofNumber?_number, hhigh]
  exact if_neg h.pos

theorem isKey_key {tag : Nat} (hpos : tag ≠ 0) (htag : tag < 2 ^ 29) (w : WireType) :
    IsKey tag w (key tag w) := by
  have hw := w.number_lt
  exact ⟨hpos, htag, isVarint_varint (by omega)⟩

theorem readKey_key {tag : Nat} (hpos : tag ≠ 0) (htag : tag < 2 ^ 29) (w : WireType)
    (rest : Bytes) : readKey (key tag w ++ rest) = .ok ((tag, w), rest) :=
  (isKey_key hpos htag w).read rest

/-! ## Bytes of a known count -/

theorem readBytes_append (taken rest : Bytes) :
    readBytes taken.length (taken ++ rest) = .ok (taken, rest) := by
  have henough : ¬ (taken ++ rest).length < taken.length := by simp
  rw [readBytes, if_neg henough, List.splitAt_eq, List.take_left, List.drop_left]

theorem length_littleEndian (count n : Nat) : (littleEndian count n).length = count := by
  induction count generalizing n with
  | zero => rfl
  | succ count ih => rw [littleEndian, List.length_cons, ih]

theorem ofLittleEndian_littleEndian {count n : Nat} (h : n < 256 ^ count) :
    ofLittleEndian (littleEndian count n) = n := by
  induction count generalizing n with
  | zero =>
    have hzero : n = 0 := by omega
    rw [hzero]
    rfl
  | succ count ih =>
    have hrest : n / 256 < 256 ^ count := by
      rw [Nat.pow_succ] at h
      omega
    have hlow : (n % 256).toUInt8.toNat = n % 256 := by
      change (n % 256) % 256 = n % 256
      omega
    rw [littleEndian, ofLittleEndian, ih hrest, hlow]
    omega

theorem readFixed_littleEndian {count n : Nat} (h : n < 256 ^ count) (rest : Bytes) :
    readFixed count (littleEndian count n ++ rest) = .ok (n, rest) := by
  have htaken := readBytes_append (littleEndian count n) rest
  rw [length_littleEndian] at htaken
  rw [readFixed, htaken]
  simp only [Except.map, ofLittleEndian_littleEndian h]

/-! ## Bytes behind their length -/

theorem readLength_withLength {payload : Bytes} (h : payload.length < 2 ^ 64) (rest : Bytes) :
    readLength (withLength payload ++ rest) = .ok (payload.length, payload ++ rest) := by
  have henough : ¬ (payload ++ rest).length < payload.length := by simp
  rw [readLength, withLength, List.append_assoc, readVarint_varint h]
  exact if_neg henough

theorem readText_textBytes {s : String} (h : (Text.encode s).length < 2 ^ 64) (rest : Bytes) :
    readText (textBytes s ++ rest) = .ok (s, rest) := by
  rw [readText, readDelimited, textBytes, readLength_withLength h]
  dsimp only
  rw [List.splitAt_eq, List.take_left, List.drop_left, Text.decode?_encode]

theorem length_withLength (payload : Bytes) :
    (withLength payload).length = (varint payload.length).length + payload.length :=
  List.length_append

/-! ## Signed integers -/

theorem int64Bits_lt (n : Int64) : int64Bits n < 2 ^ 64 := n.toUInt64.toNat_lt

theorem int64OfBits_int64Bits (n : Int64) : int64OfBits (int64Bits n) = n := by
  rw [int64OfBits, int64Bits]
  simp

theorem zigzag_lt (n : Int64) : zigzag n < 2 ^ 64 := by
  have hlow := n.le_toInt
  have hhigh := n.toInt_lt
  unfold zigzag
  dsimp only
  split_ifs with h <;> omega

theorem unzigzag_zigzag (n : Int64) : unzigzag (zigzag n) = n := by
  have hlow := n.le_toInt
  have hhigh := n.toInt_lt
  have hback : Int64.ofInt n.toInt = n := Int64.ofInt_toInt n
  unfold zigzag
  dsimp only
  split_ifs with h
  · have heven : 2 * n.toInt.toNat % 2 = 0 := by omega
    have hhalf : (2 * n.toInt.toNat / 2 : Nat) = n.toInt.toNat := by omega
    rw [unzigzag, if_pos heven, hhalf, Int.toNat_of_nonneg h, hback]
  · have hodd : ¬ (2 * n.toInt.natAbs - 1) % 2 = 0 := by omega
    have hhalf : -(((2 * n.toInt.natAbs - 1) / 2 : Nat) + 1 : Int) = n.toInt := by omega
    rw [unzigzag, if_neg hodd, hhalf, hback]

end EventTree.Wire
