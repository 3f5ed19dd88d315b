import EventTree.Text.Utf8
import Mathlib.Tactic.SplitIfs

/-!
# The order of texts and the order of their bytes

Texts are compared by code points. Their UTF-8 forms are compared byte by byte, a
proper prefix first. Both orders are the same: of two different characters the one
with the smaller code point has the smaller form at the first byte in which the forms
differ, whatever comes behind them.
-/
namespace EventTree.Text

/-- What the loop has left to do is the end of the array that it has not visited. -/
private theorem loop_of_data (data : List UInt8) {left : List UInt8} {bytes : ByteArray}
    (hdata : bytes.data.toList = data ++ left) (taken : List UInt8) :
    ByteArray.toList.loop bytes data.length taken = taken.reverse ++ left := by
  have hsize : bytes.size = data.length + left.length := by
    rw [← List.length_append, ← hdata]
    exact Array.length_toList.symm
  induction left generalizing data taken with
  | nil =>
    rw [ByteArray.toList.loop, if_neg (by simp [hsize]), List.append_nil]
  | cons b left ih =>
    have hb : bytes.get! data.length = b := by
      obtain ⟨array⟩ := bytes
      change array[data.length]! = b
      rw [← Array.getElem!_toList, hdata]
      simp
    have hrest := ih (data ++ [b]) (by simpa using hdata) (b :: taken) (by simp [hsize]; omega)
    rw [ByteArray.toList.loop, if_pos (by simp [hsize]), hb]
    simpa using hrest

theorem encode_eq_flatMap (s : String) : encode s = s.toList.flatMap String.utf8EncodeChar := by
  have hbytes : s.toUTF8 = s.toList.utf8Encode := by
    simp
  rw [encode, hbytes]
  exact loop_of_data [] List.toList_data_toByteArray []

theorem encode_eq_data (s : String) : encode s = s.toByteArray.data.toList := by
  rw [encode_eq_flatMap]
  have hbytes : s.toByteArray = s.toList.utf8Encode := by
    simp
  rw [hbytes]
  exact List.toList_data_toByteArray.symm

theorem length_encode (s : String) : (encode s).length = s.utf8ByteSize := by
  rw [encode_eq_data]
  rfl

/-- A text is read back from its bytes. -/
theorem decode?_encode (s : String) : decode? (encode s) = some s := by
  have hbytes : (⟨(encode s).toArray⟩ : ByteArray) = s.toByteArray := by
    rw [encode_eq_data]
  rw [decode?, hbytes]
  exact dif_pos s.isValidUTF8

theorem encode_of_decode? {bytes : Bytes} {s : String} (h : decode? bytes = some s) :
    encode s = bytes := by
  rw [decode?, String.fromUTF8?] at h
  split at h
  · cases h
    rw [encode_eq_data]
    exact List.toList_toArray
  · cases h

theorem encode_injective {s t : String} (h : encode s = encode t) : s = t := by
  have hs := decode?_encode s
  rw [h, decode?_encode] at hs
  exact (Option.some.inj hs).symm

/-! ## Forms of characters -/

theorem cons_lt_cons_of_lt {a b : Nat} {xs ys : Bytes} (hb : b < 256) (h : a < b) :
    UInt8.ofNat a :: xs < UInt8.ofNat b :: ys := by
  rw [List.cons_lt_cons_iff, UInt8.lt_iff_toNat_lt, UInt8.toNat_ofNat_of_lt' (Nat.lt_trans h hb),
    UInt8.toNat_ofNat_of_lt' hb]
  exact .inl h

theorem cons_lt_cons_of_le {a b : Nat} {xs ys : Bytes} (hb : b < 256) (hle : a ≤ b)
    (h : a = b → xs < ys) : UInt8.ofNat a :: xs < UInt8.ofNat b :: ys := by
  rcases Nat.lt_or_eq_of_le hle with hlt | rfl
  · exact cons_lt_cons_of_lt hb hlt
  · exact List.cons_lt_cons_iff.2 (.inr ⟨rfl, h rfl⟩)

/-- The form of a smaller character is smaller, whatever stands behind the forms. -/
theorem utf8EncodeChar_append_lt {c d : Char} (h : c < d) (xs ys : Bytes) :
    String.utf8EncodeChar c ++ xs < String.utf8EncodeChar d ++ ys := by
  have hlt : c.val.toNat < d.val.toNat := h
  have hd : d.val.toNat < 0x110000 := by
    rcases d.valid with h | h <;> omega
  simp only [String.utf8EncodeChar]
  generalize c.val.toNat = m at hlt
  generalize d.val.toNat = n at hlt hd
  -- A longer form begins with a greater byte; forms of one length differ first in the
  -- highest digit in which the code points do.
  split_ifs <;> simp only [List.cons_append, List.nil_append]
  · exact cons_lt_cons_of_lt (by omega) (by omega)
  · exact cons_lt_cons_of_lt (by omega) (by omega)
  · exact cons_lt_cons_of_lt (by omega) (by omega)
  · exact cons_lt_cons_of_lt (by omega) (by omega)
  · omega
  · refine cons_lt_cons_of_le (by omega) (by omega) fun _ => ?_
    exact cons_lt_cons_of_lt (by omega) (by omega)
  · exact cons_lt_cons_of_lt (by omega) (by omega)
  · exact cons_lt_cons_of_lt (by omega) (by omega)
  · omega
  · omega
  · refine cons_lt_cons_of_le (by omega) (by omega) fun _ => ?_
    refine cons_lt_cons_of_le (by omega) (by omega) fun _ => ?_
    exact cons_lt_cons_of_lt (by omega) (by omega)
  · exact cons_lt_cons_of_lt (by omega) (by omega)
  · omega
  · omega
  · omega
  · refine cons_lt_cons_of_le (by omega) (by omega) fun _ => ?_
    refine cons_lt_cons_of_le (by omega) (by omega) fun _ => ?_
    refine cons_lt_cons_of_le (by omega) (by omega) fun _ => ?_
    exact cons_lt_cons_of_lt (by omega) (by omega)

/-! ## Texts -/

theorem flatMap_encode_lt {cs ds : List Char} (h : cs < ds) :
    cs.flatMap String.utf8EncodeChar < ds.flatMap String.utf8EncodeChar := by
  induction cs generalizing ds with
  | nil =>
    cases ds with
    | nil => exact absurd h (List.lt_irrefl _)
    | cons d ds =>
      obtain ⟨b, bs, hd⟩ := List.exists_cons_of_ne_nil (String.utf8EncodeChar_ne_nil (c := d))
      rw [List.flatMap_cons, hd]
      exact List.nil_lt_cons b _
  | cons c cs ih =>
    cases ds with
    | nil => exact absurd h (List.not_lt_nil _)
    | cons d ds =>
      rw [List.flatMap_cons, List.flatMap_cons]
      rcases List.cons_lt_cons_iff.1 h with hcd | ⟨rfl, hrest⟩
      · exact utf8EncodeChar_append_lt hcd _ _
      · exact List.append_left_lt (ih hrest)

/-- A smaller text has the smaller UTF-8 form. -/
theorem encode_lt_encode {s t : String} (h : s < t) : encode s < encode t := by
  rw [encode_eq_flatMap, encode_eq_flatMap]
  exact flatMap_encode_lt h

end EventTree.Text
