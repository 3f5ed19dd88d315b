import EventTree.Number.FixedPlaces
import Mathlib.Algebra.Ring.Parity
import Mathlib.Tactic.SplitIfs

/-!
# Decimal digits

What the digits of a number are, and what becomes of the number they stand for when zeros
are put in front.
-/
namespace EventTree.Number

theorem isDigit_decimalDigits {n : Nat} {c : Char} (h : c ∈ decimalDigits n) :
    c.isDigit = true :=
  Nat.isDigit_of_mem_toDigits (by decide) (by decide) h

theorem decimalDigits_ne_nil (n : Nat) : decimalDigits n ≠ [] := Nat.toDigits_ne_nil

theorem ofDigitChars_decimalDigits (n : Nat) : Nat.ofDigitChars 10 (decimalDigits n) 0 = n :=
  Nat.ofDigitChars_ten_toDigits

/-- Only zero begins with a zero. -/
theorem eq_zero_of_head?_decimalDigits {n : Nat} (h : (decimalDigits n).head? = some '0') :
    n = 0 := by
  induction n using Nat.strongRecOn with
  | ind n ih =>
    rw [decimalDigits, Nat.toDigits_eq_if (by decide)] at h
    split_ifs at h with hone
    · exact Nat.digitChar_eq_zero.1 (Option.some.inj h)
    · have hhead : (decimalDigits (n / 10)).head? = some '0' := by
        rw [decimalDigits]
        cases hmore : Nat.toDigits 10 (n / 10) with
        | nil => exact absurd hmore Nat.toDigits_ne_nil
        | cons c ds =>
          rw [hmore] at h
          exact h
      have hzero := ih (n / 10) (by omega) hhead
      omega

theorem decimalDigits_eq_of_zero {n : ℕ} (h : (decimalDigits n).head? = some '0') :
    decimalDigits n = ['0'] := by
  rw [eq_zero_of_head?_decimalDigits h]
  rfl

theorem le_ofDigitChars (ds : List Char) (init : Nat) : init ≤ Nat.ofDigitChars 10 ds init := by
  induction ds generalizing init with
  | nil => exact Nat.le_refl init
  | cons c ds ih =>
    rw [Nat.ofDigitChars_cons]
    have hle := ih (10 * init + (c.toNat - '0'.toNat))
    omega

/-! ## Zeros in front -/

theorem isDigit_padLeft {width : Nat} {ds : List Char} (hds : ∀ c ∈ ds, c.isDigit = true)
    {c : Char} (h : c ∈ padLeft width ds) : c.isDigit = true := by
  rcases List.mem_append.1 h with hzero | hmem
  · rw [List.eq_of_mem_replicate hzero]
    rfl
  · exact hds c hmem

theorem length_padLeft {width : Nat} {ds : List Char} (h : ds.length ≤ width) :
    (padLeft width ds).length = width := by
  rw [padLeft, List.length_append, List.length_replicate]
  omega

theorem ofDigitChars_padLeft (width : Nat) (ds : List Char) :
    Nat.ofDigitChars 10 (padLeft width ds) 0 = Nat.ofDigitChars 10 ds 0 := by
  rw [padLeft, Nat.ofDigitChars_append, Nat.ofDigitChars_replicate_zero, Nat.mul_zero]

/-! ## The last digit -/

theorem even_digit_iff {c : Char} (h : c.isDigit = true) :
    Even (c.toNat - '0'.toNat) ↔ c ∈ ['0', '2', '4', '6', '8'] := by
  have hrange : 48 ≤ c.toNat ∧ c.toNat ≤ 57 := by
    rw [Char.isDigit, Bool.and_eq_true, decide_eq_true_eq, decide_eq_true_eq] at h
    exact ⟨UInt32.le_iff_toNat_le.1 h.1, UInt32.le_iff_toNat_le.1 h.2⟩
  simp only [List.mem_cons, List.not_mem_nil, or_false, ← Char.toNat_inj, Nat.even_iff]
  change (c.toNat - 48) % 2 = 0 ↔
    c.toNat = 48 ∨ c.toNat = 50 ∨ c.toNat = 52 ∨ c.toNat = 54 ∨ c.toNat = 56
  omega

/-- Whether a number is even is seen from its last digit. -/
theorem even_ofDigitChars_iff {ds : List Char} (hne : ds ≠ [])
    (h : ∀ c ∈ ds, c.isDigit = true) :
    Even (Nat.ofDigitChars 10 ds 0) ↔ ds.getLast hne ∈ ['0', '2', '4', '6', '8'] := by
  have hsplit : Nat.ofDigitChars 10 ds 0 =
      10 * Nat.ofDigitChars 10 ds.dropLast 0 + ((ds.getLast hne).toNat - '0'.toNat) := by
    conv_lhs => rw [← List.dropLast_concat_getLast hne]
    rw [Nat.ofDigitChars_append, Nat.ofDigitChars_cons, Nat.ofDigitChars_nil]
  have hten : Even (10 * Nat.ofDigitChars 10 ds.dropLast 0) :=
    (by decide : Even 10).mul_right _
  rw [hsplit, Nat.even_add, iff_true_left hten]
  exact even_digit_iff (h _ (List.getLast_mem hne))

end EventTree.Number
