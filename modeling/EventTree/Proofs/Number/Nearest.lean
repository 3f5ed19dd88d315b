import EventTree.Number.Binary
import Mathlib.Algebra.Order.Field.Basic
import Mathlib.Algebra.Order.Field.Rat
import Mathlib.Algebra.Order.Ring.Abs
import Mathlib.Algebra.Ring.Int.Parity
import Mathlib.Tactic.Linarith

/-!
# Nearest integers and nearest multiples

Rounding is described by a relation between a rational and an integer that does not say
how the integer is found: they are at most a half apart, and where they are just a half
apart the integer is even. A greater rational never has a smaller integer, so each has only
one. On a grid of multiples of a step the relation picks a multiple that is nearest, and an
even one where two are equally near.
-/
namespace EventTree.Number

/-- The integer is at most a half away, and even where it is just a half away. -/
structure NearestEven (x : ℚ) (n : ℤ) : Prop where
  close : |x - n| ≤ 1 / 2
  even : |x - n| = 1 / 2 → Even n

/-- A multiple of `step` than which no other lies nearer to `x`. -/
structure NearestMultiple (step x q : ℚ) : Prop where
  multiple : ∃ k : ℤ, q = k * step
  nearest : ∀ k : ℤ, |x - q| ≤ |x - k * step|

/-- Another multiple of `step` lies as near to `x` as `q` does. -/
def Tied (step x q : ℚ) : Prop := ∃ k : ℤ, k * step ≠ q ∧ |x - k * step| = |x - q|

/-- A magnitude under its sign. -/
def applySign {α : Type} [Neg α] (negative : Bool) (a : α) : α := if negative then -a else a

theorem applySign_mul (negative : Bool) (a b : ℚ) :
    applySign negative a * b = applySign negative (a * b) := by
  cases negative with
  | false => rfl
  | true => exact neg_mul a b

theorem cast_applySign (negative : Bool) (n : ℕ) :
    ((applySign negative (n : ℤ) : ℤ) : ℚ) = applySign negative (n : ℚ) := by
  cases negative <;> simp [applySign]

theorem even_applySign {negative : Bool} {n : ℕ} (h : Even (applySign negative (n : ℤ))) :
    Even n := by
  cases negative with
  | false => exact (Int.even_coe_nat n).1 h
  | true => exact (Int.even_coe_nat n).1 (even_neg.1 h)

namespace NearestEven
variable {x y : ℚ} {m n : ℤ}

theorem of_le (hle : (n : ℚ) ≤ x) (hclose : x - n ≤ 1 / 2) (heven : x - n = 1 / 2 → Even n) :
    NearestEven x n := by
  have habs : |x - n| = x - n := abs_of_nonneg (sub_nonneg.2 hle)
  constructor
  · rw [habs]
    exact hclose
  · rw [habs]
    exact heven

theorem neg (h : NearestEven x n) : NearestEven (-x) (-n) := by
  have habs : |-x - ((-n : ℤ) : ℚ)| = |x - n| := by
    rw [Int.cast_neg, neg_sub_neg, abs_sub_comm]
  exact ⟨habs ▸ h.close, fun hhalf => (h.even (habs ▸ hhalf)).neg⟩

theorem of_ge (hge : x ≤ n) (hclose : n - x ≤ 1 / 2) (heven : n - x = 1 / 2 → Even n) :
    NearestEven x n := by
  have hneg : NearestEven (-x) (-n) := by
    refine of_le ?_ ?_ ?_
    · rw [Int.cast_neg]
      exact neg_le_neg hge
    · rw [Int.cast_neg, neg_sub_neg]
      exact hclose
    · rw [Int.cast_neg, neg_sub_neg]
      exact fun hhalf => (heven hhalf).neg
  have hback := hneg.neg
  rwa [neg_neg, neg_neg] at hback

theorem applySign (h : NearestEven x n) (negative : Bool) :
    NearestEven (applySign negative x) (applySign negative n) := by
  cases negative with
  | false => exact h
  | true => exact h.neg

/-- Between two integers there is one midpoint, and it goes to only one of them. -/
theorem mono (hx : NearestEven x m) (hy : NearestEven y n) (h : x ≤ y) : m ≤ n := by
  by_contra hlt
  have hstep : (n : ℚ) + 1 ≤ m := by
    exact_mod_cast Int.add_one_le_iff.2 (not_le.1 hlt)
  have hm := abs_le.1 hx.close
  have hn := abs_le.1 hy.close
  have hxm : x - m = -(1 / 2) := by linarith
  have hyn : y - n = 1 / 2 := by linarith
  have hmEven : Even m := by
    apply hx.even
    rw [hxm, abs_neg]
    norm_num
  have hnEven : Even n := by
    apply hy.even
    rw [hyn]
    norm_num
  have hnext : m = n + 1 := by
    have hcast : (m : ℚ) = n + 1 := by linarith
    exact_mod_cast hcast
  rw [hnext] at hmEven
  exact (Int.even_add_one.1 hmEven) hnEven

/-- Two different integers are together at least one away. -/
theorem one_le_add_abs (x : ℚ) {k : ℤ} (hk : k ≠ n) : 1 ≤ |x - k| + |x - n| := by
  have hapart : (1 : ℚ) ≤ |(k : ℚ) - n| := by
    exact_mod_cast Int.one_le_abs (sub_ne_zero.2 hk)
  have htriangle : |(k : ℚ) - n| ≤ |x - k| + |x - n| := by
    have habs := abs_sub_le (k : ℚ) x n
    rwa [abs_sub_comm (k : ℚ) x] at habs
  exact hapart.trans htriangle

theorem le_abs_sub (h : NearestEven x n) (k : ℤ) : |x - n| ≤ |x - k| := by
  by_cases hk : k = n
  · rw [hk]
  · have hclose := h.close
    have hone := one_le_add_abs x hk
    linarith

theorem even_of_abs_eq (h : NearestEven x n) {k : ℤ} (hk : k ≠ n) (heq : |x - k| = |x - n|) :
    Even n := by
  apply h.even
  have hclose := h.close
  have hone := one_le_add_abs x hk
  linarith

end NearestEven

/-! ## Grids -/

section
variable {x step : ℚ} {n : ℤ}

theorem abs_sub_mul_step (hstep : 0 < step) (k : ℤ) :
    |x - k * step| = |x / step - k| * step := by
  have hx : x - k * step = (x / step - k) * step := by
    rw [sub_mul, div_mul_cancel₀ x hstep.ne']
  rw [hx, abs_mul, abs_of_pos hstep]

theorem NearestEven.nearestMultiple (h : NearestEven (x / step) n) (hstep : 0 < step) :
    NearestMultiple step x (n * step) where
  multiple := ⟨n, rfl⟩
  nearest := by
    intro k
    rw [abs_sub_mul_step hstep, abs_sub_mul_step hstep]
    exact mul_le_mul_of_nonneg_right (h.le_abs_sub k) hstep.le

theorem NearestEven.even_of_tied (h : NearestEven (x / step) n) (hstep : 0 < step)
    (htied : Tied step x (n * step)) : Even n := by
  obtain ⟨k, hk, heq⟩ := htied
  rw [abs_sub_mul_step hstep, abs_sub_mul_step hstep] at heq
  refine h.even_of_abs_eq ?_ (mul_right_cancel₀ hstep.ne' heq)
  rintro rfl
  exact hk rfl

end

/-! ## Rounding a ratio of naturals -/

theorem div_eq_add_rest (num : ℕ) {den : ℕ} (hden : 0 < den) :
    (num : ℚ) / den = (num / den : ℕ) + (num % den : ℕ) / den := by
  have hne : (den : ℚ) ≠ 0 := Nat.cast_ne_zero.2 hden.ne'
  rw [div_eq_iff hne, add_mul, div_mul_cancel₀ _ hne]
  exact_mod_cast (Nat.div_add_mod' num den).symm

theorem div_le_half_iff (r : ℕ) {den : ℕ} (hden : 0 < den) :
    (r : ℚ) / den ≤ 1 / 2 ↔ 2 * r ≤ den := by
  rw [div_le_div_iff₀ (Nat.cast_pos.2 hden) two_pos, one_mul, mul_comm]
  exact_mod_cast Iff.rfl

theorem half_le_div_iff (r : ℕ) {den : ℕ} (hden : 0 < den) :
    1 / 2 ≤ (r : ℚ) / den ↔ den ≤ 2 * r := by
  rw [div_le_div_iff₀ two_pos (Nat.cast_pos.2 hden), one_mul, mul_comm (r : ℚ)]
  exact_mod_cast Iff.rfl

theorem roundHalfEven_nearestEven (num : ℕ) {den : ℕ} (hden : 0 < den) :
    NearestEven (num / den) (roundHalfEven num den : ℤ) := by
  have hrest : num % den < den := Nat.mod_lt num hden
  unfold roundHalfEven
  rw [div_eq_add_rest num hden]
  generalize num / den = q
  generalize num % den = r at hrest
  have hnonneg : 0 ≤ (r : ℚ) / den := div_nonneg r.cast_nonneg den.cast_nonneg
  have hless : (r : ℚ) / den ≤ 1 := div_le_one_of_le₀ (Nat.cast_le.2 hrest.le) den.cast_nonneg
  have hbelow := div_le_half_iff r hden
  have habove := half_le_div_iff r hden
  simp only [Bool.or_eq_true, Bool.and_eq_true, decide_eq_true_eq, beq_iff_eq]
  split_ifs with hup
  · have hmore := habove.2 (by omega)
    refine .of_ge ?_ ?_ fun hhalf => ?_
    · push_cast
      linarith
    · push_cast
      linarith
    · push_cast at hhalf
      have htie := hbelow.1 (by linarith)
      rw [Int.even_iff]
      omega
  · have hmost := hbelow.2 (by omega)
    refine .of_le ?_ ?_ fun hhalf => ?_
    · push_cast
      linarith
    · push_cast
      linarith
    · push_cast at hhalf
      have htie := habove.1 (by linarith)
      rw [Int.even_iff]
      omega

theorem scale_pos {base : ℕ} (hbase : 0 < base) (num : ℕ) {den : ℕ} (hden : 0 < den)
    (exponent : ℤ) : 0 < (scale base num den exponent).2 := by
  unfold scale
  split
  · exact hden
  · exact Nat.mul_pos hden (Nat.pow_pos hbase)

theorem scale_ratio {base : ℕ} (hbase : 0 < base) (num den : ℕ) (exponent : ℤ) :
    ((scale base num den exponent).1 : ℚ) / (scale base num den exponent).2 =
      num / den * base ^ exponent := by
  have hne : (base : ℚ) ≠ 0 := Nat.cast_ne_zero.2 hbase.ne'
  unfold scale
  split
  · next hnonneg =>
    obtain ⟨k, rfl⟩ := Int.eq_ofNat_of_zero_le hnonneg
    rw [Int.toNat_natCast, Nat.pow_eq, Nat.cast_mul, Nat.cast_pow, zpow_natCast, mul_div_right_comm]
  · next hneg =>
    obtain ⟨k, hk⟩ := Int.eq_ofNat_of_zero_le (by omega : 0 ≤ -exponent)
    have hexponent : exponent = -(k : ℤ) := by omega
    rw [hk, hexponent, Int.toNat_natCast, Nat.pow_eq, Nat.cast_mul, Nat.cast_pow, zpow_neg,
      zpow_natCast, ← div_eq_mul_inv, div_div]

end EventTree.Number
