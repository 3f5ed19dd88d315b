import EventTree.Proofs.Number.Nearest

/-!
# The number that a pattern of 64 bits denotes

A pattern has three fields: the sign, eleven bits of exponent and 52 bits of fraction. Unless
the exponent has all its bits set, the pattern denotes a rational. Here it is read off the
fields; the decoder gives it as an integral significand and a power of two.
-/
namespace EventTree.Number.Binary64

def signBit (x : Binary64) : Bool := x.bits.toNat.testBit 63

def exponentField (x : Binary64) : ℕ := x.bits.toNat / 2 ^ 52 % 2 ^ 11

def fractionField (x : Binary64) : ℕ := x.bits.toNat % 2 ^ 52

/-- A fraction of one to two on the scale of the exponent. With the least exponent it is a
fraction of zero to one instead, on the scale of the next. -/
def magnitude (x : Binary64) : ℚ :=
  if x.exponentField = 0 then x.fractionField / 2 ^ 52 * 2 ^ (-1022 : ℤ)
  else (1 + x.fractionField / 2 ^ 52) * 2 ^ ((x.exponentField : ℤ) - 1023)

/-- The number that the bits denote if the exponent field is less than 2047. -/
def rational (x : Binary64) : ℚ := applySign x.signBit x.magnitude

theorem decode_sign (x : Binary64) :
    (x.bits.toNat / BinaryFormat.binary64.signBit % 2 == 1) = x.signBit := by
  rw [signBit, Nat.testBit_eq_decide_div_mod_eq]
  rfl

theorem decode_exponentField (x : Binary64) :
    (x.bits.toNat >>> BinaryFormat.binary64.fractionBits) %
      (1 <<< BinaryFormat.binary64.exponentBits) = x.exponentField := by
  rw [Nat.shiftRight_eq_div_pow]
  rfl

/-- Where the significand is taken as an integer, the scale is finer by 52 bits. -/
theorem div_mul_scale (a : ℚ) (e : ℤ) : a / 2 ^ 52 * 2 ^ e = a * 2 ^ (e - 52) := by
  rw [zpow_sub₀ two_ne_zero, zpow_ofNat, div_mul_eq_mul_div, mul_div_assoc]

/-- The decoder finds the sign, and a significand and an exponent of the magnitude. -/
theorem value_of_finite {x : Binary64} (hfinite : x.exponentField ≠ 2047) :
    ∃ (significand : ℕ) (exponent : ℤ), x.value = .finite x.signBit significand exponent ∧
      x.magnitude = significand * 2 ^ exponent := by
  have hmin : BinaryFormat.binary64.minExponent = -1074 := rfl
  have hfield : ¬(x.exponentField == (1 <<< BinaryFormat.binary64.exponentBits) - 1) = true := by
    rw [beq_iff_eq]
    exact hfinite
  unfold value BinaryFormat.decode
  rw [decode_sign, decode_exponentField]
  dsimp only
  rw [if_neg hfield, hmin]
  by_cases hzero : x.exponentField = 0
  · refine ⟨x.fractionField, -1074, ?_, ?_⟩
    · rw [hzero]
      rfl
    · rw [magnitude, if_pos hzero, div_mul_scale]
      norm_num
  · refine ⟨2 ^ 52 + x.fractionField, x.exponentField - 1075, ?_, ?_⟩
    · have hexponent : -1074 + (x.exponentField : ℤ) - 1 = x.exponentField - 1075 := by omega
      rw [if_neg (mt beq_iff_eq.1 hzero), hexponent]
      rfl
    · have hone : 1 + (x.fractionField : ℚ) / 2 ^ 52 =
          ((2 ^ 52 + x.fractionField : ℕ) : ℚ) / 2 ^ 52 := by
        rw [Nat.cast_add, add_div, Nat.cast_pow, Nat.cast_ofNat, div_self (by norm_num)]
      have hscale : (x.exponentField : ℤ) - 1023 - 52 = x.exponentField - 1075 := by omega
      rw [magnitude, if_neg hzero, hone, div_mul_scale, hscale]

end EventTree.Number.Binary64
