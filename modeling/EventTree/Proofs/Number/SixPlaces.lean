import EventTree.Proofs.Number.Digits
import EventTree.Proofs.Number.Fields
import EventTree.Tree.Content
import Mathlib.Tactic.Ring

/-!
# Numbers with six decimal places

A text with six places is taken here as what a reader makes of it: a sign or none, digits, a
point and six digits, which name a rational. No other such reading of a text exists. What is
shown of a finite number names a multiple of a millionth that is nearest to it, of two the
one that ends with an even digit, and has the sign of the number even if all its digits are
zeros.
-/
namespace EventTree.Number

def millionth : ℚ := 1 / 10 ^ 6

theorem millionth_pos : 0 < millionth := by
  rw [millionth]
  norm_num

/-- A sign or none, the digits in front of the point, of which only a single one may begin
with a zero, and six digits behind it. -/
@[ext]
structure SixPlaces where
  negative : Bool
  whole : List Char
  places : List Char
  whole_isDigit : ∀ c ∈ whole, c.isDigit = true
  whole_ne_nil : whole ≠ []
  whole_eq_of_zero : whole.head? = some '0' → whole = ['0']
  places_isDigit : ∀ c ∈ places, c.isDigit = true
  length_places : places.length = 6

namespace SixPlaces

def chars (t : SixPlaces) : List Char :=
  (if t.negative then ['-'] else []) ++ (t.whole ++ '.' :: t.places)

def text (t : SixPlaces) : String := .ofList t.chars

/-- The rational that the digits name without the sign. -/
def magnitude (t : SixPlaces) : ℚ :=
  Nat.ofDigitChars 10 t.whole 0 + Nat.ofDigitChars 10 t.places 0 / 10 ^ 6

def rational (t : SixPlaces) : ℚ := applySign t.negative t.magnitude

theorem places_ne_nil (t : SixPlaces) : t.places ≠ [] :=
  List.ne_nil_of_length_eq_add_one t.length_places

def lastDigit (t : SixPlaces) : Char := t.places.getLast t.places_ne_nil

/-! ## One reading of a text -/

theorem takeWhile_isDigit {ds : List Char} (h : ∀ c ∈ ds, c.isDigit = true) (rest : List Char) :
    (ds ++ '.' :: rest).takeWhile Char.isDigit = ds := by
  rw [List.takeWhile_append_of_pos h, List.takeWhile_cons_of_neg (by decide), List.append_nil]

/-- The sign is seen from the first character, which is a digit if there is none. -/
theorem head?_chars (t : SixPlaces) : t.chars.head? = some '-' ↔ t.negative = true := by
  obtain ⟨c, ds, hwhole⟩ := List.exists_cons_of_ne_nil t.whole_ne_nil
  have hdigit := t.whole_isDigit c (hwhole ▸ List.mem_cons_self)
  rw [chars, hwhole]
  cases t.negative with
  | true => exact iff_of_true rfl rfl
  | false =>
    refine iff_of_false (fun hhead => ?_) Bool.false_ne_true
    cases Option.some.inj hhead
    cases hdigit

theorem text_injective {s t : SixPlaces} (h : s.text = t.text) : s = t := by
  have hchars : s.chars = t.chars := String.ofList_injective h
  have hnegative : s.negative = t.negative := by
    rw [Bool.eq_iff_iff, ← s.head?_chars, ← t.head?_chars, hchars]
  rw [chars, chars, hnegative, List.append_cancel_left_eq] at hchars
  have hwhole : s.whole = t.whole := by
    rw [← takeWhile_isDigit s.whole_isDigit s.places, hchars, takeWhile_isDigit t.whole_isDigit]
  rw [hwhole, List.append_cancel_left_eq, List.cons_inj_right] at hchars
  exact SixPlaces.ext hnegative hwhole hchars

/-! ## The text of a count of millionths -/

theorem length_decimalDigits_mod (n : ℕ) : (decimalDigits (n % 1000000)).length ≤ 6 :=
  (Nat.length_toDigits_le_iff (by decide) (by decide)).2 (Nat.mod_lt n (by decide))

def ofMillionths (negative : Bool) (n : ℕ) : SixPlaces where
  negative
  whole := decimalDigits (n / 1000000)
  places := padLeft 6 (decimalDigits (n % 1000000))
  whole_isDigit := fun _ => isDigit_decimalDigits
  whole_ne_nil := decimalDigits_ne_nil _
  whole_eq_of_zero := decimalDigits_eq_of_zero
  places_isDigit := fun _ => isDigit_padLeft fun _ => isDigit_decimalDigits
  length_places := length_padLeft (length_decimalDigits_mod n)

section
variable (negative : Bool) (n : ℕ)

theorem text_ofMillionths :
    (ofMillionths negative n).text = .ofList (signed negative (millionthsText n)) := by
  cases negative <;> rfl

theorem ofDigitChars_places :
    Nat.ofDigitChars 10 (ofMillionths negative n).places 0 = n % 1000000 := by
  rw [ofMillionths, ofDigitChars_padLeft, ofDigitChars_decimalDigits]

theorem magnitude_ofMillionths : (ofMillionths negative n).magnitude = n * millionth := by
  have hwhole : Nat.ofDigitChars 10 (ofMillionths negative n).whole 0 = n / 1000000 :=
    ofDigitChars_decimalDigits _
  have hparts : (n : ℚ) = (n / 1000000 : ℕ) * 1000000 + (n % 1000000 : ℕ) := by
    exact_mod_cast (Nat.div_add_mod' n 1000000).symm
  rw [magnitude, hwhole, ofDigitChars_places, millionth]
  linarith

theorem rational_ofMillionths :
    (ofMillionths negative n).rational = (applySign negative (n : ℤ) : ℤ) * millionth := by
  rw [cast_applySign, applySign_mul, rational, magnitude_ofMillionths]
  rfl

theorem lastDigit_ofMillionths (h : Even n) :
    (ofMillionths negative n).lastDigit ∈ ['0', '2', '4', '6', '8'] := by
  rw [lastDigit, ← even_ofDigitChars_iff _ (places_isDigit _), ofDigitChars_places]
  rw [Nat.even_iff] at h ⊢
  omega

end

end SixPlaces

/-! ## The text of a finite value -/

theorem millionths_nearestEven (significand : ℕ) (exponent : ℤ) :
    NearestEven (significand * 2 ^ exponent / millionth) (millionths significand exponent : ℤ) := by
  have hrounded := roundHalfEven_nearestEven (scale 2 (significand * 1000000) 1 exponent).1
    (scale_pos two_pos (significand * 1000000) one_pos exponent)
  rw [scale_ratio two_pos] at hrounded
  have hvalue : ((significand * 1000000 : ℕ) : ℚ) / (1 : ℕ) * (2 : ℕ) ^ exponent =
      significand * 2 ^ exponent / millionth := by
    rw [millionth]
    push_cast
    ring
  rw [hvalue] at hrounded
  exact hrounded

theorem Binary64.fixedText_of_finite {x : Binary64} (hfinite : x.exponentField ≠ 2047) :
    ∃ n : ℕ, x.fixedText = (SixPlaces.ofMillionths x.signBit n).text ∧
      NearestEven (x.rational / millionth) (applySign x.signBit (n : ℤ)) := by
  obtain ⟨significand, exponent, hvalue, hmagnitude⟩ := value_of_finite hfinite
  refine ⟨millionths significand exponent, ?_, ?_⟩
  · rw [fixedText, hvalue, SixPlaces.text_ofMillionths]
  · have hrounded := (millionths_nearestEven significand exponent).applySign x.signBit
    rwa [← hmagnitude, div_eq_mul_inv, ← applySign_mul, ← div_eq_mul_inv] at hrounded

/-- There is only one reading of the text, that of the count that rounding gives. -/
theorem SixPlaces.eq_of_fixedText {x : Binary64} {t : SixPlaces}
    (hfinite : x.exponentField ≠ 2047) (h : x.fixedText = t.text) :
    ∃ n : ℕ, t = .ofMillionths x.signBit n ∧
      NearestEven (x.rational / millionth) (applySign x.signBit (n : ℤ)) := by
  obtain ⟨n, hcount, hrounded⟩ := Binary64.fixedText_of_finite hfinite
  exact ⟨n, text_injective (h.symm.trans hcount), hrounded⟩

/-- The text has the sign of the number and names a nearest multiple of a millionth, of two
the one that ends with an even digit. -/
structure SixPlaces.Rounds (t : SixPlaces) (x : Binary64) : Prop where
  sign : t.negative = x.signBit
  nearest : NearestMultiple millionth x.rational t.rational
  even : Tied millionth x.rational t.rational → t.lastDigit ∈ ['0', '2', '4', '6', '8']

theorem SixPlaces.rounds_ofMillionths {x : Binary64} {n : ℕ}
    (h : NearestEven (x.rational / millionth) (applySign x.signBit (n : ℤ))) :
    (ofMillionths x.signBit n).Rounds x where
  sign := rfl
  nearest := by
    rw [rational_ofMillionths]
    exact h.nearestMultiple millionth_pos
  even := by
    intro htied
    rw [rational_ofMillionths] at htied
    exact lastDigit_ofMillionths _ _ (even_applySign (h.even_of_tied millionth_pos htied))

/-- A finite number is shown with six places, correctly rounded: no multiple of a millionth
is nearer, of two that are equally near it is the even one, and the sign is that of the
number also where only zeros are left. A greater number is never shown as less. The files of
the two numbers of an event hold this text unless an attribute has the same name. -/
theorem numbers_correctly_rounded :
    (∀ e : Event,
      (e.attributes.get? "Metric" = none → e.fileText? "Metric" = some e.metric.fixedText) ∧
      (e.attributes.get? "Ttl" = none → e.fileText? "Ttl" = some e.ttl.fixedText)) ∧
    (∀ x : Binary64, x.exponentField ≠ 2047 → ∃ t : SixPlaces, x.fixedText = t.text) ∧
    (∀ (x : Binary64) (t : SixPlaces), x.exponentField ≠ 2047 → x.fixedText = t.text →
      t.Rounds x) ∧
    ∀ (x y : Binary64) (s t : SixPlaces), x.exponentField ≠ 2047 → y.exponentField ≠ 2047 →
      x.fixedText = s.text → y.fixedText = t.text → x.rational ≤ y.rational →
      s.rational ≤ t.rational := by
  refine ⟨fun e => ⟨fun hnone => ?_, fun hnone => ?_⟩, ?_, ?_, ?_⟩
  · rw [Event.fileText?, if_neg (by decide), hnone]
    rfl
  · rw [Event.fileText?, if_neg (by decide), hnone]
    rfl
  · intro x hfinite
    obtain ⟨n, hcount, -⟩ := Binary64.fixedText_of_finite hfinite
    exact ⟨_, hcount⟩
  · intro x t hfinite htext
    obtain ⟨n, rfl, hrounded⟩ := SixPlaces.eq_of_fixedText hfinite htext
    exact SixPlaces.rounds_ofMillionths hrounded
  · intro x y s t hx hy hs ht hle
    obtain ⟨m, rfl, hm⟩ := SixPlaces.eq_of_fixedText hx hs
    obtain ⟨n, rfl, hn⟩ := SixPlaces.eq_of_fixedText hy ht
    have hcounts := hm.mono hn (div_le_div_of_nonneg_right hle millionth_pos.le)
    rw [SixPlaces.rational_ofMillionths, SixPlaces.rational_ofMillionths]
    exact mul_le_mul_of_nonneg_right (Int.cast_le.2 hcounts) millionth_pos.le

/-- A negative number between two millionths, and the greatest negative number there is. -/
theorem numbers_correctly_rounded_of_midpoint :
    let e : Event := { metric := ⟨0xBF80000000000000⟩, ttl := ⟨0x8000000000000001⟩ }
    let s : SixPlaces := .ofMillionths true 7812
    let t : SixPlaces := .ofMillionths true 0
    e.fileText? "Metric" = some "-0.007812" ∧ e.fileText? "Ttl" = some "-0.000000" ∧
      s.text = "-0.007812" ∧ t.text = "-0.000000" ∧
      Tied millionth e.metric.rational s.rational ∧ s.Rounds e.metric ∧ t.Rounds e.ttl ∧
      e.metric.rational ≤ e.ttl.rational ∧ s.rational ≤ t.rational := by
  intro e s t
  obtain ⟨hfiles, -, hrounds, hmono⟩ := numbers_correctly_rounded
  have hx : e.metric.exponentField ≠ 2047 := by decide +kernel
  have hy : e.ttl.exponentField ≠ 2047 := by decide +kernel
  have hs : e.metric.fixedText = s.text := by decide +kernel
  have ht : e.ttl.fixedText = t.text := by decide +kernel
  have hmetric : e.metric.rational = -(1 / 128) := by
    have hsign : e.metric.signBit = true := by decide +kernel
    have hfield : e.metric.exponentField = 1016 := by decide +kernel
    have hfraction : e.metric.fractionField = 0 := by decide +kernel
    rw [Binary64.rational, Binary64.magnitude, hsign, hfield, hfraction, applySign]
    norm_num
  have httl : -(1 / 2 ^ 52) ≤ e.ttl.rational := by
    have hsign : e.ttl.signBit = true := by decide +kernel
    have hfield : e.ttl.exponentField = 0 := by decide +kernel
    have hfraction : e.ttl.fractionField = 1 := by decide +kernel
    have hscale : (2 : ℚ) ^ (-1022 : ℤ) ≤ 1 := zpow_le_one_of_nonpos₀ one_le_two (by decide)
    rw [Binary64.rational, Binary64.magnitude, hsign, hfield, hfraction, applySign, if_pos rfl,
      if_pos rfl, Nat.cast_one]
    exact neg_le_neg (mul_le_of_le_one_right (by norm_num) hscale)
  have hle : e.metric.rational ≤ e.ttl.rational := by
    rw [hmetric]
    exact le_trans (by norm_num) httl
  refine ⟨?_, ?_, by decide +kernel, by decide +kernel, ?_, hrounds _ _ hx hs, hrounds _ _ hy ht,
    hle, hmono _ _ _ _ hx hy hs ht hle⟩
  · rw [(hfiles e).1 rfl]
    decide +kernel
  · rw [(hfiles e).2 rfl]
    decide +kernel
  · refine ⟨-7813, ?_, ?_⟩
    · rw [SixPlaces.rational_ofMillionths, applySign, millionth]
      norm_num
    · rw [hmetric, SixPlaces.rational_ofMillionths, applySign, millionth]
      norm_num [abs_of_pos, abs_of_neg]

/-- A carry through all the nines gives one more digit in front of the point. -/
example : (⟨0x4023FFFFFFFFFFFF⟩ : Binary64).fixedText = "10.000000" := by decide +kernel

end EventTree.Number
