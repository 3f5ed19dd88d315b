import EventTree.Event.Json
import EventTree.Proofs.Number.Digits
import Mathlib.Tactic.SplitIfs

/-!
# Numbers end where they were written to end

The reader of a number takes what could belong to one, so what a text of a number means
depends on what stands behind it. A comma and a brace cannot belong to a number. In front
of these a number that was read to the end of its text is read as before, and they are left.
-/
namespace EventTree
open Json Number

namespace Json

/-- What stands here does not go on with a number. -/
structure EndsNumber (cs : List Char) : Prop where
  digit : startsWithDigit cs = false
  exponent : startsWithExponent cs = false
  point : cs.head? ≠ some '.'

theorem endsNumber_comma (cs : List Char) : EndsNumber (',' :: cs) := by
  constructor <;> simp [startsWithDigit, startsWithExponent, isDigit]

theorem endsNumber_brace (cs : List Char) : EndsNumber ('\x7d' :: cs) := by
  constructor <;> simp [startsWithDigit, startsWithExponent, isDigit]

/-- What the reader makes of a text it also makes of it in front of `tail`. -/
def StopsAt {α : Type} (tail : List Char) (read : List Char → Except Fault (α × List Char)) :
    Prop :=
  ∀ cs a rest, read cs = .ok (a, rest) → read (cs ++ tail) = .ok (a, rest ++ tail)

section
variable {tail : List Char}

theorem startsWithDigit_append (h : EndsNumber tail) (cs : List Char) :
    startsWithDigit (cs ++ tail) = startsWithDigit cs := by
  cases cs with
  | nil => exact h.digit
  | cons c cs => rfl

theorem startsWithExponent_append (h : EndsNumber tail) (cs : List Char) :
    startsWithExponent (cs ++ tail) = startsWithExponent cs := by
  cases cs with
  | nil => exact h.exponent
  | cons c cs => rfl

theorem head?_append_point (h : EndsNumber tail) (cs : List Char) :
    (cs ++ tail).head? = some '.' ↔ cs.head? = some '.' := by
  cases cs with
  | nil => simp [h.point]
  | cons c cs => rfl

theorem takeWhile_isDigit_append (h : EndsNumber tail) (cs : List Char) :
    (cs ++ tail).takeWhile isDigit = cs.takeWhile isDigit := by
  induction cs with
  | nil =>
    cases tail with
    | nil => rfl
    | cons c tail => exact List.takeWhile_cons_of_neg (ne_true_of_eq_false h.digit)
  | cons c cs ih => simp [List.takeWhile_cons, ih]

theorem dropWhile_isDigit_append (h : EndsNumber tail) (cs : List Char) :
    (cs ++ tail).dropWhile isDigit = cs.dropWhile isDigit ++ tail := by
  induction cs with
  | nil =>
    cases tail with
    | nil => rfl
    | cons c tail => exact List.dropWhile_cons_of_neg (ne_true_of_eq_false h.digit)
  | cons c cs ih =>
    simp only [List.cons_append, List.dropWhile_cons, ih]
    split_ifs <;> rfl

theorem takeDigits_append (h : EndsNumber tail) (limit significand count : Nat) (cs : List Char) :
    takeDigits limit significand count (cs ++ tail) =
      ((takeDigits limit significand count cs).1, (takeDigits limit significand count cs).2.1,
        (takeDigits limit significand count cs).2.2 ++ tail) := by
  induction cs generalizing significand count with
  | nil =>
    cases tail with
    | nil => rfl
    | cons c tail =>
      have hc : isDigit c = false := h.digit
      simp [takeDigits, hc]
  | cons c cs ih =>
    simp only [List.cons_append, takeDigits, ih]
    split_ifs <;> rfl

theorem assemble_stops (negative : Bool) (significand : Nat) (exponent : Int) :
    StopsAt tail (assemble negative significand exponent) := by
  intro cs n rest h
  unfold assemble at h ⊢
  split at h
  · cases h
    rfl
  · cases h

theorem readExponentSign_append (c : Char) (cs : List Char) :
    readExponentSign (c :: cs ++ tail) =
      ((readExponentSign (c :: cs)).1, (readExponentSign (c :: cs)).2 ++ tail) := by
  by_cases hplus : c = '+'
  · subst hplus
    rfl
  · by_cases hminus : c = '-'
    · subst hminus
      rfl
    · simp [readExponentSign, hplus, hminus]

theorem readExponent_stops (h : EndsNumber tail) (negative : Bool) (significand : Nat)
    (start : Int) : StopsAt tail (readExponent negative significand start) := by
  intro cs n rest hread
  cases cs with
  | nil => cases hread
  | cons c cs =>
    unfold readExponent at hread ⊢
    rw [readExponentSign_append]
    generalize readExponentSign (c :: cs) = sign at hread ⊢
    obtain ⟨negativeExponent, digits⟩ := sign
    cases digits with
    | nil => cases hread
    | cons d digits =>
      simp only [List.cons_append, takeDigits_append h, startsWithDigit_append h,
        dropWhile_isDigit_append h] at hread ⊢
      split_ifs at hread ⊢ with hdigit hover hlarge
      · cases hread
      · cases hread
      · cases hread
        rfl
      all_goals exact assemble_stops _ _ _ _ _ _ hread

theorem finishFloat_stops (h : EndsNumber tail) (negative : Bool) (significand : Nat)
    (exponent : Int) : StopsAt tail (finishFloat negative significand exponent) := by
  intro cs n rest hread
  unfold finishFloat at hread ⊢
  rw [startsWithExponent_append h]
  split_ifs at hread ⊢ with hexponent
  · cases cs with
    | nil => cases hexponent
    | cons c cs => exact readExponent_stops h _ _ _ _ _ _ hread
  · exact assemble_stops _ _ _ _ _ _ hread

theorem readFraction_stops (h : EndsNumber tail) (negative : Bool) (significand : Nat)
    (exponent : Int) : StopsAt tail (readFraction negative significand exponent) := by
  intro cs n rest hread
  unfold readFraction at hread ⊢
  rw [takeDigits_append h]
  generalize takeDigits maxSignificand significand 0 cs = taken at hread ⊢
  obtain ⟨digits, count, behind⟩ := taken
  simp only [startsWithDigit_append h, dropWhile_isDigit_append h] at hread ⊢
  by_cases hmore : startsWithDigit behind = true
  · rw [if_pos hmore] at hread ⊢
    exact finishFloat_stops h _ _ _ _ _ _ hread
  · rw [if_neg hmore] at hread ⊢
    by_cases hnone : (count == 0) = true
    · rw [if_pos hnone] at hread
      split at hread <;> cases hread
    · rw [if_neg hnone] at hread ⊢
      exact finishFloat_stops h _ _ _ _ _ _ hread

theorem readAfterWhole_stops (h : EndsNumber tail) (negative : Bool) (significand dropped : Nat) :
    StopsAt tail (readAfterWhole negative significand dropped) := by
  intro cs n rest hread
  by_cases hpoint : cs.head? = some '.'
  · cases cs with
    | nil => cases hpoint
    | cons c cs =>
      cases hpoint
      exact readFraction_stops h _ _ _ _ _ _ hread
  · have hplain (cs : List Char) (hcs : cs.head? ≠ some '.') :
        readAfterWhole negative significand dropped cs =
          finishFloat negative significand dropped cs := by
      unfold readAfterWhole
      split
      · exact absurd rfl hcs
      · rfl
    rw [hplain _ hpoint] at hread
    rw [hplain _ (mt (head?_append_point h cs).1 hpoint)]
    exact finishFloat_stops h _ _ _ _ _ _ hread

theorem readNumeral_stops (h : EndsNumber tail) (negative : Bool) :
    StopsAt tail (readNumeral negative) := by
  intro cs n rest hread
  cases cs with
  | nil => cases hread
  | cons c cs =>
    unfold readNumeral at hread ⊢
    simp only [List.cons_append, takeDigits_append h, startsWithDigit_append h] at hread ⊢
    generalize takeDigits maxSignificand (digitValue c) 0 cs = taken at hread ⊢
    obtain ⟨significand, count, behind⟩ := taken
    simp only [beq_iff_eq, Bool.or_eq_true, head?_append_point h, startsWithExponent_append h,
      takeWhile_isDigit_append h, dropWhile_isDigit_append h] at hread ⊢
    split_ifs at hread ⊢ with hdigit hzero hmore hfloat hpositive hfits
    · cases hread
    · cases hread
    · exact readAfterWhole_stops h _ _ _ _ _ _ hread
    · exact readAfterWhole_stops h _ _ _ _ _ _ hread
    · cases hread
      rfl
    · cases hread
      rfl
    · cases hread
      rfl

end

/-! ## Decimal digits -/

theorem isDigit_of_mem_decimalDigits {n : Nat} {c : Char} (h : c ∈ decimalDigits n) :
    isDigit c = true := by
  have hdigit := isDigit_decimalDigits h
  simpa [isDigit, Char.isDigit, Char.le_def] using hdigit

theorem decimalDigits_cons (n : Nat) :
    ∃ c ds, decimalDigits n = c :: ds ∧ isDigit c = true ∧ (c = '0' → n = 0) := by
  cases hdigits : decimalDigits n with
  | nil => exact absurd hdigits (decimalDigits_ne_nil n)
  | cons c ds =>
    refine ⟨c, ds, rfl, ?_, ?_⟩
    · apply isDigit_of_mem_decimalDigits (n := n)
      rw [hdigits]
      exact List.mem_cons_self
    · rintro rfl
      apply eq_zero_of_head?_decimalDigits
      rw [hdigits]
      rfl

theorem takeDigits_eq {limit : Nat} {ds : List Char} (hdigits : ∀ c ∈ ds, isDigit c = true)
    {significand : Nat} (hlimit : Nat.ofDigitChars 10 ds significand ≤ limit) (count : Nat) :
    takeDigits limit significand count ds =
      (Nat.ofDigitChars 10 ds significand, count + ds.length, []) := by
  induction ds generalizing significand count with
  | nil => rfl
  | cons c ds ih =>
    have hvalue : significand * 10 + digitValue c = 10 * significand + (c.toNat - '0'.toNat) := by
      rw [digitValue, Nat.mul_comm]
    rw [Nat.ofDigitChars_cons, ← hvalue] at hlimit ⊢
    have hfits : (isDigit c && decide (significand * 10 + digitValue c ≤ limit)) = true := by
      rw [hdigits c List.mem_cons_self, Bool.true_and, decide_eq_true_eq]
      exact Nat.le_trans (le_ofDigitChars ds _) hlimit
    rw [takeDigits, if_pos hfits, ih (fun d hd => hdigits d (List.mem_cons_of_mem c hd)) hlimit,
      List.length_cons, Nat.add_assoc, Nat.add_comm 1]

/-- The digits of a number of 64 bits are read as that number, and all of them. -/
theorem takeDigits_decimalDigits {n : Nat} (hn : n ≤ maxSignificand) {c : Char} {ds : List Char}
    (hdigits : decimalDigits n = c :: ds) :
    takeDigits maxSignificand (digitValue c) 0 ds = (n, ds.length, []) := by
  have hvalue : Nat.ofDigitChars 10 (c :: ds) 0 = n := by
    rw [← hdigits, ofDigitChars_decimalDigits]
  rw [Nat.ofDigitChars_cons, Nat.mul_zero, Nat.zero_add] at hvalue
  change Nat.ofDigitChars 10 ds (digitValue c) = n at hvalue
  have hdigit (d : Char) (hd : d ∈ ds) : isDigit d = true := by
    apply isDigit_of_mem_decimalDigits (n := n)
    rw [hdigits]
    exact List.mem_cons_of_mem c hd
  rw [← hvalue] at hn
  rw [takeDigits_eq hdigit hn, hvalue, Nat.zero_add]

/-- Behind its sign a number of 64 bits is read as an integer, or as a float if the sign leaves
it none. -/
theorem readNumeral_decimalDigits {tail : List Char} (h : EndsNumber tail) (negative : Bool)
    {n : Nat} (hn : n ≤ maxSignificand) :
    readNumeral negative (decimalDigits n ++ tail) =
      if !negative then .ok (.unsigned n.toUInt64, tail)
      else if 0 < n && n ≤ 0x8000000000000000 then .ok (.signed (Int64.ofInt (-n)), tail)
      else .ok (.float (.ofRatio true n 1), tail) := by
  obtain ⟨c, ds, hdigits, hdigit, hzero⟩ := decimalDigits_cons n
  -- A zero in front is the only digit.
  have hlead : ¬(decide (c = '0') && startsWithDigit (ds ++ tail)) = true := by
    rw [startsWithDigit_append h, Bool.and_eq_true, decide_eq_true_eq]
    rintro ⟨hc, hmore⟩
    rw [hzero hc] at hdigits
    cases hdigits
    cases hmore
  have hnoDigit : ¬startsWithDigit tail = true := ne_true_of_eq_false h.digit
  have hnoFloat : ¬(tail.head? == some '.' || startsWithExponent tail) = true := by
    rw [h.exponent, Bool.or_false, beq_iff_eq]
    exact h.point
  have htaken := takeDigits_append h maxSignificand (digitValue c) 0 ds
  rw [takeDigits_decimalDigits hn hdigits] at htaken
  rw [hdigits, List.cons_append, readNumeral]
  dsimp only
  rw [hdigit, if_neg (by decide), if_neg hlead, htaken]
  dsimp only [List.nil_append]
  rw [if_neg hnoDigit, if_neg hnoFloat]

end Json

namespace EventReader

theorem wrongKind_ne_ok {α : Type} (expected : Expected) (cs : List Char) (a : α) :
    wrongKind expected cs ≠ .ok a := by
  cases cs with
  | nil => nofun
  | cons c cs =>
    unfold wrongKind
    dsimp only
    split_ifs
    · cases readWord ['u', 'l', 'l'] cs <;> nofun
    · cases readWord ['r', 'u', 'e'] cs <;> nofun
    · cases readWord ['a', 'l', 's', 'e'] cs <;> nofun
    · cases readNumeral true cs <;> nofun
    · cases readNumeral false (c :: cs) <;> nofun
    · cases readString cs <;> nofun
    · nofun
    · nofun
    · nofun

theorem readNumber_stops {tail : List Char} (h : EndsNumber tail) (expected : Expected) :
    StopsAt tail (readNumber expected) := by
  intro cs n rest hread
  unfold readNumber at hread ⊢
  cases hcs : skipBlanks cs with
  | nil =>
    rw [hcs] at hread
    cases hread
  | cons c behind =>
    have hskip : skipBlanks (cs ++ tail) = c :: (behind ++ tail) := by
      rw [skipBlanks] at hcs ⊢
      rw [List.dropWhile_append, hcs]
      rfl
    rw [hcs] at hread
    rw [hskip]
    dsimp only at hread ⊢
    split_ifs at hread ⊢
    · exact readNumeral_stops h true _ _ _ hread
    · exact readNumeral_stops h false _ _ _ hread
    · exact absurd hread (wrongKind_ne_ok expected _ _)

theorem readFloat_stops {tail : List Char} (h : EndsNumber tail) : StopsAt tail readFloat := by
  intro cs x rest hread
  unfold readFloat at hread ⊢
  cases hnumber : readNumber .float cs with
  | error fault =>
    rw [hnumber] at hread
    cases hread
  | ok r =>
    obtain ⟨n, behind⟩ := r
    rw [hnumber] at hread
    rw [readNumber_stops h _ _ _ _ hnumber]
    cases n <;> cases hread <;> rfl

theorem readNumber_digit {expected : Expected} {c : Char} (hdigit : isDigit c = true)
    (cs : List Char) : readNumber expected (c :: cs) = readNumeral false (c :: cs) := by
  have hblank : isBlank c = false := by
    simp only [isBlank, Bool.or_eq_false_iff, beq_eq_false_iff_ne]
    refine ⟨⟨⟨?_, ?_⟩, ?_⟩, ?_⟩ <;> rintro rfl <;> cases hdigit
  have hsign : c ≠ '-' := by
    rintro rfl
    cases hdigit
  rw [readNumber, skipBlanks, List.dropWhile_cons_of_neg (ne_true_of_eq_false hblank)]
  dsimp only
  rw [if_neg hsign, if_pos hdigit]

/-- A time is read back at every end of its range. -/
theorem readInteger_intText {tail : List Char} (h : EndsNumber tail) (n : Int64) :
    readInteger (intText n.toInt ++ tail) = .ok (n, tail) := by
  have hlow := n.le_toInt
  have hhigh := n.toInt_lt
  have hback : Int64.ofInt n.toInt = n := Int64.ofInt_toInt n
  have hfits : n.toInt.natAbs ≤ maxSignificand := by
    rw [maxSignificand]
    omega
  unfold intText
  split_ifs with hsign
  · have habs : -(n.toInt.natAbs : Int) = n.toInt := by omega
    have hrange : (decide (0 < n.toInt.natAbs) && decide (n.toInt.natAbs ≤ 0x8000000000000000)) =
        true := by
      rw [Bool.and_eq_true, decide_eq_true_eq, decide_eq_true_eq]
      omega
    have hnumber : readNumber .integer ('-' :: decimalDigits n.toInt.natAbs ++ tail) =
        .ok (.signed n, tail) := by
      have hnumeral := readNumeral_decimalDigits h true hfits
      rw [if_neg (by decide), if_pos hrange, habs, hback] at hnumeral
      exact hnumeral
    rw [readInteger, hnumber]
    rfl
  · obtain ⟨c, ds, hdigits, hdigit, -⟩ := decimalDigits_cons n.toInt.natAbs
    have hnumber : readNumber .integer (decimalDigits n.toInt.natAbs ++ tail) =
        .ok (.unsigned n.toInt.natAbs.toUInt64, tail) := by
      rw [hdigits, List.cons_append, readNumber_digit hdigit, ← List.cons_append, ← hdigits,
        readNumeral_decimalDigits h false hfits]
      rfl
    have hnat : n.toInt.natAbs.toUInt64.toNat = n.toInt.natAbs :=
      Nat.mod_eq_of_lt (by omega : n.toInt.natAbs < 2 ^ 64)
    have habs : (n.toInt.natAbs : Int) = n.toInt := by omega
    rw [readInteger, hnumber]
    dsimp only [bind, Except.bind]
    rw [hnat, if_pos (by omega), habs, hback]
    rfl

end EventReader

end EventTree
