import EventTree.Json.Printer
import EventTree.Json.Reader

/-!
# Strings are read back

A character is written as itself or as an escape. An escape begins with a backslash, and
what is written as itself is neither a backslash nor a quote, so a reader that goes from
character to character never takes a part of one for another, and the first quote it meets
outside an escape is the one that closes the string.
-/
namespace EventTree.Json
open Text

/-! ## Characters -/

theorem hexValue?_lowerHexDigit (n : Nat) : hexValue? (lowerHexDigit n) = some (n % 16) := by
  have hdigits : ∀ k < 16, hexValue? (Nat.digitChar k) = some k := by decide
  exact hdigits _ (Nat.mod_lt n (by decide))

/-- Two zeros and two digits are the code of a byte. -/
theorem readHex4_byte (n : Nat) (cs : List Char) :
    readHex4 ('0' :: '0' :: lowerHexDigit (n / 16) :: lowerHexDigit n :: cs) =
      .ok (n % 256, cs) := by
  have henough :
      ¬unreadBytes ('0' :: '0' :: lowerHexDigit (n / 16) :: lowerHexDigit n :: cs) < 4 := by
    have hhigh := (lowerHexDigit (n / 16)).utf8Size_pos
    have hlow := (lowerHexDigit n).utf8Size_pos
    have hzero : '0'.utf8Size = 1 := by decide
    simp only [unreadBytes, List.foldr_cons, hzero]
    omega
  have hzero : hexValue? '0' = some 0 := by decide
  have hbyte : n / 16 % 16 * 16 + n % 16 = n % 256 := by omega
  rw [readHex4, if_neg henough]
  simp [hzero, hexValue?_lowerHexDigit, hbyte]

/-- The code of a control character names the character. -/
theorem readEscape_control {c : Char} (h : c.toNat < 0x20) (cs : List Char) :
    readEscape ('u' :: '0' :: '0' :: lowerHexDigit (c.toNat / 16) :: lowerHexDigit c.toNat :: cs) =
      .ok (c, cs) := by
  have hcode : c.toNat % 256 = c.toNat := by omega
  have hnoTrailing : ¬(0xDC00 ≤ c.toNat ∧ c.toNat ≤ 0xDFFF) := by omega
  have hnoLeading : c.toNat < 0xD800 := by omega
  have hsimple : simpleEscape? 'u' = none := by decide
  rw [readEscape, hsimple]
  dsimp only
  rw [if_pos rfl, readCodePoint, readHex4_byte, hcode]
  simp [bind, Except.bind, pure, Except.pure, hnoTrailing, hnoLeading, Char.ofNat_toNat]

/-- A character is written as an escape that names it, or as itself if it means nothing
else inside a string. -/
theorem stringChar_eq (c : Char) :
    (∃ escape, stringChar c = '\\' :: escape ∧ ∀ cs, readEscape (escape ++ cs) = .ok (c, cs)) ∨
      stringChar c = [c] ∧ c ≠ '"' ∧ c ≠ '\\' ∧ ¬c.toNat < 0x20 := by
  unfold stringChar
  split
  · exact .inl ⟨['"'], rfl, fun _ => rfl⟩
  · exact .inl ⟨['\\'], rfl, fun _ => rfl⟩
  · exact .inl ⟨['b'], rfl, fun _ => rfl⟩
  · exact .inl ⟨['t'], rfl, fun _ => rfl⟩
  · exact .inl ⟨['n'], rfl, fun _ => rfl⟩
  · exact .inl ⟨['f'], rfl, fun _ => rfl⟩
  · exact .inl ⟨['r'], rfl, fun _ => rfl⟩
  · next hquote hbackslash _ _ _ _ _ =>
    split
    · next hcontrol => exact .inl ⟨_, rfl, readEscape_control hcontrol⟩
    · next hcontrol => exact .inr ⟨rfl, hquote, hbackslash, hcontrol⟩

theorem stringChar_ne_nil (c : Char) : stringChar c ≠ [] := by
  rcases stringChar_eq c with ⟨escape, h, -⟩ | ⟨h, -⟩ <;> rw [h] <;> exact List.cons_ne_nil _ _

theorem readStringTail_stringChar {fuel : Nat} {cs rest text : List Char} (c : Char)
    (h : readStringTail fuel cs = .ok (text, rest)) :
    readStringTail (fuel + 1) (stringChar c ++ cs) = .ok (c :: text, rest) := by
  rcases stringChar_eq c with ⟨escape, hwritten, hescape⟩ | ⟨hwritten, hquote, hbackslash, hcontrol⟩
  · rw [hwritten, List.cons_append, readStringTail, if_neg (by decide), if_pos rfl, hescape]
    simp only [bind, Except.bind, h]
    rfl
  · rw [hwritten, List.singleton_append, readStringTail, if_neg hquote, if_neg hbackslash,
      if_neg hcontrol, h]
    rfl

/-! ## Strings -/

theorem readStringTail_written (text rest : List Char) {fuel : Nat} (hfuel : text.length < fuel) :
    readStringTail fuel (text.flatMap stringChar ++ '"' :: rest) = .ok (text, rest) := by
  induction text generalizing fuel with
  | nil =>
    obtain ⟨less, rfl⟩ : ∃ less, fuel = less + 1 := ⟨fuel - 1, by omega⟩
    rw [List.flatMap_nil, List.nil_append, readStringTail, if_pos rfl]
  | cons c text ih =>
    rw [List.length_cons] at hfuel
    obtain ⟨less, rfl⟩ : ∃ less, fuel = less + 1 := ⟨fuel - 1, by omega⟩
    rw [List.flatMap_cons, List.append_assoc]
    exact readStringTail_stringChar c (ih (by omega))

theorem length_le_flatMap_stringChar (text : List Char) :
    text.length ≤ (text.flatMap stringChar).length := by
  induction text with
  | nil => exact Nat.le_refl 0
  | cons c text ih =>
    have hpos := List.length_pos_iff.2 (stringChar_ne_nil c)
    rw [List.flatMap_cons, List.length_append, List.length_cons]
    omega

theorem stringText_append (s : String) (rest : List Char) :
    stringText s ++ rest = '"' :: (s.toList.flatMap stringChar ++ '"' :: rest) := by
  simp [stringText]

/-- Behind its opening quote a written string is read to its closing one. -/
theorem readString_written (s : String) (rest : List Char) :
    readString (s.toList.flatMap stringChar ++ '"' :: rest) = .ok (s, rest) := by
  have hlength := length_le_flatMap_stringChar s.toList
  have hfuel : s.toList.length < (s.toList.flatMap stringChar ++ '"' :: rest).length := by
    rw [List.length_append, List.length_cons]
    omega
  rw [readString, readStringTail_written _ _ hfuel]
  simp [bind, Except.bind, pure, Except.pure]

end EventTree.Json
