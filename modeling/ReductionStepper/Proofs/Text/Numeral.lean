import Mathlib.Data.List.Basic
import Mathlib.Data.List.Induction
import ReductionStepper.Text.Digit

/-!
# Numerals

A numeral is read exactly if it is made of ASCII digits, and as the number that these denote,
provided that it is below the bound. Of the numerals of a number one has no zero before another
digit. Hexadecimal digits are read in either case.
-/

namespace ReductionStepper.Text

/-- A text that denotes a number: ASCII digits, perhaps with a plus sign before them. -/
def Denotes (text : List Char) (n : Nat) : Prop :=
  ∃ digits, (text = digits ∨ text = '+' :: digits) ∧ digits ≠ [] ∧
    (∀ c ∈ digits, c.isDigit = true) ∧ Nat.ofDigitChars 10 digits 0 = n

variable {bound n : Nat} {digits : List Char} {c : Char}

/-- A numeral is read exactly if it is made of digits that denote a number below the bound. -/
theorem readNumeral_eq_some_iff :
    readNumeral bound digits = some n ↔
      digits ≠ [] ∧ (∀ c ∈ digits, c.isDigit = true) ∧ Nat.ofDigitChars 10 digits 0 = n ∧
        n < bound := by
  unfold readNumeral
  split
  · next hbad =>
    simp only [reduceCtorEq, false_iff]
    rintro ⟨hne, hdigits, -⟩
    rw [List.isEmpty_eq_false_iff.mpr hne, List.all_eq_true.mpr hdigits] at hbad
    cases hbad
  · next hgood =>
    simp only [Bool.or_eq_true, List.isEmpty_iff, Bool.not_eq_true', Bool.eq_false_iff, not_or,
      Classical.not_not, List.all_eq_true, ne_eq] at hgood
    simp only [Option.ite_none_right_eq_some, Option.some.injEq]
    constructor
    · rintro ⟨hbound, rfl⟩
      exact ⟨hgood.1, hgood.2, rfl, hbound⟩
    · rintro ⟨-, -, rfl, hbound⟩
      exact ⟨hbound, rfl⟩

/-- A numeral that may have a sign is read exactly as the number below the bound that it denotes. -/
theorem readSignedNumeral_eq_some_iff {text : List Char} :
    readSignedNumeral bound text = some n ↔ Denotes text n ∧ n < bound := by
  have hplus : '+'.isDigit = false := rfl
  unfold readSignedNumeral
  split
  · next digits =>
    rw [readNumeral_eq_some_iff]
    constructor
    · rintro ⟨hne, hdigits, hvalue, hbound⟩
      exact ⟨⟨digits, .inr rfl, hne, hdigits, hvalue⟩, hbound⟩
    · rintro ⟨⟨others, heq | heq, hne, hdigits, hvalue⟩, hbound⟩
      · have := hdigits '+' (heq ▸ List.mem_cons_self)
        simp [hplus] at this
      · cases heq
        exact ⟨hne, hdigits, hvalue, hbound⟩
  · next hsign =>
    rw [readNumeral_eq_some_iff]
    constructor
    · rintro ⟨hne, hdigits, hvalue, hbound⟩
      exact ⟨⟨text, .inl rfl, hne, hdigits, hvalue⟩, hbound⟩
    · rintro ⟨⟨digits, rfl | heq, hne, hdigits, hvalue⟩, hbound⟩
      · exact ⟨hne, hdigits, hvalue, hbound⟩
      · exact absurd heq (hsign digits)

/-! ## The decimal form of a number -/

/-- A text is the decimal form of a number: ASCII digits that denote it, of which the first is no
zero unless it is the only one. -/
structure IsDecimal (text : List Char) (n : Nat) : Prop where
  ne_nil : text ≠ []
  isDigit : ∀ c ∈ text, c.isDigit = true
  value : Nat.ofDigitChars 10 text 0 = n
  leading : text.head? = some '0' → text = ['0']

/-- A digit is written for its value. -/
theorem digitChar_of_isDigit {c : Char} (hc : c.isDigit = true) :
    Nat.digitChar (c.toNat - '0'.toNat) = c ∧ c.toNat - '0'.toNat < 10 := by
  obtain ⟨hzero, hnine⟩ := Char.isDigit_iff_toNat.mp hc
  have hlt : c.toNat - '0'.toNat < 10 := by
    have : '9'.toNat = '0'.toNat + 9 := rfl
    omega
  refine ⟨Char.toNat_inj.mp ?_, hlt⟩
  rw [Nat.toNat_digitChar_of_lt_ten hlt]
  exact Nat.add_sub_cancel' hzero

/-- Only zero is written with a zero first. -/
theorem eq_zero_of_head?_toDigits (h : (Nat.toDigits 10 n).head? = some '0') : n = 0 := by
  induction n using Nat.strongRecOn with
  | _ n ih =>
    by_cases hlt : n < 10
    · rw [Nat.toDigits_of_lt_base hlt, List.head?_cons, Option.some.injEq] at h
      exact Nat.digitChar_eq_zero.mp h
    · rw [Nat.toDigits_of_base_le (by decide) (Nat.le_of_not_lt hlt),
        List.head?_append_of_ne_nil _ Nat.toDigits_ne_nil] at h
      have hzero := ih (n / 10) (by omega) h
      omega

private theorem isDecimal_toDigits (n : Nat) : IsDecimal (Nat.toDigits 10 n) n where
  ne_nil := Nat.toDigits_ne_nil
  isDigit := fun _ hc => Nat.isDigit_of_mem_toDigits (by decide) (by decide) hc
  value := Nat.ofDigitChars_ten_toDigits
  leading := by
    intro h
    rw [eq_zero_of_head?_toDigits h]
    rfl

/-- A number is denoted by its decimal digits. -/
theorem denotes_repr (n : Nat) : Denotes n.repr.toList n := by
  rw [Nat.toList_repr]
  have h := isDecimal_toDigits n
  exact ⟨_, .inl rfl, h.ne_nil, h.isDigit, h.value⟩

/-- A number is known by its decimal digits. -/
theorem repr_injective : Function.Injective Nat.repr := by
  intro m n h
  have hdigits : Nat.toDigits 10 m = Nat.toDigits 10 n := by
    rw [← Nat.toList_repr, ← Nat.toList_repr, h]
  rw [← (isDecimal_toDigits m).value, hdigits, (isDecimal_toDigits n).value]

/-- Digits without a zero before another one are those of the number that they denote. -/
theorem toDigits_ofDigitChars (hne : digits ≠ []) (hdigits : ∀ c ∈ digits, c.isDigit = true)
    (hleading : digits.head? = some '0' → digits = ['0']) :
    Nat.toDigits 10 (Nat.ofDigitChars 10 digits 0) = digits := by
  induction digits using List.reverseRecOn with
  | nil => exact absurd rfl hne
  | append_singleton front last ih =>
    obtain ⟨hchar, hlt⟩ := digitChar_of_isDigit (hdigits last (by simp))
    have hlast : Nat.toDigits 10 (last.toNat - '0'.toNat) = [last] := by
      rw [Nat.toDigits_of_lt_base hlt, hchar]
    have hvalue : Nat.ofDigitChars 10 (front ++ [last]) 0 =
        10 * Nat.ofDigitChars 10 front 0 + (last.toNat - '0'.toNat) := by
      rw [Nat.ofDigitChars_append, Nat.ofDigitChars_cons, Nat.ofDigitChars_nil]
    by_cases hnil : front = []
    · subst hnil
      rw [hvalue, Nat.ofDigitChars_nil, Nat.mul_zero, Nat.zero_add, hlast, List.nil_append]
    · rw [List.head?_append_of_ne_nil _ hnil] at hleading
      have hzero : front.head? ≠ some '0' := by
        intro hhead
        simpa [hnil] using congrArg List.length (hleading hhead)
      have hfront := ih hnil (fun c hc => hdigits c (List.mem_append_left _ hc))
        fun hhead => absurd hhead hzero
      have hpos : 0 < Nat.ofDigitChars 10 front 0 := by
        refine Nat.pos_of_ne_zero fun hvalue => hzero ?_
        rw [hvalue] at hfront
        rw [← hfront]
        rfl
      rw [hvalue, ← Nat.toDigits_append_toDigits (by decide) hpos hlt, hfront, hlast]

/-- A number has one decimal form. -/
theorem isDecimal_iff {text : List Char} : IsDecimal text n ↔ text = Nat.toDigits 10 n := by
  constructor
  · intro h
    rw [← toDigits_ofDigitChars h.ne_nil h.isDigit h.leading, h.value]
  · rintro rfl
    exact isDecimal_toDigits n

/-! ## Hexadecimal digits -/

/-- A hexadecimal digit, in lower or upper case, and its value. -/
def HexDigit (c : Char) (n : Nat) : Prop :=
  n < 16 ∧ (c = Nat.digitChar n ∨ c = (Nat.digitChar n).toUpper)

private theorem exists_place {first last : Char} (h : first ≤ c ∧ c ≤ last) :
    ∃ m ≤ last.toNat - first.toNat, c.toNat - first.toNat = m ∧
      c = Char.ofNat (first.toNat + m) := by
  have hfirst : first.toNat ≤ c.toNat := UInt32.le_iff_toNat_le.mp h.1
  have hlast : c.toNat ≤ last.toNat := UInt32.le_iff_toNat_le.mp h.2
  refine ⟨_, Nat.sub_le_sub_right hlast _, rfl, ?_⟩
  rw [Nat.add_sub_cancel' hfirst, Char.ofNat_toNat]

/-- A character is read as the hexadecimal digit that it is. -/
theorem hexValue?_eq_some_iff : hexValue? c = some n ↔ HexDigit c n := by
  constructor
  · intro h
    unfold hexValue? at h
    split at h
    · next hdigit =>
      cases h
      obtain ⟨hchar, hlt⟩ := digitChar_of_isDigit hdigit
      exact ⟨Nat.lt_trans hlt (by decide), .inl hchar.symm⟩
    split at h
    · next hlower =>
      cases h
      obtain ⟨m, hm, hplace, hc⟩ := exists_place hlower
      have hletters : ∀ m < 6, Char.ofNat ('a'.toNat + m) = Nat.digitChar (m + 10) := by decide
      have hlt : m < 6 := Nat.lt_succ_of_le hm
      rw [hplace, hc]
      exact ⟨by omega, .inl (hletters m hlt)⟩
    split at h
    · next hupper =>
      cases h
      obtain ⟨m, hm, hplace, hc⟩ := exists_place hupper
      have hletters : ∀ m < 6,
          Char.ofNat ('A'.toNat + m) = (Nat.digitChar (m + 10)).toUpper := by decide
      have hlt : m < 6 := Nat.lt_succ_of_le hm
      rw [hplace, hc]
      exact ⟨by omega, .inr (hletters m hlt)⟩
    · cases h
  · have hdigits : ∀ n < 16, hexValue? (Nat.digitChar n) = some n ∧
        hexValue? (Nat.digitChar n).toUpper = some n := by decide
    rintro ⟨hn, rfl | rfl⟩
    · exact (hdigits n hn).1
    · exact (hdigits n hn).2

/-- The lower-case form of a capital letter is a small letter. -/
theorem eq_of_toLower {d : Char} (hd : ¬('a' ≤ d ∧ d ≤ 'z')) (h : c.toLower = d) : c = d := by
  by_cases hupper : 'A' ≤ c ∧ c ≤ 'Z'
  · obtain ⟨m, hm, -, rfl⟩ := exists_place hupper
    have hletters : ∀ m < 26, 'a' ≤ (Char.ofNat ('A'.toNat + m)).toLower ∧
        (Char.ofNat ('A'.toNat + m)).toLower ≤ 'z' := by decide
    exact absurd (h ▸ hletters m (Nat.lt_succ_of_le hm)) hd
  · have hlower : c.toLower = c := dif_neg hupper
    exact hlower.symm.trans h

/-- A digit in either case is known by its lower-case form. -/
theorem hexDigit_of_toLower (hn : n < 16) (h : c.toLower = Nat.digitChar n) : HexDigit c n := by
  by_cases hupper : 'A' ≤ c ∧ c ≤ 'Z'
  · obtain ⟨m, hm, -, rfl⟩ := exists_place hupper
    have hletters : ∀ m < 26, ∀ n < 16, (Char.ofNat ('A'.toNat + m)).toLower = Nat.digitChar n →
        Char.ofNat ('A'.toNat + m) = (Nat.digitChar n).toUpper := by decide +kernel
    exact ⟨hn, .inr (hletters m (Nat.lt_succ_of_le hm) n hn h)⟩
  · have hlower : c.toLower = c := dif_neg hupper
    exact ⟨hn, .inl (hlower.symm.trans h)⟩
end ReductionStepper.Text
