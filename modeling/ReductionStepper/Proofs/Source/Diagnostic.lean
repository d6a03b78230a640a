import ReductionStepper.Proofs.Text.Numeral
import ReductionStepper.Proofs.Text.Word
import ReductionStepper.Source.Diagnostic

/-!
# The place of a parse error

The number behind a word is sought at the first place where a digit of any script follows the word,
and nowhere else: `FirstNumeral` says which digits these are and `Names` which number they give.
Whatever the message names, the diagnostic of a parse error marks exactly one character.
-/

namespace ReductionStepper.Source

/-! ## Numbers behind a word -/

/-- A word with a digit of any script behind it stands at the start of a text. -/
def Numbered (word text : List Char) : Prop :=
  ∃ digit rest, text = word ++ digit :: rest ∧ Text.isDecimalDigit digit = true

/-- The digits behind the first place at which a digit follows a word, with all that stands before
that place and all that stands behind the digits. -/
structure FirstNumeral (word text before digits after : List Char) : Prop where
  text_eq : text = before ++ (word ++ (digits ++ after))
  digits_ne : digits ≠ []
  isDecimalDigit : ∀ c ∈ digits, Text.isDecimalDigit c = true
  longest : ∀ c, after.head? = some c → Text.isDecimalDigit c = false
  first : ∀ earlier later, text = earlier ++ later → earlier.length < before.length →
    ¬Numbered word later

/-- The number that stands behind a word in a text: its numeral is made of ASCII digits. -/
def Names (word text : List Char) (n : UInt32) : Prop :=
  ∃ before digits after, FirstNumeral word text before digits after ∧
    (∀ c ∈ digits, c.isDigit = true) ∧ Nat.ofDigitChars 10 digits 0 = n.toNat

variable {word text before digits after : List Char} {c : Char} {n : UInt32}

private theorem numbered_iff :
    Numbered word text ↔
      (word.isPrefixOf text &&
        !((text.drop word.length).takeWhile Text.isDecimalDigit).isEmpty) = true := by
  simp only [Bool.and_eq_true, List.isPrefixOf_iff_prefix, Bool.not_eq_true',
    List.isEmpty_eq_false_iff]
  constructor
  · rintro ⟨digit, rest, rfl, hdigit⟩
    refine ⟨List.prefix_append _ _, ?_⟩
    simp [hdigit]
  · rintro ⟨⟨behind, rfl⟩, hdigits⟩
    rw [List.drop_left] at hdigits
    cases behind with
    | nil => exact absurd rfl hdigits
    | cons digit rest =>
      refine ⟨digit, rest, rfl, ?_⟩
      by_contra hdigit
      exact hdigits (List.takeWhile_cons_of_neg hdigit)

/-- What stands at the start of a text comes first. -/
theorem FirstNumeral.before_eq_nil (h : FirstNumeral word text before digits after)
    (hstart : Numbered word text) : before = [] := by
  by_contra hne
  exact h.first [] text rfl (List.length_pos_iff.mpr hne) hstart

/-- At the start of a text the digits are the longest run behind the word. -/
theorem firstNumeral_nil_iff (hstart : Numbered word text) :
    (∃ after, FirstNumeral word text [] digits after) ↔
      digits = (text.drop word.length).takeWhile Text.isDecimalDigit := by
  constructor
  · rintro ⟨after, h⟩
    rw [h.text_eq, List.nil_append, List.drop_left]
    exact (Text.longestRun_iff.mpr ⟨rfl, h.isDecimalDigit, h.longest⟩).1
  · rintro rfl
    obtain ⟨digit, rest, rfl, hdigit⟩ := hstart
    rw [List.drop_left]
    obtain ⟨htext, hrun, hstop⟩ := Text.longestRun_iff.mp ⟨rfl, rfl⟩
    exact ⟨_, congrArg (word ++ ·) htext, by simp [hdigit], hrun, hstop, nofun⟩

/-- A place that is not at the start of a text is found in the rest of the text. -/
theorem firstNumeral_cons_iff (hstart : ¬Numbered word (c :: text)) :
    (∃ before after, FirstNumeral word (c :: text) before digits after) ↔
      ∃ before after, FirstNumeral word text before digits after := by
  constructor
  · rintro ⟨before, after, h⟩
    cases before with
    | nil =>
      obtain ⟨digit, more, rfl⟩ := List.exists_cons_of_ne_nil h.digits_ne
      exact absurd ⟨digit, more ++ after, h.text_eq, h.isDecimalDigit _ List.mem_cons_self⟩ hstart
    | cons d before =>
      obtain ⟨rfl, htext⟩ := List.cons_eq_cons.mp h.text_eq
      refine ⟨before, after, htext, h.digits_ne, h.isDecimalDigit, h.longest, ?_⟩
      intro earlier later hsplit hlt
      exact h.first (c :: earlier) later (congrArg (c :: ·) hsplit) (Nat.succ_lt_succ hlt)
  · rintro ⟨before, after, h⟩
    refine ⟨c :: before, after, congrArg (c :: ·) h.text_eq, h.digits_ne, h.isDecimalDigit,
      h.longest, ?_⟩
    intro earlier later hsplit hlt
    cases earlier with
    | nil =>
      rw [List.nil_append] at hsplit
      rwa [← hsplit]
    | cons d earlier =>
      exact h.first earlier later (List.cons_eq_cons.mp hsplit).2 (Nat.lt_of_succ_lt_succ hlt)

/-- The search finds the digits at the first place. -/
theorem digitsAfter?_eq_some_iff :
    digitsAfter? word text = some digits ↔
      ∃ before after, FirstNumeral word text before digits after := by
  induction text with
  | nil =>
    simp only [digitsAfter?, reduceCtorEq, false_iff]
    rintro ⟨before, after, h⟩
    have hempty := h.text_eq
    simp [h.digits_ne] at hempty
  | cons c text ih =>
    rw [digitsAfter?]
    split
    · next hfound =>
      have hstart := numbered_iff.mpr hfound
      rw [Option.some.injEq, eq_comm, ← firstNumeral_nil_iff hstart]
      constructor
      · exact fun ⟨after, h⟩ => ⟨[], after, h⟩
      · rintro ⟨before, after, h⟩
        obtain rfl := h.before_eq_nil hstart
        exact ⟨after, h⟩
    · next hmissed => rw [ih, firstNumeral_cons_iff (mt numbered_iff.mp hmissed)]

/-- The number behind a word is the one that its first numeral gives. -/
theorem numberAfter?_eq_some_iff : numberAfter? word text = some n ↔ Names word text n := by
  simp only [numberAfter?, Option.bind_eq_some_iff, Option.map_eq_some_iff,
    digitsAfter?_eq_some_iff, Text.readNumeral_eq_some_iff]
  constructor
  · rintro ⟨digits, ⟨before, after, h⟩, value, ⟨-, hdigits, rfl, hlt⟩, rfl⟩
    exact ⟨before, digits, after, h, hdigits, (UInt32.toNat_ofNat_of_lt' hlt).symm⟩
  · rintro ⟨before, digits, after, h, hdigits, hvalue⟩
    exact ⟨digits, ⟨before, after, h⟩, n.toNat, ⟨h.digits_ne, hdigits, hvalue, n.toNat_lt_size⟩,
      UInt32.ofNat_toNat⟩

private theorem errorPosition?_eq_some_iff {message : String} {line column : UInt32} :
    errorPosition? message = some (line, column) ↔
      Names ['l', 'i', 'n', 'e', ' '] message.toList line ∧
        Names ['c', 'o', 'l', 'u', 'm', 'n', ' '] message.toList column := by
  simp [errorPosition?, Option.bind_eq_some_iff, ← numberAfter?_eq_some_iff]

/-! ## The character that is marked -/

private theorem toNat_max_one (n : UInt32) : (max n 1).toNat = max n.toNat 1 := by
  show (if n ≤ 1 then 1 else n).toNat = _
  split
  · next hle => exact (Nat.max_eq_right (UInt32.le_iff_toNat_le.mp hle)).symm
  · next hlt => exact (Nat.max_eq_left (Nat.le_of_not_le (mt UInt32.le_iff_toNat_le.mpr hlt))).symm

/-- A range of one character. -/
theorem Range.contains_iff_eq_start {range : Range} {p : Position}
    (hline : range.stop.line = range.start.line)
    (hcolumn : range.stop.column.toNat = range.start.column.toNat + 1) :
    range.contains p = true ↔ p = range.start := by
  obtain ⟨⟨line, column⟩, ⟨stopLine, stopColumn⟩⟩ := range
  obtain ⟨pLine, pColumn⟩ := p
  obtain rfl : stopLine = line := hline
  simp only [contains, Position.before, Position.mk.injEq, ← UInt32.toNat_inj,
    UInt32.lt_iff_toNat_lt, Bool.and_eq_true, Bool.not_eq_true', Bool.or_eq_true,
    Bool.or_eq_false_iff, Bool.and_eq_false_iff, decide_eq_true_eq, decide_eq_false_iff_not,
    beq_iff_eq, beq_eq_false_iff_ne, ne_eq] at hcolumn ⊢
  omega

namespace Diagnostic

variable {message : String} {line column : UInt32}

/-- The place that the message names, counted from zero. -/
theorem start_parseError (h : errorPosition? message = some (line, column)) :
    (parseError message).range.start = ⟨fromZero line, fromZero column⟩ := by
  rw [parseError, h]
  rfl

/-- A message without a place is put at the start of the program. -/
theorem start_parseError_of_eq_none (h : errorPosition? message = none) :
    (parseError message).range.start = ⟨0, 0⟩ := by
  rw [parseError, h]
  rfl

/-- One column is marked, also at the smallest and at the largest number. -/
theorem toNat_stop_column_parseError (message : String) :
    (parseError message).range.stop.column.toNat =
      (parseError message).range.start.column.toNat + 1 := by
  rw [parseError]
  dsimp only
  rw [toNat_fromZero, toNat_max_one]
  omega

/-- What a parse error says about its place. The message names a line and a column exactly if behind
the first `line` that has a digit behind it, and behind the first such `column`, the digits give a
number of 32 bits; later ones do not count. The diagnostic marks one character: the one at that
place, where zero is taken for one, or the first of the program if no place is named. -/
theorem parseError_marks_named_character (message : String) :
    let range := (parseError message).range
    (∀ line column, errorPosition? message = some (line, column) ↔
      Names ['l', 'i', 'n', 'e', ' '] message.toList line ∧
        Names ['c', 'o', 'l', 'u', 'm', 'n', ' '] message.toList column) ∧
      (∀ line column, errorPosition? message = some (line, column) →
        range.start.line.toNat = max line.toNat 1 - 1 ∧
          range.start.column.toNat = max column.toNat 1 - 1) ∧
      (errorPosition? message = none → range.start = ⟨0, 0⟩) ∧
      range.stop.line = range.start.line ∧
      range.stop.column.toNat = range.start.column.toNat + 1 ∧
      ∀ p, range.contains p = true ↔ p = range.start := by
  intro range
  have hstop : range.stop.column.toNat = range.start.column.toNat + 1 :=
    toNat_stop_column_parseError message
  refine ⟨fun _ _ => errorPosition?_eq_some_iff, ?_, start_parseError_of_eq_none, rfl, hstop,
    fun _ => Range.contains_iff_eq_start rfl hstop⟩
  intro line column hplace
  have hstart : range.start = ⟨fromZero line, fromZero column⟩ := start_parseError hplace
  rw [hstart, toNat_fromZero, toNat_fromZero]
  omega

/-- The first `line` has no digit behind it, and the column is counted from zero already. -/
theorem parseError_marks_named_character_nearMiss :
    let message := "line too long: line 4294967295, column 0, line 2"
    errorPosition? message = some (4294967295, 0) ∧
      (parseError message).range.start = ⟨4294967294, 0⟩ ∧
      ∀ p, (parseError message).range.contains p = true ↔ p = ⟨4294967294, 0⟩ := by
  intro message
  have hplace : errorPosition? message = some (4294967295, 0) := by decide +kernel
  obtain ⟨-, hstart, -, -, -, hcontains⟩ := parseError_marks_named_character message
  obtain ⟨hline, hcolumn⟩ := hstart _ _ hplace
  have hrange : (parseError message).range.start = ⟨4294967294, 0⟩ :=
    congrArg₂ Position.mk (UInt32.toNat_inj.mp hline) (UInt32.toNat_inj.mp hcolumn)
  exact ⟨hplace, hrange, hrange ▸ hcontains⟩

end Diagnostic

end ReductionStepper.Source
