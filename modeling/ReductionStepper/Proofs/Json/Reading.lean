import ReductionStepper.Json.Reader
import ReductionStepper.Json.Writer
import ReductionStepper.Proofs.Fallible
import ReductionStepper.Proofs.Json.Canonical

/-!
# Reading what was written

The reader of values inverts the writer: behind a value in compact form it answers the value and
the text that follows, as long as that text does not go on with the digits of a number. A step is
spent on a bracket, an item or an entry, so the length of the written text is bound enough.
-/

namespace ReductionStepper.Json

open Fallible (ok_bind)

variable {rest : List Char}

/-! ## Numbers -/

/-- A number cannot go on with the text. -/
def endsNumber : List Char → Bool
  | [] => true
  | c :: _ => !(c.isDigit || c = '.' || c = 'e' || c = 'E')

private theorem startsWithDigit_eq_false (h : endsNumber rest) : startsWithDigit rest = false := by
  cases rest with
  | nil => rfl
  | cons c cs => simp_all [endsNumber, startsWithDigit]

private theorem ofDigitChars_cons (c : Char) (cs : List Char) (number : Nat) :
    Nat.ofDigitChars 10 (c :: cs) number =
      Nat.ofDigitChars 10 cs (number * 10 + Text.digitValue c) := by
  rw [Nat.ofDigitChars_cons, Nat.mul_comm, Text.digitValue]

private theorem le_ofDigitChars (digits : List Char) (number : Nat) :
    number ≤ Nat.ofDigitChars 10 digits number := by
  induction digits generalizing number with
  | nil => exact Nat.le_refl _
  | cons c cs ih =>
    rw [ofDigitChars_cons]
    exact Nat.le_trans (by omega) (ih (number * 10 + Text.digitValue c))

private theorem fitDigits_append {digits : List Char} {number count : Nat}
    (hdigits : ∀ c ∈ digits, c.isDigit) (hfits : Nat.ofDigitChars 10 digits number < UInt64.size)
    (hrest : startsWithDigit rest = false) :
    fitDigits number count (digits ++ rest) =
      (Nat.ofDigitChars 10 digits number, count + digits.length, rest) := by
  induction digits generalizing number count with
  | nil =>
    cases rest with
    | nil => rfl
    | cons c cs => simp_all [fitDigits, startsWithDigit]
  | cons c cs ih =>
    rw [ofDigitChars_cons] at hfits ⊢
    have hdigit : c.isDigit := hdigits c List.mem_cons_self
    have hnext : number * 10 + Text.digitValue c < UInt64.size :=
      Nat.lt_of_le_of_lt (le_ofDigitChars cs _) hfits
    rw [List.cons_append, fitDigits, if_pos (by simp [hdigit, hnext]),
      ih (fun d hd => hdigits d (List.mem_cons_of_mem _ hd)) hfits, List.length_cons,
      Nat.add_assoc, Nat.add_comm 1]

/-- The digits of a positive number do not start with a zero. -/
theorem toDigits_eq_cons {n : Nat} (hn : 0 < n) :
    ∃ c cs, Nat.toDigits 10 n = c :: cs ∧ c ≠ '0' := by
  induction n using Nat.strongRecOn with
  | ind n ih =>
    by_cases hlt : n < 10
    · refine ⟨n.digitChar, [], Nat.toDigits_of_lt_base hlt, ?_⟩
      exact (by decide : ∀ m < 10, 0 < m → Nat.digitChar m ≠ '0') n hlt hn
    · obtain ⟨c, cs, hcons, hc⟩ := ih (n / 10) (by omega) (by omega)
      refine ⟨c, cs ++ Nat.toDigits 10 (n % 10), ?_, hc⟩
      have happend := Nat.toDigits_append_toDigits (b := 10) (n := n / 10) (d := n % 10)
        (by decide) (by omega) (by omega)
      rw [← List.cons_append, ← hcons, happend, Nat.div_add_mod]

private theorem isDigit_of_mem_repr {n : Nat} {c : Char} (h : c ∈ (Nat.repr n).toList) :
    c.isDigit := by
  rw [Nat.toList_repr] at h
  exact Nat.isDigit_of_mem_toDigits (by decide) (by decide) h

/-- The reader of numbers takes all the digits of a number that fits 64 bits. -/
theorem readNumber_repr {positive : Bool} {n : Nat} (hn : n < UInt64.size)
    (hrest : startsWithDigit rest = false) :
    readNumber positive ((Nat.repr n).toList ++ rest) = wholeNumber positive n rest := by
  obtain rfl | hpos := Nat.eq_zero_or_pos n
  · simp [readNumber, hrest]
  · have hdigits : ∀ c ∈ (Nat.repr n).toList, c.isDigit := fun c => isDigit_of_mem_repr
    obtain ⟨c, cs, hcons, hc⟩ := toDigits_eq_cons hpos
    rw [Nat.toList_repr, hcons] at hdigits ⊢
    have hvalue : Nat.ofDigitChars 10 cs (Text.digitValue c) = n := by
      have h := Nat.ofDigitChars_ten_toDigits (n := n)
      rwa [hcons, ofDigitChars_cons, Nat.zero_mul, Nat.zero_add] at h
    have hfit : fitDigits (Text.digitValue c) 1 (cs ++ rest) = (n, 1 + cs.length, rest) := by
      have hlater : ∀ d ∈ cs, d.isDigit := fun d hd => hdigits d (List.mem_cons_of_mem _ hd)
      rw [fitDigits_append hlater (by rwa [hvalue]) hrest, hvalue]
    rw [List.cons_append, readNumber, if_neg hc, if_pos (hdigits c List.mem_cons_self), hfit]
    simp [hrest]

private theorem wholeNumber_true {n : Nat} (hrest : endsNumber rest) :
    wholeNumber true n rest = .ok (.natural (UInt64.ofNat n), rest) := by
  unfold wholeNumber
  split <;> simp_all [endsNumber]

private theorem wholeNumber_false {n : Nat} (hpos : 0 < n) (hbound : n ≤ Nat.pow 2 63)
    (hrest : endsNumber rest) :
    wholeNumber false n rest = .ok (.negative (UInt64.ofNat n), rest) := by
  unfold wholeNumber
  split <;> simp_all [endsNumber, Nat.ne_of_gt]

/-! ## Strings -/

private theorem hexNumber?_hexDigit {n : Nat} (h : n < 0x20) :
    hexNumber? '0' '0' (hexDigit (n / 16)) (hexDigit (n % 16)) = some n :=
  (by decide : ∀ m < 0x20, hexNumber? '0' '0' (hexDigit (m / 16)) (hexDigit (m % 16)) = some m) n h

/-- The escape of a control character is read back. -/
theorem escape_control {c : Char} (h : c.toNat < 0x20) :
    escape ('u' :: '0' :: '0' :: hexDigit (c.toNat / 16) :: hexDigit (c.toNat % 16) :: rest) =
      .ok (c, rest) := by
  have hbytes (a b : Char) : ¬byteCount ('0' :: '0' :: a :: b :: rest) < 4 := by
    have ha := a.utf8Size_pos
    have hb := b.utf8Size_pos
    have hzero : '0'.utf8Size = 1 := by decide
    simp only [byteCount, List.foldr_cons, hzero]
    omega
  have hhigh : ¬(0xD800 ≤ c.toNat ∧ c.toNat ≤ 0xDBFF) := by omega
  have hlow : ¬(0xDC00 ≤ c.toNat ∧ c.toNat ≤ 0xDFFF) := by omega
  simp [escape, hexDigits, hbytes, hexNumber?_hexDigit h, hhigh, hlow, pure, Except.pure]

/-- Behind a character as it is written stands the rest of the string. -/
theorem characters_writeChar (steps : Nat) (c : Char) (rest : List Char) :
    characters (steps + 1) (writeChar c ++ rest) = do
      let (cs, rest) ← characters steps rest
      return (c :: cs, rest) := by
  unfold writeChar
  split
  · next hc => subst hc; rfl
  split
  · next hc => subst hc; rfl
  split
  · next hc => subst hc; rfl
  split
  · next hc => subst hc; rfl
  split
  · next hc => subst hc; rfl
  split
  · next hc => subst hc; rfl
  split
  · next hc => subst hc; rfl
  split
  · next hc =>
    simp only [List.cons_append, List.nil_append, characters, escape_control hc, ok_bind]
  · next hquote hslash _ _ _ _ _ hcontrol =>
    rw [List.singleton_append, characters, if_neg hcontrol]
    · exact hquote
    · exact hslash

private theorem characters_flatMap {steps : Nat} (text rest : List Char) (h : text.length < steps) :
    characters steps (text.flatMap writeChar ++ '"' :: rest) = .ok (text, rest) := by
  induction text generalizing steps with
  | nil =>
    obtain ⟨steps, rfl⟩ := Nat.exists_eq_add_one_of_ne_zero (Nat.ne_of_gt h)
    rfl
  | cons c cs ih =>
    obtain ⟨steps, rfl⟩ := Nat.exists_eq_add_one_of_ne_zero (Nat.ne_zero_of_lt h)
    rw [List.flatMap_cons, List.append_assoc, characters_writeChar,
      ih (Nat.lt_of_succ_lt_succ h)]
    rfl

private theorem writeChar_ne_nil (c : Char) : writeChar c ≠ [] := by
  unfold writeChar
  repeat (split; · exact List.cons_ne_nil _ _)
  exact List.cons_ne_nil _ _

private theorem length_le_flatMap_writeChar (text : List Char) :
    text.length ≤ (text.flatMap writeChar).length := by
  induction text with
  | nil => exact Nat.le_refl _
  | cons c cs ih =>
    have hpos := List.length_pos_iff.2 (writeChar_ne_nil c)
    rw [List.flatMap_cons, List.length_append, List.length_cons]
    omega

/-- A string in quotes and a text behind it. -/
theorem writeString_append (text : String) (rest : List Char) :
    writeString text ++ rest = '"' :: (text.toList.flatMap writeChar ++ '"' :: rest) := by
  simp [writeString]

/-- Behind its opening quote a string is read as it was written. -/
theorem quoted_flatMap (text : String) (rest : List Char) :
    quoted (text.toList.flatMap writeChar ++ '"' :: rest) = .ok (text, rest) := by
  have hlength := length_le_flatMap_writeChar text.toList
  rw [quoted, characters_flatMap _ _ (by rw [List.length_append]; omega)]
  simp [pure, Except.pure]

/-! ## Values -/

variable {depth steps : Nat} {value : Json}

/-- The value is read back where at most `depth` brackets may be opened. -/
def ReadsBack (depth : Nat) (value : Json) : Prop :=
  ∀ (steps : Nat) (rest : List Char), (write value).length ≤ steps → endsNumber rest →
    valueWithin steps depth (write value ++ rest) = .ok (value, rest)

private theorem skipGap_cons {c : Char} (h : isGap c = false) :
    skipGap (c :: rest) = c :: rest := by
  rw [skipGap, List.dropWhile_cons_of_neg (by simp [h])]

private theorem ne_of_isDigit {c d : Char} (hc : c.isDigit) (hd : d.isDigit = false) : c ≠ d := by
  rintro rfl
  rw [hc] at hd
  exact Bool.noConfusion hd

private theorem isGap_of_isDigit {c : Char} (h : c.isDigit) : isGap c = false := by
  simp only [isGap, Bool.or_eq_false_iff, decide_eq_false_iff_not]
  exact ⟨⟨⟨ne_of_isDigit h rfl, ne_of_isDigit h rfl⟩, ne_of_isDigit h rfl⟩, ne_of_isDigit h rfl⟩

/-- The text of a natural number starts with a digit. -/
theorem repr_eq_cons (n : Nat) : ∃ c cs, (Nat.repr n).toList = c :: cs ∧ c.isDigit := by
  obtain ⟨c, cs, hcons⟩ := List.exists_cons_of_ne_nil (l := (Nat.repr n).toList) (by simp)
  exact ⟨c, cs, hcons, isDigit_of_mem_repr (hcons ▸ List.mem_cons_self)⟩

private theorem write_negative (magnitude : UInt64) :
    write (.number (.negative magnitude)) = '-' :: (Nat.repr magnitude.toNat).toList := by
  rw [write, Number.text, String.toList_append]
  rfl

/-- A written value starts with neither a blank nor a closing bracket. -/
theorem write_eq_cons (hdouble : value.hasDouble = false) :
    ∃ c cs, write value = c :: cs ∧ isGap c = false ∧ c ≠ ']' := by
  cases value with
  | null => exact ⟨_, _, rfl, by decide, by decide⟩
  | bool value => cases value <;> exact ⟨_, _, rfl, by decide, by decide⟩
  | number value =>
    cases value with
    | natural n =>
      obtain ⟨c, cs, hcons, hdigit⟩ := repr_eq_cons n.toNat
      exact ⟨c, cs, hcons, isGap_of_isDigit hdigit, ne_of_isDigit hdigit rfl⟩
    | negative n => exact ⟨_, _, write_negative n, by decide, by decide⟩
    | double => cases hdouble
  | string text => exact ⟨_, _, rfl, by decide, by decide⟩
  | array items => exact ⟨_, _, rfl, by decide, by decide⟩
  | object entries => exact ⟨_, _, rfl, by decide, by decide⟩

private theorem ReadsBack.of_step (hdouble : value.hasDouble = false)
    (h : ∀ (steps : Nat) (rest : List Char), (write value).length ≤ steps + 1 → endsNumber rest →
      valueWithin (steps + 1) depth (write value ++ rest) = .ok (value, rest)) :
    ReadsBack depth value := by
  intro steps rest hsteps hrest
  obtain ⟨c, cs, hcons, -⟩ := write_eq_cons hdouble
  have hlength : 0 < (write value).length := by rw [hcons]; exact Nat.succ_pos _
  obtain ⟨steps, rfl⟩ := Nat.exists_eq_add_one.2 (Nat.lt_of_lt_of_le hlength hsteps)
  exact h steps rest hsteps hrest

private theorem valueWithin_minus (digits : List Char) :
    valueWithin (steps + 1) depth ('-' :: digits) = do
      let (value, rest) ← readNumber false digits
      return (.number value, rest) := rfl

private theorem valueWithin_quote (content : List Char) :
    valueWithin (steps + 1) depth ('"' :: content) = do
      let (text, rest) ← quoted content
      return (.string text, rest) := rfl

private theorem valueWithin_bracket (content : List Char) :
    valueWithin (steps + 1) (depth + 1) ('[' :: content) = do
      let (items, rest) ← itemsWithin steps depth true content
      return (.array items, rest) := rfl

private theorem valueWithin_brace (content : List Char) :
    valueWithin (steps + 1) (depth + 1) ('\x7b' :: content) = do
      let (entries, rest) ← entriesWithin steps depth true content
      return (.object entries, rest) := rfl

private theorem valueWithin_digit {c : Char} (hdigit : c.isDigit) :
    valueWithin (steps + 1) depth (c :: rest) = do
      let (value, rest) ← readNumber true (c :: rest)
      return (.number value, rest) := by
  rw [valueWithin, skipGap_cons (isGap_of_isDigit hdigit)]
  split <;> simp_all

private theorem readsBack_natural (n : UInt64) : ReadsBack depth (.number (.natural n)) := by
  refine .of_step rfl fun steps rest _ hrest => ?_
  obtain ⟨c, cs, hcons, hdigit⟩ := repr_eq_cons n.toNat
  have hread : readNumber true (c :: cs ++ rest) = wholeNumber true n.toNat rest :=
    hcons ▸ readNumber_repr n.toNat_lt (startsWithDigit_eq_false hrest)
  rw [write, Number.text, hcons, List.cons_append, valueWithin_digit hdigit, ← List.cons_append,
    hread, wholeNumber_true hrest, UInt64.ofNat_toNat]
  rfl

private theorem readsBack_negative {magnitude : UInt64} (hpos : 0 < magnitude.toNat)
    (hbound : magnitude.toNat ≤ Nat.pow 2 63) :
    ReadsBack depth (.number (.negative magnitude)) := by
  refine .of_step rfl fun steps rest _ hrest => ?_
  rw [write_negative, List.cons_append, valueWithin_minus,
    readNumber_repr magnitude.toNat_lt (startsWithDigit_eq_false hrest),
    wholeNumber_false hpos hbound hrest, UInt64.ofNat_toNat]
  rfl

private theorem readsBack_string (text : String) : ReadsBack depth (.string text) := by
  refine .of_step rfl fun steps rest _ _ => ?_
  rw [write, writeString_append, valueWithin_quote, quoted_flatMap]
  rfl

private theorem nextItem_cons {first : Bool} {c : Char} (hgap : isGap c = false)
    (hclose : c ≠ ']') :
    nextItem first ((if first then [] else [',']) ++ c :: rest) = .ok (true, c :: rest) := by
  cases first with
  | true =>
    simp only [nextItem, if_true, List.nil_append, skipGap_cons hgap]
    split <;> simp_all
  | false =>
    simp [nextItem, skipGap_cons (c := ',') (by decide), skipGap_cons hgap]
    split <;> simp_all

/-- The reader takes the quote before a key, and the comma before that if it is not the first. -/
theorem nextKey_cons {first : Bool} :
    nextKey first ((if first then [] else [',']) ++ '"' :: rest) = .ok (true, rest) := by
  cases first <;> rfl

/-- The reader takes the colon between a key and its value. -/
theorem colon_cons : colon (':' :: rest) = .ok rest := rfl

/-! ## Lists and objects -/

private theorem endsNumber_writeItems (items : List Json) (rest : List Char) :
    endsNumber (writeItems false items ++ rest) := by
  cases items <;> rfl

/-- No number goes on with the entries of an object. -/
theorem endsNumber_writeEntries (entries : List (String × Json)) (rest : List Char) :
    endsNumber (writeEntries false entries ++ rest) := by
  cases entries <;> rfl

private theorem writeItems_length_pos (first : Bool) (items : List Json) :
    0 < (writeItems first items).length := by
  induction items generalizing first with
  | nil => exact Nat.one_pos
  | cons item later ih =>
    have := ih false
    rw [writeItems, List.length_append]
    omega

/-- Items that are read back one by one are read back as a list. -/
theorem itemsWithin_writeItems {first : Bool} {items : List Json}
    (hdouble : ∀ item ∈ items, item.hasDouble = false)
    (hitems : ∀ item ∈ items, ReadsBack depth item)
    (hsteps : (writeItems first items).length ≤ steps) :
    itemsWithin steps depth first (writeItems first items ++ rest) = .ok (items, rest) := by
  induction items generalizing first steps with
  | nil =>
    obtain ⟨steps, rfl⟩ := Nat.exists_eq_add_one.2 hsteps
    cases first <;> rfl
  | cons item later ih =>
    obtain ⟨c, cs, hcons, hgap, hclose⟩ := write_eq_cons (hdouble item List.mem_cons_self)
    have hlater := writeItems_length_pos false later
    have hitem := hitems item List.mem_cons_self
    rw [writeItems, List.length_append, List.length_append] at hsteps
    have hwrite : 0 < (write item).length := by rw [hcons]; exact Nat.succ_pos _
    -- The item and the later ones each take a character, so one step less is enough for both.
    obtain ⟨steps, rfl⟩ : ∃ s, steps = s + 1 := ⟨steps - 1, by omega⟩
    have hnext : nextItem first ((if first then [] else [',']) ++
        (write item ++ (writeItems false later ++ rest))) =
          .ok (true, write item ++ (writeItems false later ++ rest)) := by
      rw [hcons]
      exact nextItem_cons hgap hclose
    rw [writeItems, List.append_assoc, List.append_assoc, itemsWithin, hnext, ok_bind]
    simp only [if_true]
    rw [hitem steps _ (by omega) (endsNumber_writeItems later rest), ok_bind]
    simp only
    rw [ih (fun other h => hdouble other (List.mem_cons_of_mem _ h))
      (fun other h => hitems other (List.mem_cons_of_mem _ h)) (by omega)]
    rfl

private theorem writeEntries_length_pos (first : Bool) (entries : List (String × Json)) :
    0 < (writeEntries first entries).length := by
  induction entries generalizing first with
  | nil => exact Nat.one_pos
  | cons entry later ih =>
    have := ih false
    rw [writeEntries, List.length_append]
    omega

/-- An entry as it is written, before a text. -/
theorem writeEntries_append (first : Bool) (key : String) (value : Json)
    (later : List (String × Json)) (rest : List Char) :
    writeEntries first ((key, value) :: later) ++ rest =
      (if first then [] else [',']) ++ '"' :: (key.toList.flatMap writeChar ++
        '"' :: ':' :: (write value ++ (writeEntries false later ++ rest))) := by
  simp [writeEntries, writeString]

/-- Entries whose values are read back one by one are read back as an object. -/
theorem entriesWithin_writeEntries {first : Bool} {entries : List (String × Json)}
    (hentries : ∀ entry ∈ entries, ReadsBack depth entry.2)
    (hsteps : (writeEntries first entries).length ≤ steps) :
    entriesWithin steps depth first (writeEntries first entries ++ rest) = .ok (entries, rest) := by
  induction entries generalizing first steps with
  | nil =>
    obtain ⟨steps, rfl⟩ := Nat.exists_eq_add_one.2 hsteps
    cases first <;> rfl
  | cons entry later ih =>
    obtain ⟨key, value⟩ := entry
    have hvalue : ReadsBack depth value := hentries (key, value) List.mem_cons_self
    have hlater := writeEntries_length_pos false later
    simp only [writeEntries, writeString, List.length_append, List.length_cons] at hsteps
    obtain ⟨steps, rfl⟩ : ∃ s, steps = s + 1 := ⟨steps - 1, by omega⟩
    rw [writeEntries_append, entriesWithin, nextKey_cons, ok_bind]
    simp only [if_true]
    rw [quoted_flatMap, ok_bind, colon_cons, ok_bind, hvalue steps _ (by omega)
      (endsNumber_writeEntries later rest), ok_bind]
    simp only
    rw [ih (fun other h => hentries other (List.mem_cons_of_mem _ h)) (by omega)]
    rfl

private theorem readsBack_array {items : List Json} (hdouble : (array items).hasDouble = false)
    (hitems : ∀ item ∈ items, ReadsBack depth item) : ReadsBack (depth + 1) (.array items) := by
  refine .of_step hdouble fun steps rest hsteps _ => ?_
  rw [write, List.length_cons] at hsteps
  rw [write, List.cons_append, valueWithin_bracket,
    itemsWithin_writeItems (hasDouble_array_eq_false.1 hdouble) hitems
      (Nat.le_of_succ_le_succ hsteps)]
  rfl

private theorem readsBack_object {entries : List (String × Json)}
    (hdouble : (object entries).hasDouble = false)
    (hentries : ∀ entry ∈ entries, ReadsBack depth entry.2) :
    ReadsBack (depth + 1) (.object entries) := by
  refine .of_step hdouble fun steps rest hsteps _ => ?_
  rw [write, List.length_cons] at hsteps
  rw [write, List.cons_append, valueWithin_brace,
    entriesWithin_writeEntries hentries (Nat.le_of_succ_le_succ hsteps)]
  rfl

/-! ## The round trip -/

/-- The value fits and all its numbers are kept exactly. -/
structure Exact (depth : Nat) (value : Json) : Prop where
  fits : value.Fits depth
  noDouble : value.hasDouble = false

/-- A string is exact at any depth. -/
theorem Exact.string (text : String) : Exact depth (.string text) := ⟨.string text, rfl⟩

/-- A natural number is exact at any depth. -/
theorem Exact.natural (n : UInt64) : Exact depth (.number (.natural n)) := ⟨.natural n, rfl⟩

/-- A list of exact items is exact with one bracket more. -/
theorem Exact.array {items : List Json} (h : ∀ item ∈ items, Exact depth item) :
    Exact (depth + 1) (.array items) :=
  ⟨.array fun item hitem => (h item hitem).fits,
    hasDouble_array_eq_false.2 fun item hitem => (h item hitem).noDouble⟩

/-- An object with exact values is exact with one bracket more. -/
theorem Exact.object {entries : List (String × Json)}
    (h : ∀ entry ∈ entries, Exact depth entry.2) : Exact (depth + 1) (.object entries) :=
  ⟨.object fun entry hentry => (h entry hentry).fits,
    hasDouble_object_eq_false.2 fun entry hentry => (h entry hentry).noDouble⟩

/-- An exact value is read back. -/
theorem Exact.readsBack (h : Exact depth value) : ReadsBack depth value := by
  obtain ⟨hfits, hdouble⟩ := h
  induction hfits with
  | null => exact .of_step rfl fun _ _ _ _ => rfl
  | bool value => cases value <;> exact .of_step rfl fun _ _ _ _ => rfl
  | natural value => exact readsBack_natural value
  | negative positive bounded => exact readsBack_negative positive bounded
  | double => cases hdouble
  | string text => exact readsBack_string text
  | array fit ih =>
    exact readsBack_array hdouble fun item hitem =>
      ih item hitem (hasDouble_array_eq_false.1 hdouble item hitem)
  | object fit ih =>
    exact readsBack_object hdouble fun entry hentry =>
      ih entry hentry (hasDouble_object_eq_false.1 hdouble entry hentry)

/-- A value that reads back is answered, with the text behind it. -/
theorem ReadsBack.readValue (h : ReadsBack depth value) (hrest : endsNumber rest) :
    readValue depth (write value ++ rest) = .ok (value, rest) := by
  refine h _ rest ?_ hrest
  rw [stepBound, List.length_append]
  omega

end ReductionStepper.Json
