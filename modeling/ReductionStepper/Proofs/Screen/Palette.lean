import ReductionStepper.Proofs.Fallible
import ReductionStepper.Proofs.Text.Numeral
import ReductionStepper.Proofs.Text.Part
import ReductionStepper.Screen.Theme

/-!
# Palettes

The text of a palette lists five colours, and a colour is given by two hexadecimal digits for each
of its parts. Exactly such texts are read, and what is wrong with the others is told by the number
of their parts or by the first part that gives no colour.
-/

namespace ReductionStepper.Screen

open Fallible (bind_eq_ok_iff bind_eq_error_iff mapM_eq_error_iff)

/-! ## What is given and what is refused -/

/-- Two hexadecimal digits and the byte that they denote. -/
def HexPair (high low : Char) (byte : UInt8) : Prop :=
  ∃ m n, Text.HexDigit high m ∧ Text.HexDigit low n ∧ byte.toNat = 16 * m + n

/-- Six hexadecimal digits and the colour that they denote, two digits for each part. -/
inductive HexColor : List Char → Color → Prop where
  | mk {r r' g g' b b' : Char} {red green blue : UInt8} (hred : HexPair r r' red)
      (hgreen : HexPair g g' green) (hblue : HexPair b b' blue) :
      HexColor [r, r', g, g', b, b'] (.rgb red green blue)

/-- A text that gives a colour: six hexadecimal digits, perhaps with one number sign before them. -/
def Gives (text : List Char) (color : Color) : Prop :=
  ∃ digits, (text = digits ∨ text = '#' :: digits) ∧ HexColor digits color

/-- The colours of a palette in their order. -/
def Palette.colors (palette : Palette) : List Color :=
  [palette.foreground, palette.background, palette.accent, palette.warning, palette.error]

/-- What is wrong with the parts of a text that gives no palette. -/
inductive Refused : List (List Char) → PaletteError → Prop where
  | count {parts : List (List Char)} (hcount : parts.length ≠ 5) :
      Refused parts (.wrongCount parts.length)
  | color {good later : List (List Char)} {bad : List Char}
      (hcount : (good ++ bad :: later).length = 5)
      (hgood : ∀ part ∈ good, ∃ color, Gives part color)
      (hbad : ∀ color, ¬Gives bad color) :
      Refused (good ++ bad :: later) (.badColor (String.ofList bad))

/-- A colour written with a number sign and six digits in either case, and white space around it. -/
def Writes (color : Color) (piece : List Char) : Prop :=
  ∃ before written after, piece = before ++ (written ++ after) ∧
    (∀ c ∈ before, Text.isBlank c = true) ∧ (∀ c ∈ after, Text.isBlank c = true) ∧
    written.map Char.toLower = color.name.toList

variable {text digits : List Char} {parts : List (List Char)} {color : Color} {palette : Palette}
  {error : PaletteError} {high low : Char} {byte : UInt8}

/-! ## Colours -/

private theorem hexByte?_eq_some_iff : hexByte? high low = some byte ↔ HexPair high low byte := by
  simp only [hexByte?, bind, Option.bind_eq_some_iff, pure, Option.some.injEq,
    Text.hexValue?_eq_some_iff]
  constructor
  · rintro ⟨m, hm, n, hn, rfl⟩
    refine ⟨m, n, hm, hn, ?_⟩
    have hlt : m * 16 + n < 2 ^ 8 := by
      have hhigh := hm.1
      have hlow := hn.1
      omega
    rw [UInt8.toNat_ofNat_of_lt' hlt, Nat.mul_comm]
  · rintro ⟨m, n, hm, hn, hvalue⟩
    refine ⟨m, hm, n, hn, ?_⟩
    rw [Nat.mul_comm, ← hvalue, UInt8.ofNat_toNat]

private theorem hexColor?_eq_some_iff : hexColor? digits = some color ↔ HexColor digits color := by
  constructor
  · intro h
    unfold hexColor? at h
    split at h
    · simp only [bind, Option.bind_eq_some_iff, pure, Option.some.injEq, hexByte?_eq_some_iff] at h
      obtain ⟨red, hred, green, hgreen, blue, hblue, rfl⟩ := h
      exact ⟨hred, hgreen, hblue⟩
    · cases h
  · rintro ⟨hred, hgreen, hblue⟩
    rw [hexColor?, hexByte?_eq_some_iff.mpr hred, hexByte?_eq_some_iff.mpr hgreen,
      hexByte?_eq_some_iff.mpr hblue]
    rfl

/-- A number sign is no digit. -/
theorem not_hexColor_sign : ¬HexColor ('#' :: text) color := by
  intro h
  obtain ⟨⟨m, -, hsign, -⟩, -, -⟩ := h
  cases Text.hexValue?_eq_some_iff.mpr hsign

private theorem exists_digits (text : List Char) : ∃ digits,
    (∀ color, hexColor? digits = some color ↔ Gives text color) ∧
      readColor text = match hexColor? digits with
        | some color => .ok color
        | none => .error (.badColor (String.ofList text)) := by
  simp only [hexColor?_eq_some_iff]
  unfold readColor
  split
  · next digits =>
    refine ⟨digits, fun color => ⟨fun h => ⟨digits, .inr rfl, h⟩, ?_⟩, rfl⟩
    rintro ⟨others, rfl | heq, h⟩
    · exact absurd h not_hexColor_sign
    · cases heq
      exact h
  · next hsign =>
    refine ⟨text, fun color => ⟨fun h => ⟨text, .inl rfl, h⟩, ?_⟩, rfl⟩
    rintro ⟨digits, rfl | rfl, h⟩
    · exact h
    · exact absurd rfl (hsign digits)

/-- A colour is read exactly if the text gives it. -/
theorem readColor_eq_ok_iff : readColor text = .ok color ↔ Gives text color := by
  obtain ⟨digits, hgives, hread⟩ := exists_digits text
  rw [hread, ← hgives]
  cases hexColor? digits <;> simp

/-- A text that gives no colour is refused as it is. -/
theorem readColor_eq_error_iff :
    readColor text = .error error ↔
      (∀ color, ¬Gives text color) ∧ error = .badColor (String.ofList text) := by
  obtain ⟨digits, hgives, hread⟩ := exists_digits text
  simp only [hread, ← hgives]
  cases hexColor? digits <;> simp [eq_comm]

private theorem exists_hexPair (h : digits.map Char.toLower = hexByte byte) :
    ∃ high low, digits = [high, low] ∧ HexPair high low byte := by
  obtain ⟨high, later, rfl, hhigh, h⟩ := List.map_eq_cons_iff.mp h
  obtain ⟨low, later, rfl, hlow, h⟩ := List.map_eq_cons_iff.mp h
  have hlt : byte.toNat < 256 := byte.toNat_lt_size
  refine ⟨high, low, by rw [List.map_eq_nil_iff.mp h], _, _,
    Text.hexDigit_of_toLower ?_ hhigh, Text.hexDigit_of_toLower ?_ hlow,
    (Nat.div_add_mod byte.toNat 16).symm⟩
  · omega
  · omega

/-- A colour that is written in either case is given back. -/
theorem gives_of_written {red green blue : UInt8} {written : List Char}
    (h : written.map Char.toLower = (Color.rgb red green blue).name.toList) :
    Gives written (.rgb red green blue) := by
  rw [Color.name, String.toList_ofList] at h
  obtain ⟨_, _, rfl, h, hblue⟩ := List.map_eq_append_iff.mp h
  obtain ⟨_, _, rfl, h, hgreen⟩ := List.map_eq_append_iff.mp h
  obtain ⟨sign, _, rfl, hsign, hred⟩ := List.map_eq_cons_iff.mp h
  obtain ⟨r, r', rfl, hpairRed⟩ := exists_hexPair hred
  obtain ⟨g, g', rfl, hpairGreen⟩ := exists_hexPair hgreen
  obtain ⟨b, b', rfl, hpairBlue⟩ := exists_hexPair hblue
  obtain rfl := Text.eq_of_toLower (by decide) hsign
  exact ⟨_, .inr rfl, hpairRed, hpairGreen, hpairBlue⟩

/-- A colour is given by its three parts. -/
theorem Gives.exists_rgb (h : Gives text color) :
    ∃ red green blue, color = .rgb red green blue := by
  obtain ⟨digits, -, ⟨hred, hgreen, hblue⟩⟩ := h
  exact ⟨_, _, _, rfl⟩

/-- A text that gives a colour holds no white space and no comma. -/
theorem Gives.not_blank_and_ne_comma (h : Gives text color) :
    ∀ c ∈ text, Text.isBlank c = false ∧ c ≠ ',' := by
  obtain ⟨digits, htext, hdigits⟩ := h
  have hdigit {c : Char} {n : Nat} (hc : Text.HexDigit c n) :
      Text.isBlank c = false ∧ c ≠ ',' := by
    have hall : ∀ n < 16, (Text.isBlank (Nat.digitChar n) = false ∧ Nat.digitChar n ≠ ',') ∧
        Text.isBlank (Nat.digitChar n).toUpper = false ∧ (Nat.digitChar n).toUpper ≠ ',' := by
      decide
    obtain ⟨hn, rfl | rfl⟩ := hc
    · exact (hall n hn).1
    · exact (hall n hn).2
  have hsix : ∀ c ∈ digits, Text.isBlank c = false ∧ c ≠ ',' := by
    obtain ⟨⟨_, _, hr, hr', -⟩, ⟨_, _, hg, hg', -⟩, ⟨_, _, hb, hb', -⟩⟩ := hdigits
    simp [hdigit hr, hdigit hr', hdigit hg, hdigit hg', hdigit hb, hdigit hb']
  rcases htext with rfl | rfl
  · exact hsix
  · exact List.forall_mem_cons.mpr ⟨by decide, hsix⟩

/-! ## Lists of colours -/

private theorem exists_five {α : Type} {list : List α} (h : list.length = 5) :
    ∃ a b c d e, list = [a, b, c, d, e] :=
  match list, h with
  | [a, b, c, d, e], _ => ⟨a, b, c, d, e, rfl⟩

/-- A list of parts is refused for their number, or for the first part that is not read. -/
theorem refused_iff :
    Refused parts error ↔ (parts.length ≠ 5 ∧ error = .wrongCount parts.length) ∨
      parts.length = 5 ∧ parts.mapM readColor = .error error := by
  simp only [mapM_eq_error_iff, readColor_eq_ok_iff, readColor_eq_error_iff]
  constructor
  · rintro (hcount | ⟨hcount, hgood, hbad⟩)
    · exact .inl ⟨hcount, rfl⟩
    · exact .inr ⟨hcount, _, _, _, rfl, hgood, hbad, rfl⟩
  · rintro (⟨hcount, rfl⟩ | ⟨hcount, good, bad, later, rfl, hgood, hbad, rfl⟩)
    · exact .count hcount
    · exact .color hcount hgood hbad

/-- A palette is read exactly if the parts of its text give its colours. -/
theorem Palette.ofList_eq_ok_iff (hparts : Text.Parts ',' text parts) :
    Palette.ofList text = .ok palette ↔ List.Forall₂ Gives parts palette.colors := by
  rw [← Text.parts_iff.mp hparts]
  unfold Palette.ofList
  split
  · next hfive =>
    simp only [hfive, bind_eq_ok_iff, readColor_eq_ok_iff, colors, List.forall₂_cons]
    constructor
    · rintro ⟨_, hforeground, _, hbackground, _, haccent, _, hwarning, _, herror, heq⟩
      cases heq
      exact ⟨hforeground, hbackground, haccent, hwarning, herror, .nil⟩
    · rintro ⟨hforeground, hbackground, haccent, hwarning, herror, -⟩
      exact ⟨_, hforeground, _, hbackground, _, haccent, _, hwarning, _, herror, rfl⟩
  · next hcount =>
    simp only [reduceCtorEq, false_iff]
    intro h
    obtain ⟨_, _, _, _, _, hfive⟩ := exists_five h.length_eq
    exact hcount _ _ _ _ _ hfive

/-- A palette is refused for the parts of its text. -/
theorem Palette.ofList_eq_error_iff (hparts : Text.Parts ',' text parts) :
    Palette.ofList text = .error error ↔ Refused parts error := by
  rw [refused_iff, ← Text.parts_iff.mp hparts]
  unfold Palette.ofList
  split
  · next hfive =>
    -- the five readings one behind the other are the reading of the list of five
    rw [hfive]
    simp only [List.length_cons, List.length_nil, ne_eq, not_true_eq_false, false_and, false_or,
      true_and, List.mapM_cons, List.mapM_nil, bind_eq_error_iff, pure, Except.pure, reduceCtorEq,
      and_false, exists_false, or_false]
  · next hcount =>
    have hlength : ((Text.pieces ',' text).map Text.trimList).length ≠ 5 := by
      intro hlength
      obtain ⟨_, _, _, _, _, hfive⟩ := exists_five hlength
      exact hcount _ _ _ _ _ hfive
    simp only [Except.error.injEq, hlength, ne_eq, not_false_eq_true, true_and, false_and, or_false]
    exact eq_comm

/-- A colour that is written stands between commas, and is left of its piece when that is
trimmed. -/
theorem exists_trims_of_writes {piece : List Char}
    (hcolor : ∃ red green blue, color = .rgb red green blue) (h : Writes color piece) :
    ',' ∉ piece ∧ ∃ part, Text.Trims piece part ∧ Gives part color := by
  obtain ⟨red, green, blue, rfl⟩ := hcolor
  obtain ⟨before, written, after, rfl, hbefore, hafter, hwritten⟩ := h
  have hgives := gives_of_written hwritten
  refine ⟨?_, written, ⟨before, after, rfl, hbefore, hafter, ?_, ?_⟩, hgives⟩
  · have hcomma : Text.isBlank ',' = false := by decide
    intro hmem
    rcases List.mem_append.mp hmem with hmem | hmem
    · exact Bool.false_ne_true (hcomma.symm.trans (hbefore _ hmem))
    rcases List.mem_append.mp hmem with hmem | hmem
    · exact (hgives.not_blank_and_ne_comma _ hmem).2 rfl
    · exact Bool.false_ne_true (hcomma.symm.trans (hafter _ hmem))
  · exact fun c hc => (hgives.not_blank_and_ne_comma c (List.mem_of_mem_head? hc)).1
  · exact fun c hc => (hgives.not_blank_and_ne_comma c (List.mem_of_mem_getLast? hc)).1

/-- Colours that are written with commas between them are the parts of the whole. -/
theorem exists_parts_of_writes {colors : List Color} {pieces : List (List Char)}
    (hrgb : ∀ color ∈ colors, ∃ red green blue, color = .rgb red green blue)
    (h : List.Forall₂ Writes colors pieces) :
    (∀ piece ∈ pieces, ',' ∉ piece) ∧
      ∃ parts, List.Forall₂ Text.Trims pieces parts ∧ List.Forall₂ Gives parts colors := by
  induction h with
  | nil => exact ⟨by simp, [], .nil, .nil⟩
  | cons hwrites _ ih =>
    obtain ⟨hcolor, hcolors⟩ := List.forall_mem_cons.mp hrgb
    obtain ⟨hcomma, part, htrims, hgives⟩ := exists_trims_of_writes hcolor hwrites
    obtain ⟨hcommas, parts, hparts, hall⟩ := ih hcolors
    exact ⟨List.forall_mem_cons.mpr ⟨hcomma, hcommas⟩, part :: parts, .cons htrims hparts,
      .cons hgives hall⟩

/-! ## Messages -/

-- the first character of a reason tells what kind of fault it is
private def PaletteError.initial : PaletteError → Char
  | .notUnicode => '<'
  | .wrongCount _ => 'e'
  | .badColor _ => 'i'

private theorem PaletteError.head?_reason (error : PaletteError) :
    error.reason.toList.head? = some error.initial := by
  cases error with
  | notUnicode => rfl
  | wrongCount count =>
    change (_ ++ count.repr).toList.head? = some 'e'
    simp
  | badColor text =>
    change (_ ++ text ++ _).toList.head? = some 'i'
    simp

/-- What is wrong is told by the message. -/
theorem PaletteError.message_injective : Function.Injective message := by
  intro a b h
  have hreason : a.reason = b.reason := (String.append_right_inj _).mp h
  have hinitial : a.initial = b.initial := by
    have hhead := b.head?_reason
    rw [← hreason, a.head?_reason] at hhead
    exact Option.some.inj hhead
  cases a with
  | notUnicode => cases b with
    | notUnicode => rfl
    | _ => cases hinitial
  | wrongCount count => cases b with
    | wrongCount other =>
      have hrepr : count.repr = other.repr := (String.append_right_inj _).mp hreason
      exact congrArg _ (Text.repr_injective hrepr)
    | _ => cases hinitial
  | badColor text => cases b with
    | badColor other =>
      have htext := (String.append_left_inj _).mp hreason
      exact congrArg _ ((String.append_right_inj _).mp htext)
    | _ => cases hinitial

/-! ## Themes -/

namespace Theme

variable {value : String}

private theorem ofSetting_of_blank (h : ∀ c ∈ value.toList, Text.isBlank c = true) :
    ofSetting (.text value) = .ok ⟨none⟩ := by
  rw [ofSetting, Text.trimList_eq_nil_iff.mpr h]

/-- A text that is not blank is read as a palette. -/
theorem ofSetting_of_not_blank (h : ¬∀ c ∈ value.toList, Text.isBlank c = true) :
    ofSetting (.text value) =
      Palette.ofList (Text.trimList value.toList) >>= fun palette => .ok ⟨some palette⟩ := by
  rw [ofSetting]
  split
  · next hnil => exact absurd (Text.trimList_eq_nil_iff.mp hnil) h
  · rfl

/-- A blank text lists one part only. -/
theorem not_blank_of_parts (h : Text.Parts ',' text parts) (hlength : parts.length ≠ 1) :
    ¬∀ c ∈ text, Text.isBlank c = true := by
  intro hblank
  rw [← Text.parts_trimList_iff (by decide), Text.trimList_eq_nil_iff.mpr hblank,
    Text.parts_iff] at h
  exact hlength (h ▸ rfl)

private theorem ofSetting_eq_none_iff :
    ofSetting (.text value) = .ok ⟨none⟩ ↔ ∀ c ∈ value.toList, Text.isBlank c = true := by
  refine ⟨fun h => ?_, ofSetting_of_blank⟩
  by_contra hblank
  rw [ofSetting_of_not_blank hblank, bind_eq_ok_iff] at h
  obtain ⟨_, -, h⟩ := h
  cases h

/-- A palette is given exactly by a text whose parts give its colours. -/
theorem ofSetting_eq_some_iff :
    ofSetting (.text value) = .ok ⟨some palette⟩ ↔
      (¬∀ c ∈ value.toList, Text.isBlank c = true) ∧
        ∃ parts, Text.Parts ',' value.toList parts ∧ List.Forall₂ Gives parts palette.colors := by
  constructor
  · intro h
    have hblank : ¬∀ c ∈ value.toList, Text.isBlank c = true :=
      mt ofSetting_of_blank (by simp [h])
    obtain ⟨parts, hparts⟩ := Text.exists_parts ',' (Text.trimList value.toList)
    rw [ofSetting_of_not_blank hblank, bind_eq_ok_iff] at h
    obtain ⟨_, hread, h⟩ := h
    cases h
    exact ⟨hblank, parts, (Text.parts_trimList_iff (by decide)).mp hparts,
      (Palette.ofList_eq_ok_iff hparts).mp hread⟩
  · rintro ⟨hblank, parts, hparts, hgives⟩
    rw [← Text.parts_trimList_iff (by decide)] at hparts
    rw [ofSetting_of_not_blank hblank, (Palette.ofList_eq_ok_iff hparts).mpr hgives]
    rfl

/-- A text is refused exactly for what is wrong with its parts. -/
theorem ofSetting_eq_error_iff :
    ofSetting (.text value) = .error error ↔
      (¬∀ c ∈ value.toList, Text.isBlank c = true) ∧
        ∃ parts, Text.Parts ',' value.toList parts ∧ Refused parts error := by
  constructor
  · intro h
    have hblank : ¬∀ c ∈ value.toList, Text.isBlank c = true :=
      mt ofSetting_of_blank (by simp [h])
    obtain ⟨parts, hparts⟩ := Text.exists_parts ',' (Text.trimList value.toList)
    rw [ofSetting_of_not_blank hblank, bind_eq_error_iff] at h
    refine ⟨hblank, parts, (Text.parts_trimList_iff (by decide)).mp hparts,
      (Palette.ofList_eq_error_iff hparts).mp ?_⟩
    obtain h | ⟨_, -, h⟩ := h
    · exact h
    · cases h
  · rintro ⟨hblank, parts, hparts, hrefused⟩
    rw [← Text.parts_trimList_iff (by decide)] at hparts
    rw [ofSetting_of_not_blank hblank, (Palette.ofList_eq_error_iff hparts).mpr hrefused]
    rfl

/-- A palette that is written is given back. -/
theorem ofSetting_of_writes {pieces : List (List Char)}
    (hrgb : ∀ color ∈ palette.colors, ∃ red green blue, color = .rgb red green blue)
    (hwrites : List.Forall₂ Writes palette.colors pieces)
    (hvalue : value.toList = [','].intercalate pieces) :
    ofSetting (.text value) = .ok ⟨some palette⟩ := by
  obtain ⟨hcommas, parts, htrims, hgives⟩ := exists_parts_of_writes hrgb hwrites
  have hne : pieces ≠ [] := by
    rintro rfl
    cases hwrites
  have hparts : Text.Parts ',' value.toList parts := ⟨pieces, hne, hcommas, hvalue, htrims⟩
  have hlength : parts.length ≠ 1 := by
    rw [hgives.length_eq]
    exact nofun
  exact ofSetting_eq_some_iff.mpr ⟨not_blank_of_parts hparts hlength, parts, hparts, hgives⟩

/-- What the text of a palette means. A blank text gives no palette. Any other gives one exactly if
its parts give five colours, and is refused for the number of its parts or else for the first of
them that gives no colour, which the message tells. Five colours that are written with commas
between them are given back. -/
theorem palette_text_grammar (value : String) :
    (ofSetting (.text value) = .ok ⟨none⟩ ↔ ∀ c ∈ value.toList, Text.isBlank c = true) ∧
    (∀ palette, ofSetting (.text value) = .ok ⟨some palette⟩ ↔
      (¬∀ c ∈ value.toList, Text.isBlank c = true) ∧
        ∃ parts, Text.Parts ',' value.toList parts ∧ List.Forall₂ Gives parts palette.colors) ∧
    (∀ error, ofSetting (.text value) = .error error ↔
      (¬∀ c ∈ value.toList, Text.isBlank c = true) ∧
        ∃ parts, Text.Parts ',' value.toList parts ∧ Refused parts error) ∧
    (∀ palette pieces, (∀ color ∈ palette.colors, ∃ red green blue, color = .rgb red green blue) →
      List.Forall₂ Writes palette.colors pieces → value.toList = [','].intercalate pieces →
        ofSetting (.text value) = .ok ⟨some palette⟩) ∧
    Function.Injective PaletteError.message :=
  ⟨ofSetting_eq_none_iff, fun _ => ofSetting_eq_some_iff, fun _ => ofSetting_eq_error_iff,
    fun _ _ => ofSetting_of_writes, PaletteError.message_injective⟩

example : ofSetting (.text " 0A0b0c, ##12345,\u3000#FFff00, #12345g, ") =
    .error (.badColor "##12345") := by decide

end Theme

end ReductionStepper.Screen
