import ReductionStepper.Proofs.Text.Word
import ReductionStepper.Text.Layout

/-!
# Texts on one line

A text that holds no end of a line can be put among others, with line feeds between them, and is
found there again. Folding to a single line gives such a text from any text; cutting keeps it so.
-/

namespace ReductionStepper.Text

/-- A text without the characters that can end a line. -/
def OneLine (text : String) : Prop := ∀ c ∈ text.toList, c ≠ '\n' ∧ c ≠ '\r'

instance (text : String) : Decidable (OneLine text) :=
  List.decidableBAll (fun c => c ≠ '\n' ∧ c ≠ '\r') text.toList

variable {text other : String} {line : List Char} {word : List Char} {c : Char}

/-- The empty text is one line. -/
theorem oneLine_empty : OneLine "" := by decide

/-- Two texts of one line are one line together. -/
theorem OneLine.append (h : OneLine text) (hother : OneLine other) : OneLine (text ++ other) := by
  intro c hc
  rw [String.toList_append, List.mem_append] at hc
  exact hc.elim (h c) (hother c)

/-! ## Texts that are put on one line -/

/-- What is not in the separator stands in one of the parts. -/
theorem mem_intercalate_iff {α : Type} {a : α} {separator : List α} {parts : List (List α)}
    (ha : a ∉ separator) : a ∈ separator.intercalate parts ↔ ∃ part ∈ parts, a ∈ part := by
  induction parts with
  | nil => simp
  | cons part later ih =>
    by_cases hlater : later = []
    · simp [hlater]
    · rw [List.intercalate_cons_of_ne_nil hlater]
      simp [ih, ha]

/-- No character of a word is white space. -/
theorem not_blank_of_mem_wordList {text : List Char} (hword : word ∈ wordList text)
    (hc : c ∈ word) : isBlank c = false :=
  (mem_wordList_iff.mp hword).not_blank c hc

/-- Folding puts any text on one line. -/
theorem oneLine_singleLine (text : String) : OneLine (singleLine text) := by
  intro c hc
  rw [singleLine, words, String.toList_intercalate, List.map_map] at hc
  by_cases hspace : c = ' '
  · subst hspace
    decide
  · rw [mem_intercalate_iff (by simpa using hspace)] at hc
    obtain ⟨_, hpart, hc⟩ := hc
    obtain ⟨word, hword, rfl⟩ := List.mem_map.mp hpart
    rw [Function.comp_apply, String.toList_ofList] at hc
    have hblank := not_blank_of_mem_wordList hword hc
    constructor
    · rintro rfl
      cases hblank
    · rintro rfl
      cases hblank

/-- Cutting a text leaves it on one line. -/
theorem OneLine.shorten (h : OneLine text) (width : Nat) : OneLine (Text.shorten width text) := by
  unfold Text.shorten
  split
  · exact oneLine_empty
  split
  · exact h
  · intro c hc
    rw [String.toList_ofList, List.mem_append, List.mem_singleton] at hc
    rcases hc with hc | rfl
    · exact h c (List.mem_of_mem_take hc)
    · decide

/-- The digits of a number are on one line. -/
theorem oneLine_repr (n : Nat) : OneLine (Nat.repr n) := by
  intro c hc
  rw [Nat.toList_repr] at hc
  have hdigit : c.isDigit = true := Nat.isDigit_of_mem_toDigits (by decide) (by decide) hc
  constructor
  · rintro rfl
    cases hdigit
  · rintro rfl
    cases hdigit

/-! ## Lines that are put under each other -/

private theorem lineList_append (h : ∀ c ∈ line, c ≠ '\n' ∧ c ≠ '\r') (rest : List Char) :
    lineList (line ++ '\n' :: rest) = line :: lineList rest := by
  induction line with
  | nil => rfl
  | cons c cs ih =>
    obtain ⟨⟨hfeed, hreturn⟩, hcs⟩ := List.forall_mem_cons.mp h
    rw [List.cons_append, lineList.eq_4 _ _ hfeed fun _ h _ => hreturn h, ih hcs]

private theorem lineList_of_oneLine (h : ∀ c ∈ line, c ≠ '\n' ∧ c ≠ '\r') (hne : line ≠ []) :
    lineList line = [line] := by
  induction line with
  | nil => exact absurd rfl hne
  | cons c cs ih =>
    obtain ⟨⟨hfeed, hreturn⟩, hcs⟩ := List.forall_mem_cons.mp h
    rw [lineList.eq_4 _ _ hfeed fun _ h _ => hreturn h]
    by_cases hnil : cs = []
    · rw [hnil]
      rfl
    · rw [ih hcs hnil]

private theorem lineList_intercalate {list : List (List Char)}
    (h : ∀ line ∈ list, ∀ c ∈ line, c ≠ '\n' ∧ c ≠ '\r') (hlast : list.getLast? ≠ some []) :
    lineList (['\n'].intercalate list) = list := by
  induction list with
  | nil => rfl
  | cons line later ih =>
    obtain ⟨hline, hlater⟩ := List.forall_mem_cons.mp h
    cases later with
    | nil =>
      rw [List.intercalate_singleton]
      exact lineList_of_oneLine hline (by simpa using hlast)
    | cons next later =>
      rw [List.intercalate_cons_cons, List.append_assoc, List.singleton_append,
        lineList_append hline, ih hlater (by simpa using hlast)]

/-- Lines that are put under each other are the lines of the whole, if the last one is not empty. -/
theorem lines_intercalate {list : List String} (h : ∀ line ∈ list, OneLine line)
    (hlast : list.getLast? ≠ some "") : lines ("\n".intercalate list) = list := by
  have hchars : ∀ line ∈ list.map String.toList, ∀ c ∈ line, c ≠ '\n' ∧ c ≠ '\r' :=
    List.forall_mem_map.mpr h
  have hend : (list.map String.toList).getLast? ≠ some [] := by
    intro hnil
    rw [List.getLast?_map, Option.map_eq_some_iff] at hnil
    obtain ⟨text, htext, hempty⟩ := hnil
    exact hlast (by rw [htext, String.toList_eq_nil_iff.mp hempty])
  rw [lines, String.toList_intercalate]
  exact (congrArg _ (lineList_intercalate hchars hend)).trans (by simp)

/-- Cutting at the line feeds gives lines that were put under each other back. -/
theorem map_splitOn_intercalate {list : List String} (h : ∀ line ∈ list, OneLine line)
    (hne : list ≠ []) :
    (("\n".intercalate list).toList.splitOn '\n').map String.ofList = list := by
  have hfeed : ∀ line ∈ list.map String.toList, '\n' ∉ line :=
    List.forall_mem_map.mpr fun line hline hmem => (h line hline '\n' hmem).1 rfl
  have hsplit : ("\n".intercalate list).toList.splitOn '\n' = list.map String.toList := by
    rw [String.toList_intercalate]
    exact List.splitOn_intercalate '\n' hfeed (by simpa using hne)
  rw [hsplit]
  simp

end ReductionStepper.Text
