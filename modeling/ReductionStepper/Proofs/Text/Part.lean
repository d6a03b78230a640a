import Mathlib.Data.List.Forall2
import ReductionStepper.Proofs.Text.Word
import ReductionStepper.Text.Layout

/-!
# The parts of a list in a text

A text lists its parts with a separator between them and white space around each of them. `Trims`
says what is left of a piece without the white space at its ends, and `Parts` which parts a text
lists. White space around the whole text is white space around its first and its last part.
-/

namespace ReductionStepper.Text

/-- What is left of a text without the white space at its ends. -/
def Trims (text part : List Char) : Prop :=
  ∃ before after, text = before ++ (part ++ after) ∧ (∀ c ∈ before, isBlank c = true) ∧
    (∀ c ∈ after, isBlank c = true) ∧ (∀ c, part.head? = some c → isBlank c = false) ∧
    ∀ c, part.getLast? = some c → isBlank c = false

/-- The parts that a text lists: its pieces between the separators, trimmed. -/
def Parts (separator : Char) (text : List Char) (parts : List (List Char)) : Prop :=
  ∃ list, list ≠ [] ∧ (∀ piece ∈ list, separator ∉ piece) ∧ text = [separator].intercalate list ∧
    List.Forall₂ Trims list parts

variable {text part before after : List Char} {parts : List (List Char)} {c separator : Char}

/-! ## Trimming -/

private theorem trimList_append_left (hbefore : ∀ c ∈ before, isBlank c = true) (text : List Char) :
    trimList (before ++ text) = trimList text := by
  rw [trimList, List.dropWhile_append_of_pos hbefore, trimList]

private theorem trimList_append_right (hafter : ∀ c ∈ after, isBlank c = true) (text : List Char) :
    trimList (text ++ after) = trimList text := by
  have hdrop : after.dropWhile isBlank = [] := by simpa using hafter
  rw [trimList, trimList, List.dropWhile_append]
  split
  · next hempty =>
    rw [List.isEmpty_iff.mp hempty, hdrop]
  · rw [List.reverse_append, List.dropWhile_append_of_pos (by simpa using hafter)]

/-- Nothing is trimmed from a text without white space at its ends. -/
theorem trimList_eq_self (hhead : ∀ c, part.head? = some c → isBlank c = false)
    (hlast : ∀ c, part.getLast? = some c → isBlank c = false) : trimList part = part := by
  have hdrop {list : List Char} (h : ∀ c, list.head? = some c → isBlank c = false) :
      list.dropWhile isBlank = list := by
    cases list with
    | nil => rfl
    | cons c cs => exact List.dropWhile_cons_of_neg (by simp [h c rfl])
  rw [trimList, hdrop hhead, hdrop (by simpa using hlast), List.reverse_reverse]

private theorem trims_trimList (text : List Char) : Trims text (trimList text) := by
  obtain ⟨htext, hbefore, hhead⟩ := longestRun_spec isBlank text
  obtain ⟨hrest, hafter, hlast⟩ := longestRun_spec isBlank (text.dropWhile isBlank).reverse
  have hpart : text.dropWhile isBlank =
      trimList text ++ ((text.dropWhile isBlank).reverse.takeWhile isBlank).reverse := by
    rw [trimList, ← List.reverse_append, ← hrest, List.reverse_reverse]
  refine ⟨_, _, htext.trans (congrArg _ hpart), hbefore,
    fun c hc => hafter c (List.mem_reverse.mp hc), fun c hc => hhead c ?_, fun c hc => hlast c ?_⟩
  · rw [hpart, List.head?_append, hc]
    rfl
  · rwa [trimList, List.getLast?_reverse] at hc

/-- Trimming leaves exactly what is left without the white space at the ends. -/
theorem trimList_eq_iff : trimList text = part ↔ Trims text part := by
  constructor
  · rintro rfl
    exact trims_trimList text
  · rintro ⟨before, after, rfl, hbefore, hafter, hhead, hlast⟩
    rw [trimList_append_left hbefore, trimList_append_right hafter, trimList_eq_self hhead hlast]

/-- Nothing is left of a text exactly if it is blank. -/
theorem trimList_eq_nil_iff : trimList text = [] ↔ ∀ c ∈ text, isBlank c = true := by
  constructor
  · intro h
    obtain ⟨before, after, htext, hbefore, hafter, -⟩ := trimList_eq_iff.mp h
    rw [htext, List.nil_append]
    exact fun c hc => (List.mem_append.mp hc).elim (hbefore c) (hafter c)
  · intro h
    rw [← List.append_nil text, trimList_append_left h]
    rfl

/-! ## Pieces -/

private theorem pieces_eq_splitOn (separator : Char) (text : List Char) :
    pieces separator text = text.splitOn separator := by
  induction text with
  | nil => rfl
  | cons c cs ih =>
    obtain ⟨piece, later, hpieces⟩ := List.exists_cons_of_ne_nil (List.splitOn_ne_nil separator cs)
    simp [pieces, ih, List.splitOn_cons_eq_if_modifyHead, hpieces]

private theorem pieces_ne_nil (separator : Char) (text : List Char) :
    pieces separator text ≠ [] := by
  rw [pieces_eq_splitOn]
  exact List.splitOn_ne_nil _ _

private theorem not_mem_of_mem_pieces {piece : List Char} (h : piece ∈ pieces separator text) :
    separator ∉ piece := by
  induction text generalizing piece with
  | nil =>
    rw [List.mem_singleton.mp h]
    exact List.not_mem_nil
  | cons c cs ih =>
    rw [pieces] at h
    split at h
    · rcases List.mem_cons.mp h with rfl | h
      · exact List.not_mem_nil
      · exact ih h
    · next hne =>
      obtain ⟨first, later, hpieces⟩ := List.exists_cons_of_ne_nil (pieces_ne_nil separator cs)
      simp only [hpieces] at h
      rcases List.mem_cons.mp h with rfl | h
      · rw [List.mem_cons, not_or]
        exact ⟨Ne.symm hne, ih (hpieces ▸ List.mem_cons_self)⟩
      · exact ih (hpieces ▸ List.mem_cons_of_mem _ h)

/-- The parts of a text are its pieces, trimmed. -/
theorem parts_iff :
    Parts separator text parts ↔ (pieces separator text).map trimList = parts := by
  have htrims (list : List (List Char)) :
      List.Forall₂ Trims list parts ↔ list.map trimList = parts := by
    rw [← List.forall₂_eq_eq_eq, List.forall₂_map_left_iff]
    simp only [trimList_eq_iff]
  constructor
  · rintro ⟨list, hne, hlist, rfl, hparts⟩
    rw [pieces_eq_splitOn, List.splitOn_intercalate _ hlist hne]
    exact (htrims list).mp hparts
  · intro h
    refine ⟨pieces separator text, pieces_ne_nil _ _, fun _ => not_mem_of_mem_pieces, ?_,
      (htrims _).mpr h⟩
    rw [pieces_eq_splitOn, List.intercalate_splitOn]

/-- Every text lists parts. -/
theorem exists_parts (separator : Char) (text : List Char) :
    ∃ parts, Parts separator text parts :=
  ⟨_, parts_iff.mpr rfl⟩

/-! ## White space around the whole text -/

private theorem map_trimList_pieces_cons (hc : isBlank c = true) (hne : c ≠ separator) :
    (pieces separator (c :: text)).map trimList = (pieces separator text).map trimList := by
  rw [pieces, if_neg hne]
  obtain ⟨piece, later, hpieces⟩ := List.exists_cons_of_ne_nil (pieces_ne_nil separator text)
  have hblank : ∀ d ∈ [c], isBlank d = true := by simpa using hc
  rw [hpieces]
  exact congrArg (· :: later.map trimList) (trimList_append_left hblank piece)

private theorem pieces_append (hafter : separator ∉ after) (text : List Char) :
    ∃ front last, pieces separator text = front ++ [last] ∧
      pieces separator (text ++ after) = front ++ [last ++ after] := by
  induction text with
  | nil =>
    refine ⟨[], [], rfl, ?_⟩
    rw [List.nil_append, pieces_eq_splitOn, List.splitOn_eq_singleton hafter]
    rfl
  | cons c cs ih =>
    obtain ⟨front, last, hcs, happend⟩ := ih
    rw [List.cons_append, pieces, pieces, hcs, happend]
    split
    · exact ⟨[] :: front, last, rfl, rfl⟩
    · cases front with
      | nil => exact ⟨[], c :: last, rfl, rfl⟩
      | cons first front => exact ⟨(c :: first) :: front, last, rfl, rfl⟩

/-- White space around a text is around its first and its last part. -/
theorem Parts.pad (hseparator : isBlank separator = false) (h : Parts separator text parts)
    (hbefore : ∀ c ∈ before, isBlank c = true) (hafter : ∀ c ∈ after, isBlank c = true) :
    Parts separator (before ++ (text ++ after)) parts := by
  have hne {c : Char} (hc : isBlank c = true) : c ≠ separator := by
    rintro rfl
    rw [hseparator] at hc
    cases hc
  rw [parts_iff] at h ⊢
  -- the white space behind goes to the last piece at once, that in front blank by blank
  induction before with
  | nil =>
    obtain ⟨front, last, htext, happend⟩ := pieces_append
      (fun hmem => hne (hafter separator hmem) rfl) text
    rw [List.nil_append, happend, ← h, htext, List.map_append, List.map_append, List.map_singleton,
      List.map_singleton, trimList_append_right hafter]
  | cons c cs ih =>
    obtain ⟨hc, hcs⟩ := List.forall_mem_cons.mp hbefore
    rw [List.cons_append, map_trimList_pieces_cons hc (hne hc)]
    exact ih hcs

/-- Trimming the whole text first leaves the parts as they are. -/
theorem parts_trimList_iff (hseparator : isBlank separator = false) :
    Parts separator (trimList text) parts ↔ Parts separator text parts := by
  obtain ⟨before, after, htext, hbefore, hafter, -⟩ := trims_trimList text
  have hpad {others : List (List Char)} (h : Parts separator (trimList text) others) :
      Parts separator text others := htext ▸ h.pad hseparator hbefore hafter
  constructor
  · exact hpad
  · intro h
    have hparts := parts_iff.mp (hpad (parts_iff.mpr rfl))
    rw [parts_iff, ← hparts]
    exact parts_iff.mp h

end ReductionStepper.Text
