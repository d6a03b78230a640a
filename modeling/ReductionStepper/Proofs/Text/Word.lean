import Mathlib.Data.List.TakeWhile
import ReductionStepper.Text.Layout

/-!
# The words of a text

A word of a text is a longest run of characters that are not white space. A blank belongs to no word
and no word goes across it, so the words of a text with a blank in it are those before the blank and
those behind it.
-/

namespace ReductionStepper.Text

/-! ## Longest runs

What a scanner takes as long as a class of characters lasts is told apart from what it leaves by the
first character behind it. -/

section Run

variable {p : Char → Bool} {text run rest : List Char}

/-- The longest run of characters of one class is followed by a character of another one. -/
theorem longestRun_iff :
    run = text.takeWhile p ∧ rest = text.dropWhile p ↔
      text = run ++ rest ∧ (∀ c ∈ run, p c = true) ∧ ∀ c, rest.head? = some c → p c = false := by
  constructor
  · rintro ⟨rfl, rfl⟩
    refine ⟨List.takeWhile_append_dropWhile.symm, fun _ => List.mem_takeWhile_imp, fun c hc => ?_⟩
    have hstop := List.head?_dropWhile_not p text
    rw [hc] at hstop
    simpa using hstop
  · rintro ⟨rfl, hrun, hstop⟩
    rw [List.takeWhile_append_of_pos hrun, List.dropWhile_append_of_pos hrun]
    cases rest with
    | nil => simp
    | cons c cs => simp [hstop c rfl]

/-- A text is its longest run and what that leaves. -/
theorem longestRun_spec (p : Char → Bool) (text : List Char) :
    text = text.takeWhile p ++ text.dropWhile p ∧ (∀ c ∈ text.takeWhile p, p c = true) ∧
      ∀ c, (text.dropWhile p).head? = some c → p c = false :=
  longestRun_iff.mp ⟨rfl, rfl⟩

end Run

/-! ## Words -/

/-- A word stands in a text as a longest run of characters that are not white space. -/
def HasWord (text word : List Char) : Prop :=
  ∃ before after, text = before ++ (word ++ after) ∧ word ≠ [] ∧ (∀ c ∈ word, isBlank c = false) ∧
    (∀ c, before.getLast? = some c → isBlank c = true) ∧
    ∀ c, after.head? = some c → isBlank c = true

variable {text word gap : List Char} {c : Char}

/-- A word has no blank in it. -/
theorem HasWord.not_blank (h : HasWord text word) : ∀ c ∈ word, isBlank c = false := by
  obtain ⟨_, _, -, -, hword, -⟩ := h
  exact hword

/-! ## Words before and behind a blank -/

private theorem leadingWord_append_cons (hc : isBlank c = true) (before rest : List Char) :
    leadingWord (before ++ c :: rest) =
      ((leadingWord before).1, (leadingWord before).2 ++ wordList rest) := by
  induction before with
  | nil => simp [leadingWord, wordList, hc]
  | cons d before ih =>
    by_cases hd : isBlank d = true
    · simp only [List.cons_append, leadingWord, ih, hd, if_true]
      split <;> rfl
    · simp [leadingWord, ih, hd]

/-- A blank parts the words before it from those behind it. -/
theorem wordList_append_cons (hc : isBlank c = true) (before rest : List Char) :
    wordList (before ++ c :: rest) = wordList before ++ wordList rest := by
  simp only [wordList, leadingWord_append_cons hc before rest]
  split <;> rfl

private theorem leadingWord_eq_self (hword : ∀ c ∈ word, isBlank c = false) :
    leadingWord word = (word, []) := by
  induction word with
  | nil => rfl
  | cons c cs ih =>
    obtain ⟨hc, hcs⟩ := List.forall_mem_cons.mp hword
    simp [leadingWord, ih hcs, hc]

/-- A text without a blank is one word. -/
theorem wordList_eq_singleton (hne : word ≠ []) (hword : ∀ c ∈ word, isBlank c = false) :
    wordList word = [word] := by
  simp [wordList, leadingWord_eq_self hword, hne]

/-- Blanks at the front of a text belong to no word. -/
theorem wordList_append_of_blanks (hgap : ∀ c ∈ gap, isBlank c = true) (text : List Char) :
    wordList (gap ++ text) = wordList text := by
  induction gap with
  | nil => rfl
  | cons c cs ih =>
    obtain ⟨hc, hcs⟩ := List.forall_mem_cons.mp hgap
    rw [List.cons_append]
    exact (wordList_append_cons hc [] _).trans (ih hcs)

/-- Texts with white space between them have the words of the one and then those of the other. -/
theorem wordList_append_append (hne : gap ≠ []) (hgap : ∀ c ∈ gap, isBlank c = true)
    (text other : List Char) :
    wordList (text ++ gap ++ other) = wordList text ++ wordList other := by
  obtain ⟨c, cs, rfl⟩ := List.exists_cons_of_ne_nil hne
  obtain ⟨hc, hcs⟩ := List.forall_mem_cons.mp hgap
  rw [List.append_assoc, List.cons_append, wordList_append_cons hc, wordList_append_of_blanks hcs]

/-- Words that are written with spaces between them are the words of the whole. -/
theorem wordList_intercalate {list : List (List Char)} (hne : ∀ word ∈ list, word ≠ [])
    (hlist : ∀ word ∈ list, ∀ c ∈ word, isBlank c = false) :
    wordList ([' '].intercalate list) = list := by
  induction list with
  | nil => rfl
  | cons word later ih =>
    obtain ⟨hword, hlater⟩ := List.forall_mem_cons.mp hlist
    obtain ⟨hwordNe, hlaterNe⟩ := List.forall_mem_cons.mp hne
    have hfirst := wordList_eq_singleton hwordNe hword
    cases later with
    | nil => rw [List.intercalate_singleton, hfirst]
    | cons next later =>
      have hspace : ∀ c ∈ [' '], isBlank c = true := List.forall_mem_singleton.mpr rfl
      rw [List.intercalate_cons_cons, wordList_append_append (List.cons_ne_nil _ _) hspace, hfirst,
        ih hlaterNe hlater, List.singleton_append]

/-! ## What stands in a text as a word -/

private theorem exists_run (text : List Char) : ∃ run rest, text = run ++ rest ∧
    (∀ c ∈ run, isBlank c = false) ∧ ∀ c, rest.head? = some c → isBlank c = true := by
  obtain ⟨htext, hrun, hstop⟩ := longestRun_spec (fun c => !isBlank c) text
  exact ⟨_, _, htext, by simpa using hrun, by simpa using hstop⟩

private theorem hasWord_of_mem (h : word ∈ wordList text) : HasWord text word := by
  -- the induction goes from one run to the next, not from one character to the next
  induction hlength : text.length using Nat.strongRecOn generalizing text with
  | _ n ih =>
    obtain ⟨run, rest, rfl, hrun, hstop⟩ := exists_run text
    have hleft (hmem : word ∈ wordList run) : HasWord (run ++ rest) word := by
      have hne : run ≠ [] := by
        rintro rfl
        exact absurd hmem List.not_mem_nil
      rw [wordList_eq_singleton hne hrun, List.mem_singleton] at hmem
      subst hmem
      exact ⟨[], rest, rfl, hne, hrun, nofun, hstop⟩
    cases rest with
    | nil =>
      rw [List.append_nil] at h
      exact hleft h
    | cons c cs =>
      have hc := hstop c rfl
      rw [wordList_append_cons hc, List.mem_append] at h
      rcases h with h | h
      · exact hleft h
      · have hlt : cs.length < n := by
          rw [← hlength, List.length_append, List.length_cons]
          omega
        obtain ⟨before, after, rfl, hne, hword, hstart, hend⟩ := ih cs.length hlt h rfl
        refine ⟨run ++ c :: before, after, by simp, hne, hword, ?_, hend⟩
        intro d hd
        have hlast : before.getLast?.getD c = d := by
          simpa [List.getLast?_append, List.getLast?_cons] using hd
        cases hbefore : before.getLast? with
        | none =>
          rw [hbefore, Option.getD_none] at hlast
          rwa [← hlast]
        | some e =>
          rw [hbefore, Option.getD_some] at hlast
          exact hstart d (hlast ▸ hbefore)

private theorem mem_of_hasWord (h : HasWord text word) : word ∈ wordList text := by
  obtain ⟨before, after, rfl, hne, hword, hstart, hend⟩ := h
  have hbehind : word ∈ wordList (word ++ after) := by
    cases after with
    | nil => simp [wordList_eq_singleton hne hword]
    | cons c cs => simp [wordList_append_cons (hend c rfl), wordList_eq_singleton hne hword]
  cases hlast : before.getLast? with
  | none =>
    rw [List.getLast?_eq_none_iff.mp hlast]
    exact hbehind
  | some c =>
    obtain ⟨front, rfl⟩ := List.getLast?_eq_some_iff.mp hlast
    rw [List.append_assoc, List.singleton_append, wordList_append_cons (hstart c hlast)]
    exact List.mem_append_right _ hbehind

/-- The words that are found are those that stand in the text. -/
theorem mem_wordList_iff : word ∈ wordList text ↔ HasWord text word :=
  ⟨hasWord_of_mem, mem_of_hasWord⟩

end ReductionStepper.Text
