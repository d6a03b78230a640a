import Mathlib.Data.List.Perm.Basic
import ReductionStepper.CommandLine.Options
import ReductionStepper.Proofs.Text.Numeral

/-!
# Groups of arguments

Arguments divide into groups exactly if they are spellings of groups one behind the other, and then
in one way only. A flag takes whatever follows it as its value, so a word is never looked at twice.
-/

namespace ReductionStepper.CommandLine

/-! ## Spellings -/

/-- How a group is written. -/
inductive Group.Spelling : Group → List String → Prop where
  | print : Spelling .print ["--print"]
  /-- The value must not start like a flag. -/
  | text {flag : Flag} {value : String} (hvalue : ¬['-', '-'] <+: value.toList) :
      Spelling (.text flag value) [flag.word, value]
  | timeout {seconds : UInt64} {numeral : String} (hpos : seconds ≠ 0)
      (hnumeral : Text.Denotes numeral.toList seconds.toNat) :
      Spelling (.timeout seconds) ["--timeout-secs", numeral]
  /-- The name of a program file must not start with a dash. -/
  | file {path : String} (hpath : ¬['-'] <+: path.toList) : Spelling (.file path) [path]

/-- Arguments that are spellings of groups one behind the other. -/
def Splits (arguments : List String) (groups : List Group) : Prop :=
  ∃ pieces, List.Forall₂ Group.Spelling groups pieces ∧ pieces.flatten = arguments

variable {arguments rest piece : List String} {group : Group} {groups : List Group}

/-- The seconds of a text are the number that it denotes, unless it is zero or too large. -/
theorem readSeconds?_eq_some_iff {text : String} {seconds : UInt64} :
    readSeconds? text = some seconds ↔ seconds ≠ 0 ∧ Text.Denotes text.toList seconds.toNat := by
  have hread : readSeconds? text = some seconds ↔
      ∃ n, Text.readSignedNumeral UInt64.size text.toList = some n ∧ n ≠ 0 ∧
        UInt64.ofNat n = seconds := by
    unfold readSeconds?
    cases Text.readSignedNumeral UInt64.size text.toList <;> simp
  simp only [hread, Text.readSignedNumeral_eq_some_iff]
  constructor
  · rintro ⟨n, ⟨hdenotes, hbound⟩, hpos, rfl⟩
    have hvalue : (UInt64.ofNat n).toNat = n := UInt64.toNat_ofNat_of_lt' hbound
    refine ⟨fun hzero => hpos ?_, hvalue.symm ▸ hdenotes⟩
    rw [← hvalue, hzero]
    rfl
  · rintro ⟨hpos, hdenotes⟩
    refine ⟨seconds.toNat, ⟨hdenotes, seconds.toNat_lt_size⟩, ?_, UInt64.ofNat_toNat⟩
    exact fun hzero => hpos (UInt64.toNat_inj.mp hzero)

private theorem startsLikeFlag_eq_false_iff {text : String} :
    startsLikeFlag text = false ↔ ¬['-', '-'] <+: text.toList := by
  rw [startsLikeFlag, Bool.eq_false_iff, ne_eq, List.isPrefixOf_iff_prefix]

private theorem Flag.eq_word_of_ofWord?_eq_some {word : String} {flag : Flag}
    (h : Flag.ofWord? word = some flag) : word = flag.word := by
  have hword := List.find?_some h
  exact (of_decide_eq_true hword).symm

private theorem Flag.dash_prefix_word (flag : Flag) : ['-'] <+: flag.word.toList := by
  cases flag <;> decide

/-- The groups of a spelling and what follows it. -/
theorem groups?_append (h : group.Spelling piece) (rest : List String) :
    groups? (piece ++ rest) = (groups? rest).map (group :: ·) := by
  cases h with
  | print =>
    rw [List.singleton_append, groups?.eq_def]
    rfl
  | @text flag value hvalue =>
    have hprint : flag.word ≠ "--print" := by cases flag <;> decide
    have htimeout : flag.word ≠ "--timeout-secs" := by cases flag <;> decide
    rw [List.cons_append, List.singleton_append, groups?, if_neg hprint, if_neg htimeout,
      Flag.ofWord?_word]
    simp only [startsLikeFlag_eq_false_iff.mpr hvalue, Bool.false_eq_true, if_false]
  | @timeout seconds numeral hpos hnumeral =>
    rw [List.cons_append, List.singleton_append, groups?, if_neg (by decide), if_pos rfl]
    simp only [readSeconds?_eq_some_iff.mpr ⟨hpos, hnumeral⟩]
  | @file path hpath =>
    have hdash {word : String} (hword : ['-'] <+: word.toList) : path ≠ word :=
      fun heq => hpath (heq ▸ hword)
    have hprint : path ≠ "--print" := hdash (by decide)
    have htimeout : path ≠ "--timeout-secs" := hdash (by decide)
    rw [List.singleton_append, groups?.eq_def]
    simp only [hprint, htimeout, if_false]
    cases hflag : Flag.ofWord? path with
    | some flag =>
      exact absurd (Flag.eq_word_of_ofWord?_eq_some hflag) (hdash flag.dash_prefix_word)
    | none => simp only [List.isPrefixOf_iff_prefix, hpath, if_false]

private theorem Splits.nil : Splits [] [] := ⟨[], .nil, rfl⟩

private theorem Splits.cons (hgroup : group.Spelling piece) (h : Splits rest groups) :
    Splits (piece ++ rest) (group :: groups) := by
  obtain ⟨pieces, hpieces, rfl⟩ := h
  exact ⟨piece :: pieces, .cons hgroup hpieces, rfl⟩

/-- Groups can be written one behind the other if each of them can be written. -/
theorem exists_splits_iff :
    (∃ arguments, Splits arguments groups) ↔ ∀ group ∈ groups, ∃ piece, group.Spelling piece := by
  induction groups with
  | nil => exact ⟨fun _ _ hgroup => absurd hgroup List.not_mem_nil, fun _ => ⟨[], .nil⟩⟩
  | cons first later ih =>
    rw [List.forall_mem_cons, ← ih]
    constructor
    · rintro ⟨_, pieces, hpieces, rfl⟩
      cases hpieces with
      | cons hfirst hlater => exact ⟨⟨_, hfirst⟩, _, _, hlater, rfl⟩
    · rintro ⟨⟨piece, hpiece⟩, rest, hrest⟩
      exact ⟨piece ++ rest, hrest.cons hpiece⟩

/-- Arguments are divided as they split into spellings. -/
theorem groups?_eq_some_iff : groups? arguments = some groups ↔ Splits arguments groups := by
  constructor
  · intro h
    fun_induction groups? arguments generalizing groups with
    | case1 =>
      cases h
      exact .nil
    | case2 rest ih =>
      obtain ⟨later, hlater, rfl⟩ := Option.map_eq_some_iff.mp h
      exact (ih hlater).cons .print
    | case5 value rest seconds hseconds _ ih =>
      obtain ⟨later, hlater, rfl⟩ := Option.map_eq_some_iff.mp h
      obtain ⟨hpos, hnumeral⟩ := readSeconds?_eq_some_iff.mp hseconds
      exact (ih hlater).cons (.timeout hpos hnumeral)
    | case8 arg _ _ flag hflag value rest hvalue ih =>
      obtain ⟨later, hlater, rfl⟩ := Option.map_eq_some_iff.mp h
      rw [Flag.eq_word_of_ofWord?_eq_some hflag]
      exact (ih hlater).cons (.text (startsLikeFlag_eq_false_iff.mp (Bool.eq_false_iff.mpr hvalue)))
    | case10 path rest _ _ _ hpath ih =>
      obtain ⟨later, hlater, rfl⟩ := Option.map_eq_some_iff.mp h
      exact (ih hlater).cons (.file (mt List.isPrefixOf_iff_prefix.mpr hpath))
    -- in the other cases a value is missing or refused
    | _ => cases h
  · rintro ⟨pieces, hpieces, rfl⟩
    induction hpieces with
    | nil => rfl
    | cons hgroup _ ih => rw [List.flatten_cons, groups?_append hgroup, ih, Option.map_some]

/-- Arguments split in one way only. -/
theorem Splits.unique {others : List Group} (h : Splits arguments groups)
    (h' : Splits arguments others) : groups = others := by
  rw [← groups?_eq_some_iff] at h h'
  exact Option.some.inj (h.symm.trans h')

/-- Spellings in another order are spellings of the groups in that order. -/
theorem exists_spelling_perm {pieces others : List (List String)}
    (h : List.Forall₂ Group.Spelling groups pieces) (hperm : pieces.Perm others) :
    ∃ later, groups.Perm later ∧ List.Forall₂ Group.Spelling later others := by
  obtain ⟨later, hlater, hgroups⟩ := List.perm_comp_forall₂ hperm.symm h.flip
  exact ⟨later, hgroups.symm, hlater.flip⟩

end ReductionStepper.CommandLine
