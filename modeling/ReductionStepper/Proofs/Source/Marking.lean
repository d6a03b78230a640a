import Mathlib.Data.List.SplitBy
import Mathlib.Data.Prod.Lex
import ReductionStepper.Source.Marking

/-!
# The segments of a line

The segments of a line keep every character in its place and give it the mark of the ranges that
cover it. Parts of a line that hold a character each and differ in mark from their neighbours are
settled by that: grouping the marked characters by their marks gives the parts back.
-/

namespace ReductionStepper.Source

/-! ## Characters in a range -/

/-- A character of a line lies in a range: in the order of the text, by line and then by column, it
is not before the start and is before the end. -/
def Range.Covers (range : Range) (line column : Nat) : Prop :=
  toLex (range.start.line.toNat, range.start.column.toNat) ≤ toLex (line, column) ∧
    toLex (line, column) < toLex (range.stop.line.toNat, range.stop.column.toNat)

/-- Some diagnostic covers a character. -/
def Annotated (diagnostics : List Diagnostic) (line column : Nat) : Prop :=
  ∃ diagnostic ∈ diagnostics, diagnostic.range.Covers line column

/-- The highlight covers a character. -/
def Highlighted (highlight : Option Range) (line column : Nat) : Prop :=
  ∃ range, highlight = some range ∧ range.Covers line column

variable {line : UInt32} {column : Nat} {highlight : Option Range} {diagnostics : List Diagnostic}

/-- In a line of less than 2³² characters every column is a number of 32 bits. -/
theorem toNat_clamp (h : column < UInt32.size) : (clamp column).toNat = column := by
  rw [clamp, Nat.min_eq_left (Nat.le_sub_one_of_lt h)]
  exact UInt32.toNat_ofNat_of_lt' h

private theorem Range.contains_iff_covers {range : Range} {p : Position} :
    range.contains p = true ↔ range.Covers p.line.toNat p.column.toNat := by
  simp only [contains, Position.before, Covers, Prod.Lex.toLex_le_toLex, Prod.Lex.toLex_lt_toLex,
    ← UInt32.toNat_inj, UInt32.lt_iff_toNat_lt, Bool.and_eq_true, Bool.not_eq_true',
    Bool.or_eq_true, Bool.or_eq_false_iff, Bool.and_eq_false_iff, decide_eq_true_eq,
    decide_eq_false_iff_not, beq_iff_eq, beq_eq_false_iff_ne, ne_eq]
  omega

/-- The mark of a character as the ranges tell it: a diagnostic wins over the highlight. -/
theorem markAt_spec (h : column < UInt32.size) :
    (markAt highlight diagnostics ⟨line, clamp column⟩ = .annotated ↔
      Annotated diagnostics line.toNat column) ∧
    (markAt highlight diagnostics ⟨line, clamp column⟩ = .highlight ↔
      ¬Annotated diagnostics line.toNat column ∧ Highlighted highlight line.toNat column) ∧
    (markAt highlight diagnostics ⟨line, clamp column⟩ = .plain ↔
      ¬Annotated diagnostics line.toNat column ∧ ¬Highlighted highlight line.toNat column) := by
  have hannotated : diagnostics.any (·.range.contains ⟨line, clamp column⟩) = true ↔
      Annotated diagnostics line.toNat column := by
    simp only [List.any_eq_true, Range.contains_iff_covers, toNat_clamp h, Annotated]
  have hhighlighted : highlight.any (·.contains ⟨line, clamp column⟩) = true ↔
      Highlighted highlight line.toNat column := by
    simp only [Option.any_eq_true, Range.contains_iff_covers, toNat_clamp h, Highlighted]
  rw [← hannotated, ← hhighlighted]
  unfold markAt
  split
  · simp_all
  · split <;> simp_all

/-! ## Parts of a line -/

/-- The marks of the characters of a segment. -/
def Segment.marks (segment : Segment) : List Mark :=
  List.replicate segment.text.length segment.mark

/-- The characters of a segment, each with the mark. -/
def Segment.characters (segment : Segment) : List (Char × Mark) :=
  segment.text.toList.map (·, segment.mark)

/-- The segment of characters that share their mark. -/
def Segment.ofCharacters (characters : List (Char × Mark)) : Segment :=
  ⟨String.ofList (characters.map Prod.fst), (characters.head?.map Prod.snd).getD .plain⟩

/-- Parts of a line that follow each other, each with a character at least and with another mark
than its neighbours. -/
structure Divides (text : String) (parts : List Segment) : Prop where
  text_eq : parts.flatMap (fun part => part.text.toList) = text.toList
  text_ne : ∀ part ∈ parts, part.text ≠ ""
  mark_ne : parts.IsChain fun part next => part.mark ≠ next.mark

variable {text : String} {parts others : List Segment} {segment : Segment}

private theorem Segment.ofCharacters_characters (h : segment.text ≠ "") :
    ofCharacters segment.characters = segment := by
  obtain ⟨text, mark⟩ := segment
  obtain ⟨c, cs, htext⟩ := List.exists_cons_of_ne_nil (mt String.toList_eq_nil_iff.mp h)
  have hfirst : (characters ⟨text, mark⟩).map Prod.fst = text.toList := by
    simp [characters, Function.comp_def]
  rw [ofCharacters, hfirst, String.ofList_toList, characters, htext]
  rfl

/-- The characters of parts with their marks are the texts and the marks side by side. -/
theorem flatMap_characters (parts : List Segment) :
    parts.flatMap Segment.characters =
      (parts.flatMap (fun part => part.text.toList)).zip (parts.flatMap Segment.marks) := by
  induction parts with
  | nil => rfl
  | cons part later ih =>
    have hlength : part.text.toList.length = part.marks.length := by
      rw [Segment.marks, List.length_replicate, String.length_toList]
    have hpart : part.characters = part.text.toList.zip part.marks := by
      rw [Segment.characters, List.map_prod_left_eq_zip, List.map_const', String.length_toList]
      rfl
    rw [List.flatMap_cons, List.flatMap_cons, List.flatMap_cons, List.zip_append hlength, ih, hpart]

namespace Divides

/-- Grouping the characters of parts by their marks gives the parts back. -/
theorem splitBy_characters (h : Divides text parts) :
    (parts.flatMap Segment.characters).splitBy (fun a b => a.2 = b.2) =
      parts.map Segment.characters := by
  have hne : ∀ part ∈ parts, part.characters ≠ [] := fun part hpart hnil =>
    h.text_ne part hpart (by simpa [Segment.characters] using hnil)
  rw [List.flatMap_def]
  refine List.splitBy_flatten ?_ ?_ ?_
  · intro hnil
    obtain ⟨part, hpart, hnil⟩ := List.mem_map.mp hnil
    exact hne part hpart hnil
  · refine List.forall_mem_map.mpr fun part _ => List.Pairwise.isChain ?_
    rw [Segment.characters, List.pairwise_map]
    exact List.pairwise_of_forall fun _ _ => decide_eq_true rfl
  · rw [List.isChain_map]
    refine List.IsChain.imp_of_mem_imp ?_ h.mark_ne
    intro part next hpart hnext hmark
    refine ⟨hne part hpart, hne next hnext, decide_eq_false ?_⟩
    simpa [Segment.characters, List.getLast_map, List.head_map] using hmark

/-- Every character has one mark. -/
theorem length_marks (h : Divides text parts) :
    (parts.flatMap Segment.marks).length = text.length := by
  rw [← String.length_toList, ← h.text_eq, List.length_flatMap, List.length_flatMap]
  simp [Segment.marks, String.length_toList]

/-- Parts are settled by the texts and the marks that they make up. -/
theorem eq_of_marks_eq (h : Divides text parts) (hother : Divides text others)
    (hmarks : parts.flatMap Segment.marks = others.flatMap Segment.marks) : parts = others := by
  have hregain {parts : List Segment} (h : Divides text parts) :
      (parts.map Segment.characters).map Segment.ofCharacters = parts := by
    rw [List.map_map]
    exact (List.map_congr_left fun part hpart =>
      Segment.ofCharacters_characters (h.text_ne part hpart)).trans (List.map_id parts)
  have hcharacters : parts.flatMap Segment.characters = others.flatMap Segment.characters := by
    rw [flatMap_characters, flatMap_characters, h.text_eq, hother.text_eq, hmarks]
  calc parts = (parts.map Segment.characters).map Segment.ofCharacters := (hregain h).symm
    _ = (others.map Segment.characters).map Segment.ofCharacters := by
      rw [← h.splitBy_characters, hcharacters, hother.splitBy_characters]
    _ = others := hregain hother

end Divides

/-! ## Runs of one mark -/

section Runs

variable {markOf : Nat → Mark} {cs : List Char}

/-- The runs hold every character in its place. -/
theorem flatMap_fst_markedRuns : (markedRuns markOf column cs).flatMap Prod.fst = cs := by
  fun_induction markedRuns markOf column cs <;> simp_all

/-- The runs give every character its mark. -/
theorem flatMap_snd_markedRuns :
    (markedRuns markOf column cs).flatMap (fun run => List.replicate run.1.length run.2) =
      cs.mapIdx fun i _ => markOf (column + i) := by
  have hshift (column i : Nat) : column + 1 + i = column + (i + 1) := by omega
  fun_induction markedRuns markOf column cs with
  | case1 => rfl
  | case2 column c cs hruns ih =>
    rw [hruns] at ih
    simp_all [List.mapIdx_cons]
  | case3 column c cs run later hruns ih =>
    rw [hruns] at ih
    simp_all [List.mapIdx_cons, List.replicate_succ]
  | case4 column c cs run mark later hruns hmark ih =>
    rw [hruns] at ih
    simp_all [List.mapIdx_cons]

private theorem ne_nil_of_mem_markedRuns : ∀ run ∈ markedRuns markOf column cs, run.1 ≠ [] := by
  fun_induction markedRuns markOf column cs with
  | case1 => exact List.forall_mem_nil _
  | case2 => exact List.forall_mem_singleton.mpr (List.cons_ne_nil _ _)
  | case3 column c cs run later hruns ih =>
    rw [hruns] at ih
    exact List.forall_mem_cons.mpr ⟨List.cons_ne_nil _ _, (List.forall_mem_cons.mp ih).2⟩
  | case4 column c cs run mark later hruns hmark ih =>
    rw [hruns] at ih
    exact List.forall_mem_cons.mpr ⟨List.cons_ne_nil _ _, ih⟩

/-- Runs that follow each other differ in their marks. -/
theorem isChain_markedRuns :
    (markedRuns markOf column cs).IsChain fun run next => run.2 ≠ next.2 := by
  fun_induction markedRuns markOf column cs <;> simp_all [List.isChain_cons]

end Runs

/-! ## Segments -/

/-- The segments divide the line. -/
theorem divides_segments (line : UInt32) (text : String) (highlight : Option Range)
    (diagnostics : List Diagnostic) :
    Divides text (segments line text highlight diagnostics) where
  text_eq := by
    rw [segments, List.flatMap_map]
    simp only [String.toList_ofList]
    exact flatMap_fst_markedRuns
  text_ne := by
    refine List.forall_mem_map.mpr fun run hrun => ?_
    simpa using ne_nil_of_mem_markedRuns run hrun
  mark_ne := by
    rw [segments, List.isChain_map]
    exact isChain_markedRuns

/-- The segments give every character of the line its mark. -/
theorem getElem?_marks_segments (h : column < text.length) :
    ((segments line text highlight diagnostics).flatMap Segment.marks)[column]? =
      some (markAt highlight diagnostics ⟨line, clamp column⟩) := by
  rw [← String.length_toList] at h
  rw [segments, List.flatMap_map]
  simp only [Segment.marks, String.length_ofList]
  rw [flatMap_snd_markedRuns, List.getElem?_mapIdx, List.getElem?_eq_getElem h, Option.map_some,
    Nat.zero_add]

/-- The segments of a line are the one division of the line into parts of one mark, none of them
empty and no neighbours of the same mark, in which a character is annotated exactly if a diagnostic
covers it, highlighted exactly if no diagnostic but the highlight does, and else plain. -/
theorem segments_divide_uniquely (line : UInt32) (text : String) (highlight : Option Range)
    (diagnostics : List Diagnostic) (hlength : text.length < UInt32.size) (parts : List Segment) :
    parts = segments line text highlight diagnostics ↔
      Divides text parts ∧ ∀ column < text.length,
        ((parts.flatMap Segment.marks)[column]? = some .annotated ↔
          Annotated diagnostics line.toNat column) ∧
        ((parts.flatMap Segment.marks)[column]? = some .highlight ↔
          ¬Annotated diagnostics line.toNat column ∧ Highlighted highlight line.toNat column) ∧
        ((parts.flatMap Segment.marks)[column]? = some .plain ↔
          ¬Annotated diagnostics line.toNat column ∧
            ¬Highlighted highlight line.toNat column) := by
  have hspec (column : Nat) (hcolumn : column < text.length) :=
    @markAt_spec line column highlight diagnostics (hcolumn.trans hlength)
  have hsegments := divides_segments line text highlight diagnostics
  constructor
  · rintro rfl
    refine ⟨hsegments, fun column hcolumn => ?_⟩
    simpa only [getElem?_marks_segments hcolumn, Option.some.injEq] using hspec column hcolumn
  · rintro ⟨hparts, hmarks⟩
    refine hparts.eq_of_marks_eq hsegments (List.ext_getElem? fun column => ?_)
    by_cases hcolumn : column < text.length
    · -- whichever mark the ranges tell, the parts have it there
      obtain ⟨hannotated, hhighlight, hplain⟩ := hmarks column hcolumn
      obtain ⟨hannotated', hhighlight', hplain'⟩ := hspec column hcolumn
      rw [getElem?_marks_segments hcolumn]
      cases hmark : markAt highlight diagnostics ⟨line, clamp column⟩ with
      | annotated => exact hannotated.mpr (hannotated'.mp hmark)
      | highlight => exact hhighlight.mpr (hhighlight'.mp hmark)
      | plain => exact hplain.mpr (hplain'.mp hmark)
    · rw [List.getElem?_eq_none (by rw [hparts.length_marks]; omega),
        List.getElem?_eq_none (by rw [hsegments.length_marks]; omega)]

/-- A diagnostic that goes on over the end of the line wins over the highlight that began on an
earlier one; a diagnostic whose range ends before it starts marks nothing. -/
theorem segments_divide_uniquely_overlapping :
    let highlight : Option Range := some ⟨⟨0, 7⟩, ⟨1, 3⟩⟩
    let diagnostics : List Diagnostic :=
      [⟨⟨⟨1, 2⟩, ⟨2, 0⟩⟩, "open"⟩, ⟨⟨⟨1, 1⟩, ⟨1, 0⟩⟩, "reversed"⟩]
    let parts : List Segment := [⟨"ab", .highlight⟩, ⟨"cd", .annotated⟩]
    "abcd".length < UInt32.size ∧ parts = segments 1 "abcd" highlight diagnostics ∧
      Divides "abcd" parts ∧ Highlighted highlight 1 1 ∧ ¬Annotated diagnostics 1 1 ∧
      Annotated diagnostics 1 2 := by
  intro highlight diagnostics parts
  have hlength : "abcd".length < UInt32.size := by decide
  have hparts : parts = segments 1 "abcd" highlight diagnostics := by decide +kernel
  obtain ⟨hdivides, hmarks⟩ :=
    (segments_divide_uniquely 1 "abcd" highlight diagnostics hlength parts).mp hparts
  obtain ⟨hannotated, hhighlighted⟩ := (hmarks 1 (by decide)).2.1.mp (by decide +kernel)
  exact ⟨hlength, hparts, hdivides, hhighlighted, hannotated,
    (hmarks 2 (by decide)).1.mp (by decide +kernel)⟩

end ReductionStepper.Source
