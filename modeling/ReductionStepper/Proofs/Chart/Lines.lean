import ReductionStepper.Proofs.Chart.Rows
import ReductionStepper.Proofs.Text.Line

/-!
# The lines of a chart

Without ids every row is one line, whatever the labels hold: they are folded before they are cut.
So the lines of the chart's text are its rows again, by their numbers.
-/

namespace ReductionStepper.Chart

open Text (OneLine)

variable {session : Session} {options : ChartOptions} {id : TermId} {chain : Chain}
  {later : List Chain}

/-! ## Rows are lines -/

private theorem oneLine_margin : OneLine margin := by decide

private theorem oneLine_selectedMark : OneLine selectedMark := by decide

private theorem oneLine_endingMark (ending : Ending) (id : TermId) :
    OneLine (endingMark ending id) := by
  unfold endingMark
  repeat' split
  all_goals decide

/-- A label is one line, unless the id before it is none. -/
theorem oneLine_label (hids : options.showIds = false) : OneLine (label session options id) := by
  have hterm : OneLine
      (((session.index.term? id).map fun term => Text.singleLine term.plainLabel).getD "") := by
    cases session.index.term? id with
    | none => exact Text.oneLine_empty
    | some term =>
      rw [Option.map_some, Option.getD_some]
      exact Text.oneLine_singleLine _
  simp only [label, hids, Bool.false_eq_true, if_false]
  exact hterm.append (oneLine_endingMark _ _)

private theorem oneLine_termText (hids : options.showIds = false) :
    OneLine (termText session options id) := by
  rw [termText]
  refine OneLine.append ?_ ?_
  · split
    · exact oneLine_selectedMark
    · exact oneLine_margin
  · split
    · exact oneLine_label hids
    · exact (oneLine_label hids).shorten _

private theorem oneLine_linkText (index : Index) (link : Link) : OneLine (linkText index link) := by
  unfold linkText
  split
  · decide
  split
  · decide
  · have hfront : OneLine "┃ " := by decide
    have hback : OneLine " steps" := by decide
    exact oneLine_margin.append ((hfront.append (Text.oneLine_repr _)).append hback)

/-- Every line is one line. -/
theorem oneLine_of_mem_lines (hids : options.showIds = false) :
    ∀ line ∈ lines session options, OneLine line := by
  refine List.forall_mem_map.mpr fun row _ => ?_
  cases row with
  | term id => exact oneLine_termText hids
  | link link => exact oneLine_linkText _ _
  | gap => exact Text.oneLine_empty

/-- The row of a term starts with the mark exactly if the term is selected. -/
theorem selectedMark_isPrefix_iff :
    selectedMark.toList <+: (termText session options id).toList ↔ session.selected? = some id := by
  rw [termText, String.toList_append]
  split
  · next hselected => exact iff_of_true (List.prefix_append _ _) hselected
  · next hselected =>
    refine iff_of_false (fun hprefix => ?_) hselected
    obtain ⟨rest, hrest⟩ := hprefix
    have hfirst := congrArg List.head? hrest
    cases hfirst

private theorem termText_ne_empty : termText session options id ≠ "" := by
  rw [termText, Ne, String.append_eq_empty_iff, not_and_or]
  refine .inl ?_
  split <;> decide

/-! ## Lines of the text -/

/-- The last row is that of a term. -/
theorem rowsOf_eq_append (chain : Chain) (later : List Chain) :
    ∃ above id, rowsOf (chain :: later) = above ++ [.term id] := by
  induction later generalizing chain with
  | nil =>
    obtain ⟨above, habove⟩ := chainRows_eq_append chain
    exact ⟨above, chain.last, habove⟩
  | cons next later ih =>
    obtain ⟨above, id, habove⟩ := ih next
    refine ⟨chainRows chain ++ .gap :: above, id, ?_⟩
    rw [rowsOf, habove, List.append_assoc, List.cons_append]
    exact List.cons_ne_nil _ _

variable (hids : options.showIds = false) (hchains : session.view.chains ≠ [])

include hids hchains

/-- Cutting the text at its line feeds gives the lines. -/
theorem map_splitOn_text :
    ((text session options).toList.splitOn '\n').map String.ofList = lines session options := by
  obtain ⟨chain, later, hchains⟩ := List.exists_cons_of_ne_nil hchains
  obtain ⟨below, hrows⟩ := rowsOf_eq_cons chain later
  refine Text.map_splitOn_intercalate (oneLine_of_mem_lines hids) ?_
  rw [lines, rows, hchains, hrows, List.map_cons]
  exact List.cons_ne_nil _ _

/-- The lines of the text are the lines: the last one is not empty, so none is lost. -/
theorem lines_text : Text.lines (text session options) = lines session options := by
  obtain ⟨chain, later, hchains⟩ := List.exists_cons_of_ne_nil hchains
  obtain ⟨above, id, hrows⟩ := rowsOf_eq_append chain later
  refine Text.lines_intercalate (oneLine_of_mem_lines hids) ?_
  rw [lines, rows, hchains, hrows, List.map_append, List.map_singleton, List.getLast?_concat, Ne,
    Option.some.injEq]
  exact termText_ne_empty

end ReductionStepper.Chart
