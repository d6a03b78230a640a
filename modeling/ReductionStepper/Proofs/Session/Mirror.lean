import ReductionStepper.Proofs.Chart.Rows
import ReductionStepper.Proofs.Plan.Mirror
import ReductionStepper.Proofs.Session.Moves

/-!
# Mirrored sessions

A session on a mirrored graph that is given renamed commands answers what the session on the graph
answers, renamed, and goes through the renamed states. So whatever two mirrored graphs differ in
can neither be met by stepping nor be seen in a chart.
-/

namespace ReductionStepper

/-! ## Renamed parts of a session -/

/-- The selection of the renamed term, at the same place in the program. -/
def Selection.rename (f : TermId → TermId) (selection : Selection) : Selection :=
  { term := f selection.term
    plan := selection.plan.rename f
    highlight := selection.highlight }

/-- The row of what is renamed. -/
def ChartRow.rename (f : TermId → TermId) : ChartRow → ChartRow
  | .term id => .term (f id)
  | .link shown => .link (shown.rename f)
  | .gap => .gap

namespace Session

/-- The session on another graph in the renamed state. -/
def rename (f : TermId → TermId) (image : Graph) (session : Session) : Session :=
  { index := Index.ofGraph image
    view := session.view.rename f
    selection := session.selection.map (Selection.rename f)
    check := session.check }

/-- The command about the renamed term. -/
def Command.rename (f : TermId → TermId) : Command → Command
  | .select id => .select (f id)
  | .deselect => .deselect
  | .perform action => .perform action
  | .undo => .undo
  | .reset => .reset

/-- The answer about what is renamed. -/
def Answer.rename (f : TermId → TermId) : Answer → Answer
  | .selected (.ok plan) => .selected (.ok (plan.rename f))
  | .selected (.error error) => .selected (.error (error.rename f))
  | .performed (.ok change) => .performed (.ok (change.rename f))
  | .performed (.error error) => .performed (.error (error.rename f))
  | .undone change => .undone (change.map (Change.rename f))
  | .done => .done

/-- The renaming keeps a term that is about to be selected apart from the terms of the graph. -/
def Command.Apart (graph : Graph) (f : TermId → TermId) (command : Command) : Prop :=
  ∀ id, command = .select id → ∀ other, (Index.ofGraph graph).contains other = true →
    f id = f other → id = other

section Rename

/-- In a renamed session the image of the selected term is selected. -/
@[simp] theorem selected?_rename (f : TermId → TermId) (image : Graph) (session : Session) :
    (session.rename f image).selected? = session.selected?.map f := by
  rw [selected?, selected?, rename, Option.map_map, Option.map_map]
  rfl

/-- A command that keeps its names stays as it is. -/
@[simp] theorem Command.rename_id : Command.rename id = id := by
  funext command
  cases command <;> rfl

/-- An answer that keeps its names stays as it is. -/
@[simp] theorem Answer.rename_id : Answer.rename id = id := by
  funext answer
  cases answer with
  | selected result => cases result <;> simp [Answer.rename]
  | performed result => cases result <;> simp [Answer.rename]
  | _ => simp [Answer.rename]

end Rename

end Session

/-- A selection that keeps its names stays as it is. -/
@[simp] theorem Selection.rename_id : Selection.rename id = id := by
  funext selection
  simp [Selection.rename]

/-- A row that keeps its names stays as it is. -/
@[simp] theorem ChartRow.rename_id : ChartRow.rename id = id := by
  funext row
  cases row <;> rfl

namespace Chart

/-! ## Rows of a chart -/

variable {chains : List Chain}

private theorem chainRows_rename (f : TermId → TermId) (chain : Chain) :
    chainRows (chain.rename f) = (chainRows chain).map (ChartRow.rename f) := by
  simp [chainRows, linkRows, Chain.rename, ChartRow.rename, List.flatMap_map, List.map_flatMap]

/-- The rows of renamed chains are the renamed rows. -/
theorem rowsOf_map_rename (f : TermId → TermId) :
    rowsOf (chains.map (Chain.rename f)) = (rowsOf chains).map (ChartRow.rename f) := by
  induction chains using rowsOf.induct with
  | case1 => rfl
  | case2 chain => exact chainRows_rename f chain
  | case3 chain later hlater ih =>
    have hlater' : later.map (Chain.rename f) = [] → False := hlater ∘ List.map_eq_nil_iff.mp
    rw [List.map_cons, rowsOf, rowsOf, chainRows_rename, ih, List.map_append, List.map_cons]
    · rfl
    · exact hlater
    · exact hlater'

end Chart

namespace Graph.Mirrors

open Session

variable {f : TermId → TermId} {graph image : Graph} (h : graph.Mirrors f image)
  {session : Session}

include h

/-! ## Runs -/

/-- A fresh session on the graph becomes a fresh session on the image. -/
theorem rename_session_start :
    (Session.start graph).rename f image = Session.start image := by
  simp only [Session.rename, Session.start, h.rename_start, Option.map_none]

section Coherent

variable (hsession : session.Coherent graph)

include hsession

/-- The selection of a renamed term is the renamed selection of the term. -/
theorem selectionOf_eq {id : TermId} (hshown : session.view.shows id = true) :
    (session.rename f image).selectionOf (f id) = (session.selectionOf id).rename f := by
  have hknown := hsession.grown.known hshown
  simp only [selectionOf, Session.rename, Selection.rename, hsession.index_eq,
    h.make_eq hsession.grown hknown, h.term?_eq id hknown]
  cases (Index.ofGraph graph).term? id <;> rfl

private theorem select_eq {id : TermId} (hapart : (Command.select id).Apart graph f) :
    (session.rename f image).obey (.select (f id)) =
      ((session.obey (.select id)).1.rename f, (session.obey (.select id)).2.rename f image) := by
  have hshows : (session.view.rename f).shows (f id) = session.view.shows id :=
    View.shows_rename fun other hother => hapart id rfl other (hsession.grown.known hother)
  cases hshown : session.view.shows id with
  | true =>
    have himage : (session.rename f image).view.shows (f id) = true := hshows.trans hshown
    simp only [obey, select_of_shows hshown, select_of_shows himage,
      h.selectionOf_eq hsession hshown]
    rfl
  | false =>
    have himage : (session.rename f image).view.shows (f id) = false := hshows.trans hshown
    simp only [obey, Session.select, hshown, himage]
    rfl

private theorem perform_eq (action : Action) :
    (session.rename f image).obey (.perform action) =
      ((session.obey (.perform action)).1.rename f,
        (session.obey (.perform action)).2.rename f image) := by
  cases hselected : session.selection with
  | none => simp [obey, perform, Session.rename, hselected, Answer.rename, NavigationError.rename]
  | some selection =>
    have himage : (session.rename f image).selection = some (selection.rename f) := by
      simp [Session.rename, hselected]
    have happly := h.apply_eq hsession.grown selection.term action
    rw [← hsession.plan_eq hselected] at happly
    simp only [obey, perform, hselected, himage]
    rw [hsession.index_eq]
    simp only [Session.rename, Selection.rename, happly]
    cases selection.plan.apply (Index.ofGraph graph) session.view action <;> rfl

private theorem undo_eq :
    (session.rename f image).obey .undo =
      ((session.obey .undo).1.rename f, (session.obey .undo).2.rename f image) := by
  have hundo := h.undo?_eq hsession.grown
  simp only [obey, Session.undo, Session.rename, hundo]
  cases session.view.undo? <;> rfl

/-- A renamed command is answered by the renamed answer and leads to the renamed session. -/
theorem obey_eq (command : Command) (hapart : command.Apart graph f) :
    (session.rename f image).obey (command.rename f) =
      ((session.obey command).1.rename f, (session.obey command).2.rename f image) := by
  cases command with
  | select id => exact h.select_eq hsession hapart
  | perform action => exact h.perform_eq hsession action
  | undo => exact h.undo_eq hsession
  | deselect | reset => rfl

/-- Renamed commands are answered by the renamed answers and lead to the renamed session. -/
theorem run_eq (commands : List Command) (hapart : ∀ command ∈ commands, command.Apart graph f) :
    (session.rename f image).run (commands.map (Command.rename f)) =
      ((session.run commands).1.map (Answer.rename f),
        (session.run commands).2.rename f image) := by
  induction commands generalizing session with
  | nil => rfl
  | cons command commands ih =>
    obtain ⟨hcommand, hcommands⟩ := List.forall_mem_cons.mp hapart
    have hlater := hsession.of_moves (session.moves_obey command)
    simp only [List.map_cons, Session.run, h.obey_eq hsession command hcommand,
      ih hlater hcommands]

/-! ## Charts -/

/-- The rows of the renamed session are the renamed rows. -/
theorem rows_eq :
    Chart.rows (session.rename f image) = (Chart.rows session).map (ChartRow.rename f) := by
  rw [Chart.rows, Chart.rows, ← Chart.rowsOf_map_rename, ← h.chains_eq hsession.grown]
  rfl

/-- The terms of the renamed session's chart are the renamed terms in the same order. -/
theorem order_eq : Chart.order (session.rename f image) = (Chart.order session).map f := by
  have hchains : (session.rename f image).view.chains = session.view.chains.map (Chain.rename f) :=
    h.chains_eq hsession.grown
  rw [Chart.order, hchains, Chart.order, List.flatMap_map, List.map_flatMap]
  simp only [Chain.nodes_rename]

/-- The ending is marked at the renamed last term. -/
theorem endingMark_eq {id : TermId} (hid : (Index.ofGraph graph).contains id = true) :
    Chart.endingMark (session.rename f image).ending (f id) =
      Chart.endingMark session.ending id := by
  have hending : (session.rename f image).ending = session.ending.rename f := by
    rw [Session.ending, Session.ending, hsession.index_eq]
    exact h.ending_eq
  have hsame : f session.ending.term = f id ↔ session.ending.term = id := by
    rw [Session.ending, hsession.index_eq]
    exact h.eq_iff (Index.contains_ending graph) hid
  rw [hending]
  cases hsort : session.ending with
  | value term | stuck term reason =>
    rw [hsort] at hsame
    exact if_congr hsame rfl rfl

/-- A term has the same label in both charts, if no ids are shown. -/
theorem label_eq {options : ChartOptions} (hids : options.showIds = true → f = id) {id : TermId}
    (hid : (Index.ofGraph graph).contains id = true) :
    Chart.label (session.rename f image) options (f id) = Chart.label session options id := by
  have hterm : (session.rename f image).index.term? (f id) =
      (session.index.term? id).map (Term.rename f) := by
    rw [hsession.index_eq]
    exact h.term?_eq id hid
  simp only [Chart.label, hterm, h.endingMark_eq hsession hid, Option.map_map, Function.comp_def,
    Term.plainLabel_rename]
  cases hshow : options.showIds with
  | false => simp only [Bool.false_eq_true, if_false]
  | true => rw [hids hshow, id_eq]

private theorem termText_eq {options : ChartOptions} (hids : options.showIds = true → f = id)
    {id : TermId} (hid : (Index.ofGraph graph).contains id = true) :
    Chart.termText (session.rename f image) options (f id) =
      Chart.termText session options id := by
  have hselected : (session.rename f image).selected? = some (f id) ↔
      session.selected? = some id := by
    rw [selected?_rename, Option.map_eq_some_iff]
    constructor
    · rintro ⟨other, hother, heq⟩
      obtain ⟨selection, hselection, rfl⟩ := Option.map_eq_some_iff.mp hother
      have hknown := hsession.grown.known (hsession.planned selection hselection).1
      rwa [← (h.eq_iff hknown hid).mp heq]
    · intro hid
      exact ⟨id, hid, rfl⟩
  simp only [Chart.termText, hselected, h.label_eq hsession hids hid]

private theorem linkText_eq {link : Link} (hshown : session.view.showsLink link = true) :
    Chart.linkText (session.rename f image).index (link.rename f) =
      Chart.linkText session.index link := by
  obtain ⟨hsource, htarget⟩ := hsession.grown.contains_ends hshown
  have hpath : (session.rename f image).index.path (f link.source) (f link.target) =
      (session.index.path link.source link.target).map (Edge.rename f) := by
    rw [hsession.index_eq]
    exact h.path_eq hsource htarget
  rw [Chart.linkText, Chart.linkText, Link.source_rename, Link.target_rename, hpath,
    List.length_map]
  rfl

/-- A row has the same text in both charts, if no ids are shown. -/
theorem rowText_eq {options : ChartOptions} (hids : options.showIds = true → f = id)
    {row : ChartRow} (hrow : row ∈ Chart.rows session) :
    Chart.rowText (session.rename f image) options (row.rename f) =
      Chart.rowText session options row := by
  cases row with
  | term id =>
    have hshown := (hsession.grown.laidOut.shows_iff id).mpr (Chart.mem_rowsOf_term.mp hrow)
    exact h.termText_eq hsession hids (hsession.grown.known hshown)
  | link link =>
    have hshown := (hsession.grown.laidOut.showsLink_iff link).mpr (Chart.mem_rowsOf_link.mp hrow)
    exact h.linkText_eq hsession hshown
  | gap => rfl

/-- Both charts have the same lines, if no ids are shown. -/
theorem lines_eq {options : ChartOptions} (hids : options.showIds = true → f = id) :
    Chart.lines (session.rename f image) options = Chart.lines session options := by
  rw [Chart.lines, Chart.lines, h.rows_eq hsession, List.map_map]
  exact List.map_congr_left fun row hrow => h.rowText_eq hsession hids hrow

end Coherent

end Graph.Mirrors

end ReductionStepper
