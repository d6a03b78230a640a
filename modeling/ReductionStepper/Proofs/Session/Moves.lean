import ReductionStepper.Proofs.Plan.Armed
import ReductionStepper.Session

/-!
# What a command does to a session

A command leaves a session as it is, changes the selection only, or changes the view and drops the
selection. `Moves` says so once; a session is `Coherent` if its view is grown and its selection was
planned for the view as it is, and all commands keep it so.
-/

namespace ReductionStepper

namespace Session

/-- What a command can turn a session into. -/
inductive Moves (session : Session) : Session → Prop where
  | stay : Moves session session
  | deselect : Moves session session.deselect
  | select {id : TermId} (hshown : session.view.shows id = true) :
      Moves session { session with selection := some (session.selectionOf id) }
  | perform {selection : Selection} {action : Action} {change : Change} {view : View}
      (hselected : session.selection = some selection)
      (happly : selection.plan.apply session.index session.view action = .ok (change, view)) :
      Moves session { session with view, selection := none }
  | undo {change : Change} {view : View} (hundo : session.view.undo? = some (change, view)) :
      Moves session { session with view, selection := none }
  | reset : Moves session session.reset

/-- A session on a graph whose selection, if it has one, was planned for the view as it is. -/
structure Coherent (graph : Graph) (session : Session) : Prop where
  index_eq : session.index = Index.ofGraph graph
  grown : session.view.Grown (Index.ofGraph graph)
  planned : ∀ selection, session.selection = some selection →
    session.view.shows selection.term = true ∧ selection = session.selectionOf selection.term

variable {graph : Graph} {session later : Session}

/-- A shown term can be selected. -/
theorem select_of_shows {id : TermId} (hshown : session.view.shows id = true) :
    session.select id = (.ok (session.selectionOf id).plan,
      { session with selection := some (session.selectionOf id) }) := by
  simp only [Session.select, hshown, if_true]

/-- An action that succeeds changes the view as its plan says and drops the selection. -/
theorem perform_of_apply {selection : Selection} {action : Action} {change : Change} {view : View}
    (hselected : session.selection = some selection)
    (happly : selection.plan.apply session.index session.view action = .ok (change, view)) :
    session.perform action = (.ok change, { session with view, selection := none }) := by
  simp only [perform, hselected, happly]

/-- Every command is one of the moves. -/
theorem moves_obey (session : Session) (command : Command) :
    session.Moves (session.obey command).2 := by
  cases command with
  | select id =>
    by_cases hshown : session.view.shows id = true
    · simpa [obey, select_of_shows hshown] using Moves.select hshown
    · simpa [obey, Session.select, hshown] using Moves.deselect
  | deselect => exact .deselect
  | perform action =>
    cases hselected : session.selection with
    | none => simpa [obey, Session.perform, hselected] using Moves.stay
    | some selection =>
      cases happly : selection.plan.apply session.index session.view action with
      | error error => simpa [obey, Session.perform, hselected, happly] using Moves.stay
      | ok made =>
        simpa [obey, Session.perform, hselected, happly] using Moves.perform hselected happly
  | undo =>
    cases hundo : session.view.undo? with
    | none => simpa [obey, Session.undo, hundo] using Moves.stay
    | some made => simpa [obey, Session.undo, hundo] using Moves.undo hundo
  | reset => exact .reset

private theorem run_cons (session : Session) (command : Command) (commands : List Command) :
    (session.run (command :: commands)).2 = ((session.obey command).2.run commands).2 := rfl

namespace Coherent

/-- A fresh session is coherent. -/
theorem start (graph : Graph) : (Session.start graph).Coherent graph :=
  ⟨rfl, .start, by simp [Session.start]⟩

/-- The plan of a selection is made from the view as it is. -/
theorem plan_eq {selection : Selection} (h : session.Coherent graph)
    (hselected : session.selection = some selection) :
    selection.plan = Plan.make (Index.ofGraph graph) session.view selection.term := by
  rw [(h.planned selection hselected).2, selectionOf, h.index_eq]

/-- Whatever a command does, the session stays coherent. -/
theorem of_moves (h : session.Coherent graph) (hmoves : session.Moves later) :
    later.Coherent graph := by
  obtain ⟨hindex, hgrown, hplanned⟩ := h
  cases hmoves with
  | stay => exact ⟨hindex, hgrown, hplanned⟩
  | deselect => exact ⟨hindex, hgrown, by simp [Session.deselect]⟩
  | select hshown =>
    refine ⟨hindex, hgrown, ?_⟩
    intro selection hselected
    cases hselected
    exact ⟨hshown, rfl⟩
  | perform hselected happly =>
    obtain ⟨hchange, rfl⟩ := View.admits_of_apply happly
    rw [hindex] at hchange
    exact ⟨hindex, hgrown.record hchange, by simp⟩
  | undo hundo =>
    obtain ⟨hearlier, -, -⟩ := hgrown.of_undo? hundo
    exact ⟨hindex, hearlier, by simp⟩
  | reset =>
    refine ⟨hindex, ?_, by simp [Session.reset]⟩
    rw [Session.reset, hgrown.reset_eq]
    exact .start

/-- On a well-formed graph, whatever a command does, the view goes on following the steps. -/
theorem follows_of_moves (h : session.Coherent graph) (hgraph : graph.WellFormed)
    (hfollows : session.view.Follows (Index.ofGraph graph)) (hmoves : session.Moves later) :
    later.view.Follows (Index.ofGraph graph) := by
  cases hmoves with
  | stay | deselect | select => exact hfollows
  | @perform selection action change view hselected happly =>
    rw [h.plan_eq hselected, h.index_eq] at happly
    have hchange := Plan.follows_of_apply hgraph h.grown hfollows happly
    obtain ⟨-, rfl⟩ := View.admits_of_apply happly
    exact List.forall_mem_cons.mpr ⟨hchange, hfollows⟩
  | undo hundo =>
    obtain ⟨-, -, hrecord⟩ := h.grown.of_undo? hundo
    rw [hrecord] at hfollows
    exact (List.forall_mem_cons.mp hfollows).2
  | reset => exact List.forall_mem_nil _

/-- Every run keeps a session coherent. -/
theorem run (h : session.Coherent graph) (commands : List Command) :
    (session.run commands).2.Coherent graph := by
  induction commands generalizing session with
  | nil => exact h
  | cons command commands ih =>
    rw [run_cons]
    exact ih (h.of_moves (session.moves_obey command))

/-- On a well-formed graph every run leads to a view that follows the steps. -/
theorem follows_run (h : session.Coherent graph) (hgraph : graph.WellFormed)
    (hfollows : session.view.Follows (Index.ofGraph graph)) (commands : List Command) :
    (session.run commands).2.view.Follows (Index.ofGraph graph) := by
  induction commands generalizing session with
  | nil => exact hfollows
  | cons command commands ih =>
    rw [run_cons]
    have hmoves := session.moves_obey command
    exact ih (h.of_moves hmoves) (h.follows_of_moves hgraph hfollows hmoves)

end Coherent

/-- A session on a well-formed graph, coherent and with a view that follows the steps. -/
def Sound (session : Session) : Prop :=
  ∃ graph, graph.WellFormed ∧ session.Coherent graph ∧
    session.view.Follows (Index.ofGraph graph)

namespace Sound

/-- A session on a well-formed graph starts sound. -/
theorem start (hgraph : graph.WellFormed) : (Session.start graph).Sound :=
  ⟨graph, hgraph, .start graph, List.forall_mem_nil _⟩

/-- Commands keep a session sound. -/
theorem run (h : session.Sound) (commands : List Command) : (session.run commands).2.Sound := by
  obtain ⟨graph, hgraph, hcoherent, hfollows⟩ := h
  exact ⟨graph, hgraph, hcoherent.run commands, hcoherent.follows_run hgraph hfollows commands⟩

end Sound

end Session

end ReductionStepper
