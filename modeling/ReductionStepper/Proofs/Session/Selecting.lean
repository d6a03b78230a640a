import ReductionStepper.Proofs.Session.Moves

/-!
# What a selection promises

Actions are planned when a term is selected and performed later. In between the view may change in
any way, on any graph, and with any command refused: what is armed is always what would be planned
for the view as it is. A refused command leaves no trace, except that refusing to select a term
drops the selection before.
-/

namespace ReductionStepper

namespace Session

variable {graph : Graph} {session later : Session} {id : TermId} {action : Action}
  {error : NavigationError}

/-- An action that fails changes nothing. -/
theorem eq_of_perform_error (h : session.perform action = (.error error, later)) :
    later = session := by
  unfold perform at h
  split at h
  · exact (Prod.mk.inj h).2.symm
  · split at h
    · exact (Prod.mk.inj h).2.symm
    · cases h

/-- A selection that fails only drops the selection before. -/
theorem eq_of_select_error (h : session.select id = (.error error, later)) :
    later = session.deselect := by
  unfold select at h
  split at h
  · cases h
  · exact (Prod.mk.inj h).2.symm

/-- Without a recorded change undoing does nothing. -/
theorem undo_of_history_eq_nil (h : session.view.history = []) :
    session.undo = (none, session) := by
  have hundo : session.view.undo? = none := by rw [View.undo?, h]
  rw [undo, hundo]

namespace Coherent

/-- A shown term is a term of the graph, and selecting it highlights its place in the program. -/
theorem exists_term (h : session.Coherent graph) (hshown : session.view.shows id = true) :
    ∃ term ∈ graph.terms, term.id = id ∧
      (session.selectionOf id).highlight = term.span.map Source.Span.toRange := by
  have hknown := h.grown.known hshown
  rw [Index.contains_eq_isSome] at hknown
  obtain ⟨term, hterm⟩ := Option.isSome_iff_exists.mp hknown
  obtain ⟨hmem, hid⟩ := Index.mem_of_term? hterm
  refine ⟨term, hmem, hid, ?_⟩
  rw [selectionOf, h.index_eq, hterm]
  rfl

end Coherent

/-- Whatever was done in a session, on any graph: a selected term is shown, its actions are planned
for the view as it is and its place in the program is highlighted; without a selection nothing is
armed and nothing highlighted; an action that fails and undoing without a change leave the session
as it is; and a term that cannot be selected leaves the view as it is and nothing selected. -/
theorem selection_fits_view (graph : Graph) (commands : List Command) :
    let session := ((start graph).run commands).2
    (∀ id, session.selected? = some id →
      session.view.shows id = true ∧
        session.plan = Plan.make (Index.ofGraph graph) session.view id ∧
        ∃ term ∈ graph.terms, term.id = id ∧
          session.highlight? = term.span.map Source.Span.toRange) ∧
      (session.selected? = none →
        (∀ action, session.plan.isArmed action = false) ∧ session.highlight? = none) ∧
      (∀ action error later, session.perform action = (.error error, later) → later = session) ∧
      (session.view.history = [] → session.undo = (none, session)) ∧
      ∀ id error later, session.select id = (.error error, later) →
        later.view = session.view ∧ later.selected? = none := by
  intro session
  have hcoherent : session.Coherent graph := (Coherent.start graph).run commands
  refine ⟨?_, ?_, fun _ _ _ => eq_of_perform_error, undo_of_history_eq_nil, ?_⟩
  · intro id hid
    obtain ⟨selection, hselected, rfl⟩ := Option.map_eq_some_iff.mp hid
    obtain ⟨hshown, hselection⟩ := hcoherent.planned selection hselected
    have hplan : session.plan = selection.plan := by rw [plan, hselected]; rfl
    have hhighlight : session.highlight? = selection.highlight := by
      rw [highlight?, hselected]; rfl
    rw [hplan, hhighlight, hcoherent.plan_eq hselected]
    obtain ⟨term, hterm, hid, hrange⟩ := hcoherent.exists_term hshown
    rw [← hselection] at hrange
    exact ⟨hshown, rfl, term, hterm, hid, hrange⟩
  · intro hnone
    have hselection : session.selection = none := Option.map_eq_none_iff.mp hnone
    rw [plan, highlight?, hselection]
    constructor
    · intro action
      cases action <;> rfl
    · rfl
  · intro id error later hselect
    rw [eq_of_select_error hselect]
    exact ⟨rfl, rfl⟩

end Session

end ReductionStepper
