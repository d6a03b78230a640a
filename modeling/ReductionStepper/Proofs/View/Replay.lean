import ReductionStepper.Proofs.View.Growth

/-!
# Replaying the history of a view

A recorded change names all that is needed to make it again. Replaying the history of a view from
the start makes the very same changes and gives the very same view, and undoing goes through the
same views backwards.
-/

namespace ReductionStepper.View

/-- Makes a recorded change again: a split of the link that it removed, or else a pair. -/
def remake (index : Index) (view : View) (change : Change) : Option (Change × View) :=
  match change.linkRemoved, change.nodesAdded with
  | some replacing, node :: _ => (view.split index node replacing).toOption
  | none, subterm :: value :: _ => (view.pair index subterm value).toOption
  | _, _ => none

/-- Makes recorded changes again, oldest first; answers the changes made and the view after them,
nothing if one of them is refused. -/
def replay (index : Index) : View → List Change → Option (List Change × View)
  | view, [] => some ([], view)
  | view, change :: later => do
    let (made, view) ← view.remake index change
    let (others, view) ← replay index view later
    return (made :: others, view)

variable {index : Index} {view later : View} {change : Change} {changes others made : List Change}

private theorem Admits.remake_eq (h : view.Admits index change) :
    view.remake index change = some (change, view.record change) := by
  cases h with
  | @split node replacing hknown hhidden hlink =>
    change (view.split index node replacing).toOption = _
    rw [split_eq_ok_iff.mpr ⟨⟨hknown, hhidden, hlink⟩, rfl, rfl⟩]
    rfl
  | @pair subterm value hne hsubterm hvalue hhidden hhidden' =>
    change (view.pair index subterm value).toOption = _
    rw [pair_eq_ok_iff.mpr ⟨⟨hne, ⟨hsubterm, hhidden⟩, hvalue, hhidden'⟩, rfl, rfl⟩]
    rfl

/-- A replay in two parts. -/
theorem replay_append (h : view.replay index changes = some (made, later)) :
    view.replay index (changes ++ others) =
      (later.replay index others).map fun result => (made ++ result.1, result.2) := by
  induction changes generalizing view made with
  | nil =>
    cases h
    simp
  | cons change changes ih =>
    simp only [replay, bind, Option.bind_eq_some_iff, pure, Option.some.injEq, Prod.mk.injEq] at h
    obtain ⟨⟨first, next⟩, hfirst, ⟨rest, last⟩, hrest, rfl, rfl⟩ := h
    simp only [List.cons_append, replay, bind, hfirst, Option.bind_some, ih hrest]
    cases View.replay index last others <;> simp

namespace Grown

/-- The history of a grown view replays to the view itself. -/
theorem replay_eq (h : Grown index view) :
    (View.start index).replay index view.history.reverse = some (view.history.reverse, view) := by
  induction h with
  | start => rfl
  | @record view change _ hchange ih =>
    have hhistory : (view.record change).history.reverse = view.history.reverse ++ [change] := by
      simp [View.record]
    rw [hhistory, replay_append ih]
    simp [replay, hchange.remake_eq]

/-- Undoing as often as there are changes leads back to the start. -/
theorem run_undo_eq (h : Grown index view) :
    view.run index (List.replicate view.history.length .undo) = View.start index := by
  induction h with
  | start => rfl
  | @record view change hview hchange ih =>
    have hlength : (view.record change).history.length = view.history.length + 1 := rfl
    have hundo : (view.record change).obey index .undo = view := by
      simp [View.obey, hview.undo?_record hchange]
    rw [hlength, List.replicate_succ, View.run, List.foldl_cons, hundo]
    exact ih

end Grown

/-- A view is what its history makes of the start, and undoing goes back through the history: after
a split or a pair to the view before it, in the end to the start, where nothing is left to undo. -/
theorem history_determines_view (graph : Graph) (commands : List Command) :
    let index := Index.ofGraph graph
    let view := (View.start index).run index commands
    (View.start index).replay index view.history.reverse = some (view.history.reverse, view) ∧
      (∀ node replacing change later, view.split index node replacing = .ok (change, later) →
        later.undo? = some (change, view)) ∧
      (∀ subterm value change later, view.pair index subterm value = .ok (change, later) →
        later.undo? = some (change, view)) ∧
      view.run index (List.replicate view.history.length .undo) = View.start index ∧
      (View.start index).undo? = none ∧
      (View.start index).obey index .undo = View.start index := by
  intro index view
  have hview : Grown index view := Grown.start.run commands
  refine ⟨hview.replay_eq, ?_, ?_, hview.run_undo_eq, Grown.undo?_start, rfl⟩
  · intro node replacing change later h
    obtain ⟨hchange, rfl⟩ := admits_of_split h
    exact hview.undo?_record hchange
  · intro subterm value change later h
    obtain ⟨hchange, rfl⟩ := admits_of_pair h
    exact hview.undo?_record hchange

end ReductionStepper.View
