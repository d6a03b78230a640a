import ReductionStepper.Proofs.Graph.Copies
import ReductionStepper.Proofs.Session.Mirror

/-!
# What a session does not depend on

An evaluator is free to name the terms of a graph as it likes and, but for the order of each term's
subterms, to list terms and edges in any order. Neither choice can be noticed: the sets of a view
are sorted by id and the edges at a term keep their order, but whatever a run takes the first of
has only one element, or is listed in the order of the subterms.
-/

namespace ReductionStepper

namespace Session

/-! ## Other ids -/

/-- A run on a renamed graph, with the ids in its commands renamed too, gives the renamed answers
and leads to the renamed session, which displays the same chains in the same order and the same
text. -/
theorem run_rename (graph : Graph) (f : TermId → TermId) (commands : List Command)
    (hf : Set.InjOn f {id | id ∈ graph.ids ∨ Command.select id ∈ commands}) :
    let image := graph.rename f (hf.mono fun _ => Or.inl)
    let ran := (start graph).run commands
    let ran' := (start image).run (commands.map (Command.rename f))
    ran'.1 = ran.1.map (Answer.rename f) ∧
      ran'.2 = ran.2.rename f image ∧
      ran'.2.view.chains = ran.2.view.chains.map (Chain.rename f) ∧
      ∀ width, Chart.text ran'.2 { width } = Chart.text ran.2 { width } := by
  intro image ran ran'
  have hmirrors : graph.Mirrors f image := Graph.mirrors_rename _
  have hcoherent : ran.2.Coherent graph := (Coherent.start graph).run commands
  have hapart : ∀ command ∈ commands, command.Apart graph f := by
    rintro _ hcommand id rfl other hother heq
    exact hf (.inr hcommand) (.inl ((Index.contains_ofGraph graph other).mp hother)) heq
  have hran : ran' = (ran.1.map (Answer.rename f), ran.2.rename f image) := by
    have hrun := hmirrors.run_eq (Coherent.start graph) commands hapart
    rwa [hmirrors.rename_session_start] at hrun
  rw [hran]
  refine ⟨rfl, rfl, hmirrors.chains_eq hcoherent.grown, fun width => ?_⟩
  rw [Chart.text, hmirrors.lines_eq hcoherent (by simp), Chart.text]

/-- Numbers the terms of the graph with a call downwards, which turns many of their comparisons
around. -/
def countdown (id : TermId) : TermId := .ofNat (9 - Graph.nestedCall.ids.idxOf id)

private theorem injOn_countdown : Set.InjOn countdown {id | id ∈ Graph.nestedCall.ids} := by
  have hids : ∀ id ∈ Graph.nestedCall.ids, ∀ other ∈ Graph.nestedCall.ids,
      countdown id = countdown other → id = other := by
    decide +kernel
  exact fun id hid other hother => hids id hid other hother

/-- The sorted terms of the view come in another order after the terms are numbered downwards, but
the chains and their text do not. -/
theorem run_rename_nestedCall :
    let r : TermId := ⟨"r", by decide⟩
    let u : TermId := ⟨"u", by decide⟩
    let commands : List Command := [.select r, .perform .stepInto, .select r, .perform .stepOver,
      .select u]
    let image := Graph.nestedCall.rename countdown injOn_countdown
    let ran := (start Graph.nestedCall).run commands
    let ran' := (start image).run (commands.map (Command.rename countdown))
    Set.InjOn countdown {id | id ∈ Graph.nestedCall.ids ∨ Command.select id ∈ commands} ∧
      ran.2.view.shown.nodes.toList.map TermId.text = ["f", "h", "r", "u", "v"] ∧
      ran'.2.view.shown.nodes.toList.map TermId.text = ["2", "4", "5", "6", "9"] ∧
      ran.2.view.chains.map (fun chain => chain.nodes.map TermId.text) =
        [["r", "u", "v"], ["f", "h"]] ∧
      ran'.2.view.chains.map (fun chain => chain.nodes.map TermId.text) =
        [["9", "6", "5"], ["4", "2"]] ∧
      Chart.text ran'.2 {} = Chart.text ran.2 {} := by
  intro r u commands image ran ran'
  have hcommands : ∀ id, id ∈ Graph.nestedCall.ids ∨ Command.select id ∈ commands →
      id ∈ Graph.nestedCall.ids := by
    rintro id (hid | hid)
    · exact hid
    · have hselected : id = r ∨ id = u := by simpa [commands] using hid
      rcases hselected with rfl | rfl <;> decide
  have hcountdown := injOn_countdown.mono hcommands
  obtain ⟨-, -, -, htext⟩ := run_rename Graph.nestedCall countdown commands hcountdown
  exact ⟨hcountdown, by decide +kernel, by decide +kernel, by decide +kernel, by decide +kernel,
    htext 0⟩

/-! ## Another order -/

/-- A run on a reordered graph gives the same answers and leads to the same view, selection and
chart. -/
theorem run_reordered {graph other : Graph} (hother : graph.Reordered other)
    (commands : List Command) :
    let ran := (start graph).run commands
    let ran' := (start other).run commands
    ran'.1 = ran.1 ∧ ran'.2.view = ran.2.view ∧ ran'.2.selection = ran.2.selection ∧
      Chart.rows ran'.2 = Chart.rows ran.2 ∧ Chart.order ran'.2 = Chart.order ran.2 ∧
      ∀ options, Chart.lines ran'.2 options = Chart.lines ran.2 options := by
  intro ran ran'
  have hcoherent : ran.2.Coherent graph := (Coherent.start graph).run commands
  have hapart : ∀ command ∈ commands, command.Apart graph id := fun _ _ _ _ _ _ heq => heq
  have hran : ran' = (ran.1, ran.2.rename id other) := by
    have hrun := hother.mirrors.run_eq (Coherent.start graph) commands hapart
    rw [hother.mirrors.rename_session_start] at hrun
    simpa using hrun
  rw [hran]
  refine ⟨rfl, View.rename_id _, ?_, ?_, ?_, fun options => ?_⟩
  · simp [Session.rename]
  · simp [hother.mirrors.rows_eq hcoherent]
  · simp [hother.mirrors.order_eq hcoherent]
  · exact hother.mirrors.lines_eq hcoherent fun _ => rfl

/-- The graph with a call, listed backwards. -/
def backwards : Graph :=
  { Graph.nestedCall with
    terms := Graph.nestedCall.terms.reverse
    edges := Graph.nestedCall.edges.reverse
    nodup_ids := by decide
    root_mem := by decide
    ending_mem := by decide
    ends_mem := by decide }

private theorem reordered_backwards : Graph.nestedCall.Reordered backwards where
  terms := List.reverse_perm _
  edges := List.reverse_perm _
  root_eq := rfl
  ending_eq := rfl
  subterms_eq := by decide +kernel
  step_unique := by decide +kernel

/-- In the graph that is listed backwards the same is armed and the same is displayed. -/
theorem run_reordered_nestedCall :
    let r : TermId := ⟨"r", by decide⟩
    let u : TermId := ⟨"u", by decide⟩
    let commands : List Command := [.select r, .perform .stepInto, .select r, .perform .stepOver,
      .select u]
    let ran := (start Graph.nestedCall).run commands
    let ran' := (start backwards).run commands
    Graph.nestedCall.Reordered backwards ∧
      ran.2.plan.armed = [.stepBackward] ∧ ran'.2.selection = ran.2.selection ∧
      ∀ options, Chart.lines ran'.2 options = Chart.lines ran.2 options := by
  intro r u commands ran ran'
  obtain ⟨-, -, hselection, -, -, hlines⟩ := run_reordered reordered_backwards commands
  exact ⟨reordered_backwards, by decide +kernel, hselection, hlines⟩

end Session

end ReductionStepper
