import ReductionStepper.Proofs.Session.Moves
import ReductionStepper.Proofs.View.Determined

/-!
# Stepping through a well-formed graph

What a session promises on a well-formed graph, whatever was done in it before: no step is lost, no
step is taken twice, what is armed works, and the picture depends on the shown terms only.
-/

namespace ReductionStepper

namespace Session

/-- Behind the links of the first chain are the steps from the root to the last term, each once and
in order; behind those of every other chain the steps from its head to the value of its head. -/
theorem chains_keep_every_step {graph : Graph} (hgraph : graph.WellFormed)
    (commands : List Command) :
    let index := Index.ofGraph graph
    let view := ((start graph).run commands).2.view
    ∃ first detached, view.chains = first :: detached ∧
      (first.head = graph.root ∧ first.last = graph.ending.term ∧
        first.steps index = index.path graph.root graph.ending.term) ∧
      ∀ chain ∈ detached, chain.last = index.value chain.head ∧ index.next? chain.last = none ∧
        chain.steps index = index.path chain.head chain.last := by
  intro index view
  have hcoherent : ((start graph).run commands).2.Coherent graph :=
    (Coherent.start graph).run commands
  have hview : view.Grown index := hcoherent.grown
  have hchains : ∀ chain ∈ view.chains, chain.Follows index :=
    hview.chains_follow hgraph
      ((Coherent.start graph).follows_run hgraph (List.forall_mem_nil _) commands)
  have hjoined := hview.laidOut.joined
  obtain ⟨first, detached, heq, hhead⟩ := hview.chains_eq_cons
  rw [heq] at hchains hjoined
  have hvalue : ∀ chain ∈ first :: detached, index.value chain.head = chain.last := by
    intro chain hchain
    exact (hchains chain hchain).value_eq_last hgraph (hjoined chain hchain) List.mem_cons_self
  have hlast : first.last = graph.ending.term := by
    rw [← hvalue first List.mem_cons_self, hhead]
    exact hgraph.value_eq hgraph.ending_reached hgraph.next?_ending
  refine ⟨first, detached, heq, ⟨hhead, hlast, ?_⟩, ?_⟩
  · rw [(hchains first List.mem_cons_self).steps_eq_path hgraph (hjoined first List.mem_cons_self),
      hhead, hlast]
    rfl
  · intro chain hchain
    have hmem := List.mem_cons_of_mem first hchain
    exact ⟨(hvalue chain hmem).symm, (hchains chain hmem).rests,
      (hchains chain hmem).steps_eq_path hgraph (hjoined chain hmem)⟩

/-- A run that steps into the call, over it and back from its end, in which two chains stand side by
side. -/
theorem chains_keep_every_step_nestedCall :
    let r : TermId := ⟨"r", by decide⟩
    let u : TermId := ⟨"u", by decide⟩
    let commands : List Command := [.select r, .perform .stepInto, .select r, .perform .stepOver,
      .select u, .perform .stepBackward]
    let index := Index.ofGraph Graph.nestedCall
    let view := ((start Graph.nestedCall).run commands).2.view
    Graph.nestedCall.WellFormed ∧
      view.chains.map (fun chain => chain.nodes.map TermId.text) =
        [["r", "t", "u", "v"], ["f", "h"]] ∧
      ∀ chain ∈ view.chains, chain.steps index = index.path chain.head chain.last := by
  intro r u commands index view
  obtain ⟨first, detached, hchains, ⟨hhead, hlast, hfirst⟩, hdetached⟩ :=
    chains_keep_every_step Graph.wellFormed_nestedCall commands
  refine ⟨Graph.wellFormed_nestedCall, by decide +kernel, ?_⟩
  intro chain hchain
  rw [show view.chains = first :: detached from hchains] at hchain
  rcases List.mem_cons.mp hchain with rfl | hchain
  · rw [hhead, hlast]
    exact hfirst
  · exact (hdetached chain hchain).2.2

/-- After any shown term is selected, each split that is armed is at that term and has a hidden
destination inside the path that it splits, a pair that is armed is two hidden terms, one the value
of the other, and performing what is armed succeeds and shows exactly those terms in addition. -/
theorem armed_actions_succeed {graph : Graph} (hgraph : graph.WellFormed)
    (commands : List Command) {id : TermId}
    (hshown : ((start graph).run commands).2.view.shows id = true) :
    let index := Index.ofGraph graph
    let session := ((start graph).run commands).2
    ∃ plan selected, session.select id = (.ok plan, selected) ∧
      (∀ action split, plan.split? action = some split → split.Fits index session.view id) ∧
      (∀ pair, plan.stepInto = some pair → pair.Fits index session.view) ∧
      ∀ action, plan.isArmed action = true →
        ∃ change later, selected.perform action = (.ok change, later) ∧
          change.nodesAdded = plan.revealed action ∧
          ∀ other, later.view.shows other = true ↔
            other ∈ plan.revealed action ∨ session.view.shows other = true := by
  intro index session
  have hcoherent : session.Coherent graph := (Coherent.start graph).run commands
  have hfollows : session.view.Follows index :=
    (Coherent.start graph).follows_run hgraph (List.forall_mem_nil _) commands
  have hplan : (session.selectionOf id).plan = Plan.make index session.view id := by
    rw [selectionOf, hcoherent.index_eq]
  refine ⟨Plan.make index session.view id,
    { session with selection := some (session.selectionOf id) }, ?_, ?_, ?_, ?_⟩
  · rw [select_of_shows hshown, hplan]
  · intro action split
    exact Plan.fits_of_split? hgraph hcoherent.grown hfollows
  · intro pair
    exact Plan.fits_of_stepInto
  · intro action harmed
    obtain ⟨change, happly, hrevealed⟩ :=
      Plan.apply_eq_ok_of_isArmed hgraph hcoherent.grown hfollows harmed
    rw [← hplan, ← hcoherent.index_eq] at happly
    refine ⟨change, _, perform_of_apply rfl happly, hrevealed, ?_⟩
    intro other
    rw [← hrevealed]
    exact View.shows_record

/-- Behind the end of the call a step back is armed, and it shows where the call returns from. -/
theorem armed_actions_succeed_nestedCall :
    let r : TermId := ⟨"r", by decide⟩
    let t : TermId := ⟨"t", by decide⟩
    let u : TermId := ⟨"u", by decide⟩
    let commands : List Command := [.select r, .perform .stepInto, .select r, .perform .stepOver]
    let session := ((start Graph.nestedCall).run commands).2
    Graph.nestedCall.WellFormed ∧ session.view.shows u = true ∧
      ∃ change later, (session.select u).2.perform .stepBackward = (.ok change, later) ∧
        change.nodesAdded = [t] ∧
        ∀ other, later.view.shows other = true ↔
          other ∈ [t] ∨ session.view.shows other = true := by
  intro r t u commands session
  have hselect : (session.select u).1.toOption.map (fun plan =>
      (plan.isArmed .stepBackward, plan.revealed .stepBackward)) = some (true, [t]) := by
    decide +kernel
  have hshown : session.view.shows u = true := by decide +kernel
  obtain ⟨plan, selected, hselected, -, -, hperform⟩ :=
    armed_actions_succeed Graph.wellFormed_nestedCall commands hshown
  rw [show session.select u = (.ok plan, selected) from hselected] at hselect ⊢
  obtain ⟨harmed, hrevealed⟩ := Prod.mk.inj (Option.some.inj hselect)
  rw [← hrevealed]
  exact ⟨Graph.wellFormed_nestedCall, hshown, hperform .stepBackward harmed⟩

/-- Two runs that end with the same terms on show end with the same links on show, weights included,
whatever the actions were and whatever their order. -/
theorem links_determined_by_terms {graph : Graph} (hgraph : graph.WellFormed)
    (commands others : List Command)
    (hnodes : ((start graph).run commands).2.view.shown.nodes =
      ((start graph).run others).2.view.shown.nodes) :
    ((start graph).run commands).2.view.shown.links =
      ((start graph).run others).2.view.shown.links := by
  have hcoherent := (Coherent.start graph).run
  have hfollows := (Coherent.start graph).follows_run hgraph (List.forall_mem_nil _)
  exact (hcoherent commands).grown.links_eq_of_nodes_eq hgraph (hfollows commands)
    (hcoherent others).grown (hfollows others) hnodes

/-- Stepping into the call and then over it gives the same picture as stepping over it, back from
its end, undoing that and stepping into it, though the two histories differ. -/
theorem links_determined_by_terms_nestedCall :
    let r : TermId := ⟨"r", by decide⟩
    let u : TermId := ⟨"u", by decide⟩
    let inside : List Command := [.select r, .perform .stepInto]
    let across : List Command := [.select r, .perform .stepOver]
    let detour : List Command := [.select u, .perform .stepBackward, .undo]
    let direct := ((start Graph.nestedCall).run (inside ++ across)).2.view
    let roundabout := ((start Graph.nestedCall).run (across ++ detour ++ inside)).2.view
    Graph.nestedCall.WellFormed ∧ direct.shown.nodes = roundabout.shown.nodes ∧
      direct.history ≠ roundabout.history ∧ direct.shown.links = roundabout.shown.links := by
  intro r u inside across detour direct roundabout
  have hnodes : direct.shown.nodes = roundabout.shown.nodes := by decide +kernel
  have hhistory : direct.history ≠ roundabout.history := by decide +kernel
  exact ⟨Graph.wellFormed_nestedCall, hnodes, hhistory,
    links_determined_by_terms Graph.wellFormed_nestedCall (inside ++ across)
      (across ++ detour ++ inside) hnodes⟩

end Session

end ReductionStepper
