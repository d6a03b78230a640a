import ReductionStepper.Proofs.View.Layout

/-!
# Chains partition a view

The chains that a view displays leave nothing out and show nothing twice: each shown term and each
shown link has its one place in them. Where they start can be read off the history: at the root, and
at the subterms of the recorded pairs, oldest first.
-/

namespace ReductionStepper.View

variable {view : View} {index : Index}

namespace LaidOut

variable {chains : List Chain} (h : view.LaidOut chains)

include h

/-- A shown term stands in one place of the chains, a hidden one nowhere. -/
theorem count_nodes (id : TermId) :
    (chains.flatMap Chain.nodes).count id = if view.shows id then 1 else 0 := by
  rw [h.nodup.count]
  simp only [← h.shows_iff]

/-- A shown link stands in one place of the chains, any other link nowhere. -/
theorem count_links (link : Link) :
    (chains.flatMap Chain.links).count link = if view.showsLink link then 1 else 0 := by
  rw [h.nodup_links.count]
  simp only [← h.showsLink_iff]

end LaidOut

/-- The heads of a grown view are the root and the first terms of the recorded pairs, oldest
first. -/
theorem Grown.heads_eq (h : Grown index view) :
    view.heads.map some =
      some index.root ::
        (view.history.reverse.filter (·.linkRemoved.isNone)).map (·.nodesAdded.head?) := by
  induction h with
  | start =>
    rw [(LaidOut.start index).heads]
    rfl
  | @record view change hview hchange ih =>
    have hhistory : (view.record change).history.reverse = view.history.reverse ++ [change] := by
      simp [View.record]
    rw [hhistory, List.filter_append, List.map_append, ← List.cons_append, ← ih]
    cases hchange with
    | split hknown hhidden hlink =>
      rw [hview.heads_split (.split hknown hhidden hlink)]
      simp
    | pair hne hsubterm hvalue hhidden hhidden' =>
      rw [hview.heads_pair hne (.pair hne hsubterm hvalue hhidden hhidden'), List.map_append]
      rfl

/-- Whatever was done to a view, its chains hold each shown term in one place and each shown link in
one place; the links of a chain follow each other from its head to its last term, which no link
leaves; the first chain starts at the root and the others at the first terms of the recorded pairs,
oldest first. -/
theorem chains_partition_view (graph : Graph) (commands : List Command) :
    let view := (View.start (Index.ofGraph graph)).run (Index.ofGraph graph) commands
    (∀ id, (view.chains.flatMap Chain.nodes).count id = if view.shows id then 1 else 0) ∧
      (∀ link, (view.chains.flatMap Chain.links).count link =
        if view.showsLink link then 1 else 0) ∧
      (∀ chain ∈ view.chains, chain.Joined ∧ view.outgoing chain.last = []) ∧
      view.chains.map (fun chain => some chain.head) =
        some graph.root ::
          (view.history.reverse.filter (·.linkRemoved.isNone)).map (·.nodesAdded.head?) := by
  intro view
  have hview : Grown (Index.ofGraph graph) view := Grown.start.run commands
  have hlaid := hview.laidOut
  refine ⟨hlaid.count_nodes, hlaid.count_links, ?_, ?_⟩
  · intro chain hchain
    exact ⟨hlaid.joined chain hchain, hlaid.outgoing_last hchain⟩
  · have hheads := hview.heads_eq
    rw [hlaid.heads, List.map_map] at hheads
    exact hheads

end ReductionStepper.View
