import Mathlib.Logic.Relation
import ReductionStepper.Proofs.View.Layout

/-!
# A view is a forest of paths

Whatever is done to a view, its links never branch, never meet and never close a cycle, so that the
picture is a set of disjoint paths. Their number is fixed by the history: one from the root and one
for each pair.
-/

namespace ReductionStepper

namespace View

/-- A shown link leads from one term to the other. -/
def Linked (view : View) (source target : TermId) : Prop :=
  ∃ link, view.showsLink link = true ∧ link.source = source ∧ link.target = target

variable {view : View} {index : Index} {id : TermId} {link : Link}

/-- No term is listed twice. -/
theorem nodup_nodes (view : View) : view.shown.nodes.toList.Nodup := by
  refine Std.ExtTreeSet.distinct_toList.imp fun hne heq => hne ?_
  rw [heq]
  exact Std.ReflCmp.compare_self

private theorem sole?_eq_some_iff {α : Type} {list : List α} {a : α} :
    sole? list = some a ↔ list = [a] := by
  match list with
  | [] => simp [sole?]
  | [b] => simp [sole?]
  | _ :: _ :: _ => simp [sole?]

namespace LaidOut

variable {chains : List Chain} (h : view.LaidOut chains)

include h

/-- The only link that leaves a term is any shown link that leaves it. -/
theorem soleOutgoing?_eq_some_iff :
    view.soleOutgoing? id = some link ↔ view.showsLink link = true ∧ link.source = id := by
  rw [soleOutgoing?, sole?_eq_some_iff, ← mem_outgoing]
  constructor
  · intro hout
    exact hout ▸ List.mem_cons_self
  · intro hlink
    obtain ⟨hshown, rfl⟩ := mem_outgoing.mp hlink
    exact h.outgoing_eq_singleton hshown

/-- The only link that enters a term is any shown link that enters it. -/
theorem soleIncoming?_eq_some_iff :
    view.soleIncoming? id = some link ↔ view.showsLink link = true ∧ link.target = id := by
  rw [soleIncoming?, sole?_eq_some_iff, ← mem_incoming]
  constructor
  · intro hin
    exact hin ▸ List.mem_cons_self
  · intro hlink
    obtain ⟨hshown, rfl⟩ := mem_incoming.mp hlink
    exact h.incoming_eq_singleton hshown

/-- There is no only link that leaves a term exactly when no link leaves it. -/
theorem soleOutgoing?_eq_none_iff : view.soleOutgoing? id = none ↔ view.outgoing id = [] := by
  rw [Option.eq_none_iff_forall_ne_some, List.eq_nil_iff_forall_not_mem]
  exact forall_congr' fun link => not_congr (h.soleOutgoing?_eq_some_iff.trans mem_outgoing.symm)

/-- There is no only link that enters a term exactly when no link enters it. -/
theorem soleIncoming?_eq_none_iff : view.soleIncoming? id = none ↔ view.incoming id = [] := by
  rw [Option.eq_none_iff_forall_ne_some, List.eq_nil_iff_forall_not_mem]
  exact forall_congr' fun link => not_congr (h.soleIncoming?_eq_some_iff.trans mem_incoming.symm)

/-- The terms of a link stand next to each other in the layout. -/
theorem nodes_eq_of_showsLink (hlink : view.showsLink link = true) :
    ∃ before after, chains.flatMap Chain.nodes = before ++ link.source :: link.target :: after := by
  obtain ⟨chain, hchain, hmem⟩ := List.mem_flatMap.mp ((h.showsLink_iff link).mp hlink)
  obtain ⟨before, after, hnodes⟩ := (h.joined chain hchain).nodes_eq_of_mem hmem
  obtain ⟨others, rest, rfl⟩ := List.append_of_mem hchain
  exact ⟨others.flatMap Chain.nodes ++ before, after ++ rest.flatMap Chain.nodes, by simp [hnodes]⟩

/-- Links lead to later places of the layout only. -/
theorem idxOf_lt_of_linked {a b : TermId} (hab : view.Linked a b) :
    (chains.flatMap Chain.nodes).idxOf a < (chains.flatMap Chain.nodes).idxOf b := by
  obtain ⟨link, hlink, rfl, rfl⟩ := hab
  obtain ⟨before, after, hnodes⟩ := h.nodes_eq_of_showsLink hlink
  have hnodup := h.nodup
  rw [hnodes, List.nodup_append] at hnodup
  obtain ⟨-, hcons, hdisjoint⟩ := hnodup
  have hsource : link.source ∉ before := fun hmem => hdisjoint _ hmem _ (by simp) rfl
  have htarget : link.target ∉ before := fun hmem => hdisjoint _ hmem _ (by simp) rfl
  have hne : link.source ≠ link.target := by
    rintro heq
    simp [heq] at hcons
  rw [hnodes, List.idxOf_append_of_notMem hsource, List.idxOf_append_of_notMem htarget,
    List.idxOf_cons_self, List.idxOf_cons_ne _ hne, List.idxOf_cons_self]
  omega

/-- No links close a cycle. -/
theorem not_transGen_linked (id : TermId) : ¬ Relation.TransGen view.Linked id id := by
  intro hcycle
  have hlater := hcycle.lift (fun id => (chains.flatMap Chain.nodes).idxOf id)
    fun _ _ => h.idxOf_lt_of_linked
  rw [Relation.transGen_eq_self] at hlater
  exact Nat.lt_irrefl _ hlater

/-- There are as many terms as there are links and chains. -/
theorem size_nodes : view.shown.nodes.size = view.shown.links.size + chains.length := by
  have hnodes : view.shown.nodes.toList.Perm (chains.flatMap Chain.nodes) := by
    refine (List.perm_ext_iff_of_nodup view.nodup_nodes h.nodup).mpr fun id => ?_
    rw [← h.shows_iff, Std.ExtTreeSet.mem_toList, shows, Std.ExtTreeSet.contains_iff_mem]
  have hlinks : view.links.Perm (chains.flatMap Chain.links) := by
    refine (List.perm_ext_iff_of_nodup view.nodup_links h.nodup_links).mpr fun link => ?_
    rw [← h.showsLink_iff, mem_links]
  have hcount := (Chain.nodes_perm_targets chains).length_eq
  rw [List.length_append, List.length_map, List.length_map] at hcount
  rw [← Std.ExtTreeSet.length_toList, ← Std.ExtTreeSet.length_toList, hnodes.length_eq, hcount,
    ← hlinks.length_eq, Nat.add_comm]
  rfl

end LaidOut

/-- There is one chain for the root and one for each recorded pair. -/
theorem Grown.length_chains (h : Grown index view) :
    view.chains.length = 1 + view.history.countP (·.linkRemoved.isNone) := by
  induction h with
  | start => rw [chains_start]; rfl
  | @record view change hview hchange ih =>
    have hhistory : (view.record change).history = change :: view.history := rfl
    rw [hhistory, List.countP_cons]
    cases hchange with
    | split hknown hhidden hlink =>
      obtain ⟨_, _, _, _, _, hold, -, hnew⟩ := hview.chains_split (.split hknown hhidden hlink)
      rw [hold] at ih
      simpa [hnew] using ih
    | pair hne hsubterm hvalue hhidden hhidden' =>
      rw [hview.chains_pair hne (.pair hne hsubterm hvalue hhidden hhidden'),
        List.length_append, ih]
      simp [Nat.add_assoc]

/-- Whatever was done to a view, stale plans included, it shows terms of the graph and links between
shown terms; no two links share their source or their target; no links form a cycle; no link enters
the root, which is shown; there is one term more than there are links and recorded pairs; and a term
has no only link that leaves or enters it exactly if it has none at all. -/
theorem run_is_path_forest (graph : Graph) (commands : List Command) :
    let view := (View.start (Index.ofGraph graph)).run (Index.ofGraph graph) commands
    (∀ id, view.shows id = true → id ∈ graph.ids) ∧
      (∀ link, view.showsLink link = true →
        view.shows link.source = true ∧ view.shows link.target = true) ∧
      (∀ a b, view.showsLink a = true → view.showsLink b = true → a ≠ b →
        a.source ≠ b.source ∧ a.target ≠ b.target) ∧
      (∀ id, ¬ Relation.TransGen view.Linked id id) ∧
      (view.shows graph.root = true ∧ view.incoming graph.root = []) ∧
      view.shown.nodes.size =
        view.shown.links.size + 1 + view.history.countP (·.linkRemoved.isNone) ∧
      (∀ id, view.soleOutgoing? id = none ↔ view.outgoing id = []) ∧
      (∀ id, view.soleIncoming? id = none ↔ view.incoming id = []) := by
  intro view
  have hview : Grown (Index.ofGraph graph) view := Grown.start.run commands
  have hlaid := hview.laidOut
  obtain ⟨hroot, hshown⟩ := hview.shows_root
  refine ⟨?_, fun _ => hview.shows_ends, ?_, hlaid.not_transGen_linked, ⟨hshown, ?_⟩, ?_,
    fun _ => hlaid.soleOutgoing?_eq_none_iff, fun _ => hlaid.soleIncoming?_eq_none_iff⟩
  · intro id hid
    exact (Index.contains_ofGraph graph id).mp (hview.known hid)
  · intro a b ha hb hne
    exact ⟨fun heq => hne (hlaid.eq_of_source_eq ha hb heq),
      fun heq => hne (hlaid.eq_of_target_eq ha hb heq)⟩
  · obtain ⟨first, detached, hchains, hhead⟩ := hview.chains_eq_cons
    refine List.eq_nil_iff_forall_not_mem.mpr fun link hlink => ?_
    obtain ⟨hlink, htarget⟩ := mem_incoming.mp hlink
    exact hlaid.target_ne_head (hchains ▸ List.mem_cons_self) hlink (htarget.trans hhead.symm)
  · rw [hlaid.size_nodes, hview.length_chains, Nat.add_assoc]

end View

end ReductionStepper
