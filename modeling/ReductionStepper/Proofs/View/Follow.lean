import ReductionStepper.Proofs.Graph.WellFormed
import ReductionStepper.Proofs.View.Layout

/-!
# Views that follow the steps

A change follows the steps if it splits a link at a term strictly inside the path behind it, or
pairs a term with its value. If all changes of a view do so, each link stands for a path of steps,
and each chain ends at the value of all its terms. The second fact keeps chains apart: a shown term
strictly inside a link would have to stand in the chain of the link, between its neighbours.
-/

namespace ReductionStepper

open Relation (ReflTransGen TransGen)

/-- A change that stays on the steps of the graph. -/
def Change.Follows (index : Index) (change : Change) : Prop :=
  match change.linkRemoved, change.nodesAdded with
  | some replacing, [node] => index.Inside replacing.source replacing.target node
  | none, [subterm, value] => value = index.value subterm ∧ value ≠ subterm
  | _, _ => False

/-- A chain whose links stand for paths of steps, to a term without a step. -/
structure Chain.Follows (index : Index) (chain : Chain) : Prop where
  steps : ∀ link ∈ chain.links, TransGen index.Next link.source link.target
  rests : index.next? chain.last = none

/-- The steps behind the links of a chain, in order. -/
def Chain.steps (index : Index) (chain : Chain) : List Edge :=
  chain.links.flatMap fun link => index.path link.source link.target

namespace Chain

variable {graph : Graph} {chain : Chain} {index : Index} {source target : TermId}
  {links : List Link}

private theorem reaches_of_joined (hjoined : Link.Joined source links target)
    (hsteps : ∀ link ∈ links, TransGen index.Next link.source link.target) :
    ReflTransGen index.Next source target := by
  induction links generalizing source with
  | nil =>
    cases hjoined
    exact .refl
  | cons link links ih =>
    obtain ⟨rfl, hjoined⟩ := hjoined
    obtain ⟨hlink, hsteps⟩ := List.forall_mem_cons.mp hsteps
    exact hlink.to_reflTransGen.trans (ih hjoined hsteps)

private theorem pairwise_of_joined (hjoined : Link.Joined source links target)
    (hsteps : ∀ link ∈ links, TransGen index.Next link.source link.target) :
    (source :: links.map Link.target).Pairwise (TransGen index.Next) := by
  induction links generalizing source with
  | nil => exact List.pairwise_singleton _ _
  | cons link links ih =>
    obtain ⟨rfl, hjoined⟩ := hjoined
    obtain ⟨hlink, hsteps⟩ := List.forall_mem_cons.mp hsteps
    have hrest := ih hjoined hsteps
    refine List.pairwise_cons.mpr ⟨?_, hrest⟩
    intro id hid
    rcases List.mem_cons.mp hid with rfl | hid
    · exact hlink
    · exact hlink.trans ((List.pairwise_cons.mp hrest).1 id hid)

private theorem flatMap_path_eq (hgraph : graph.WellFormed)
    (hjoined : Link.Joined source links target)
    (hsteps : ∀ link ∈ links, TransGen (Index.ofGraph graph).Next link.source link.target) :
    (links.flatMap fun link => (Index.ofGraph graph).path link.source link.target) =
      (Index.ofGraph graph).path source target := by
  induction links generalizing source with
  | nil =>
    cases hjoined
    exact (hgraph.path_eq (.refl _)).symm
  | cons link links ih =>
    obtain ⟨rfl, hjoined⟩ := hjoined
    obtain ⟨hlink, hsteps⟩ := List.forall_mem_cons.mp hsteps
    rw [List.flatMap_cons, ih hjoined hsteps]
    exact hgraph.path_append hlink.to_reflTransGen (reaches_of_joined hjoined hsteps)

namespace Follows

/-- The steps behind the links of a chain are all those from its head to its last term. -/
theorem steps_eq_path (hgraph : graph.WellFormed) (h : chain.Follows (Index.ofGraph graph))
    (hjoined : chain.Joined) :
    chain.steps (Index.ofGraph graph) = (Index.ofGraph graph).path chain.head chain.last :=
  flatMap_path_eq hgraph hjoined h.steps

/-- Stepping leads from each term of a chain to all later ones. -/
theorem pairwise_nodes (h : chain.Follows index) (hjoined : chain.Joined) :
    chain.nodes.Pairwise (TransGen index.Next) :=
  pairwise_of_joined hjoined h.steps

/-- A chain ends at the value of all its terms. -/
theorem value_eq_last (hgraph : graph.WellFormed) (h : chain.Follows (Index.ofGraph graph))
    (hjoined : chain.Joined) {id : TermId} (hid : id ∈ chain.nodes) :
    (Index.ofGraph graph).value id = chain.last := by
  refine hgraph.value_eq ?_ h.rests
  have hpairwise := h.pairwise_nodes hjoined
  rw [hjoined.nodes_eq] at hid hpairwise
  rcases List.mem_append.mp hid with hid | hid
  · exact ((List.pairwise_append.mp hpairwise).2.2 id hid chain.last (by simp)).to_reflTransGen
  · rw [List.mem_singleton.mp hid]

end Follows

end Chain

namespace View

variable {graph : Graph} {view : View} {link : Link} {id : TermId}

/-- All recorded changes stay on the steps of the graph. -/
def Follows (index : Index) (view : View) : Prop := ∀ change ∈ view.history, change.Follows index

/-- If all changes follow the steps, so do the chains. -/
theorem Grown.chains_follow (h : Grown (Index.ofGraph graph) view) (hgraph : graph.WellFormed)
    (hfollows : view.Follows (Index.ofGraph graph)) :
    ∀ chain ∈ view.chains, chain.Follows (Index.ofGraph graph) := by
  induction h with
  | start =>
    rw [chains_start]
    refine List.forall_mem_singleton.mpr ?_
    by_cases hroot : (Index.ofGraph graph).ending.term = (Index.ofGraph graph).root
    · rw [if_pos hroot]
      have hlast : Chain.last ⟨(Index.ofGraph graph).root, []⟩ = graph.ending.term := hroot.symm
      exact ⟨by simp, hlast ▸ hgraph.next?_ending⟩
    · rw [if_neg hroot]
      refine ⟨List.forall_mem_singleton.mpr ?_, hgraph.next?_ending⟩
      rcases Relation.reflTransGen_iff_eq_or_transGen.mp hgraph.ending_reached with heq | hreached
      · exact absurd heq hroot
      · exact hreached
  | @record view change hview hchange ih =>
    obtain ⟨hlast, hearlier⟩ := List.forall_mem_cons.mp hfollows
    specialize ih hearlier
    cases hchange with
    | @split node replacing hknown hhidden hlink =>
      obtain ⟨before, chain, after, earlier, later, hold, hlinks, hnew⟩ :=
        hview.chains_split (.split hknown hhidden hlink)
      have hinside : (Index.ofGraph graph).Inside replacing.source replacing.target node := hlast
      obtain ⟨hto, hfrom⟩ := hgraph.inside_iff.mp hinside
      have hlaid := hview.laidOut
      rw [hold] at ih hlaid
      rw [hnew]
      simp only [List.forall_mem_append, List.forall_mem_cons] at ih ⊢
      obtain ⟨hbefore, hchain, hafter⟩ := ih
      refine ⟨hbefore, ⟨?_, ?_⟩, hafter⟩
      · have hsteps := hchain.steps
        rw [hlinks] at hsteps
        simp only [Chain.splice, List.forall_mem_append, List.forall_mem_cons] at hsteps ⊢
        exact ⟨hsteps.1, hto, hfrom, hsteps.2.2⟩
      · rw [((hlaid.joined chain (by simp)).splice hlinks node).2]
        exact hchain.rests
    | @pair subterm value hne hsubterm hvalue hhidden hhidden' =>
      rw [hview.chains_pair hne (.pair hne hsubterm hvalue hhidden hhidden')]
      obtain ⟨hvalue, -⟩ : value = (Index.ofGraph graph).value subterm ∧ value ≠ subterm := hlast
      have hreaches := Index.reaches_value (Index.ofGraph graph) subterm
      rw [← hvalue] at hreaches
      refine List.forall_mem_append.mpr ⟨ih, List.forall_mem_singleton.mpr ⟨?_, ?_⟩⟩
      · refine List.forall_mem_singleton.mpr ?_
        rcases Relation.reflTransGen_iff_eq_or_transGen.mp hreaches with heq | hreached
        · exact absurd heq.symm hne
        · exact hreached
      · have hrests := hgraph.next?_value subterm
        rw [← hvalue] at hrests
        exact hrests

/-- Stepping leads from one end of a shown link to the other. -/
theorem Grown.transGen_of_showsLink (h : Grown (Index.ofGraph graph) view)
    (hgraph : graph.WellFormed) (hfollows : view.Follows (Index.ofGraph graph))
    (hlink : view.showsLink link = true) :
    TransGen (Index.ofGraph graph).Next link.source link.target := by
  obtain ⟨chain, hchain, hmem⟩ := List.mem_flatMap.mp ((h.laidOut.showsLink_iff link).mp hlink)
  exact (h.chains_follow hgraph hfollows chain hchain).steps link hmem

/-- Chains whose terms have the same value are the same chain. -/
theorem Grown.chain_eq_of_value_eq {chain other : Chain} {node : TermId}
    (h : Grown (Index.ofGraph graph) view) (hgraph : graph.WellFormed)
    (hfollows : view.Follows (Index.ofGraph graph)) (hchain : chain ∈ view.chains)
    (hother : other ∈ view.chains) (hid : id ∈ chain.nodes) (hnode : node ∈ other.nodes)
    (hvalue : (Index.ofGraph graph).value id = (Index.ofGraph graph).value node) :
    chain = other := by
  have hlaid := h.laidOut
  have hchains := h.chains_follow hgraph hfollows
  have hlast : chain.last = other.last := by
    rw [← (hchains chain hchain).value_eq_last hgraph (hlaid.joined chain hchain) hid,
      ← (hchains other hother).value_eq_last hgraph (hlaid.joined other hother) hnode, hvalue]
  exact List.inj_on_of_nodup_map (List.nodup_append.mp hlaid.nodup_sources).2.1 hchain hother hlast

/-- No shown term lies strictly inside the path behind a shown link. -/
theorem Grown.hidden_of_inside (h : Grown (Index.ofGraph graph) view)
    (hgraph : graph.WellFormed) (hfollows : view.Follows (Index.ofGraph graph))
    (hlink : view.showsLink link = true)
    (hinside : (Index.ofGraph graph).Inside link.source link.target id) :
    view.shows id = false := by
  apply Bool.eq_false_iff.mpr
  intro hshown
  obtain ⟨hto, hfrom⟩ := hgraph.inside_iff.mp hinside
  have hlaid := h.laidOut
  have hchains := h.chains_follow hgraph hfollows
  obtain ⟨chain, hchain, hmem⟩ := List.mem_flatMap.mp ((hlaid.showsLink_iff link).mp hlink)
  obtain ⟨other, hother, hid⟩ := List.mem_flatMap.mp ((hlaid.shows_iff id).mp hshown)
  obtain ⟨before, after, hnodes⟩ := (hlaid.joined chain hchain).nodes_eq_of_mem hmem
  have htarget : link.target ∈ chain.nodes := by simp [hnodes]
  obtain rfl := h.chain_eq_of_value_eq hgraph hfollows hother hchain hid htarget
    (hgraph.value_eq_value hfrom.to_reflTransGen)
  have hpairwise := (hchains other hother).pairwise_nodes (hlaid.joined other hother)
  rw [hnodes] at hid hpairwise
  obtain ⟨-, hrest, hbefore⟩ := List.pairwise_append.mp hpairwise
  obtain ⟨-, hlater⟩ := List.pairwise_cons.mp hrest
  rcases List.mem_append.mp hid with hid | hid
  · exact hgraph.acyclic _ (hto.trans (hbefore id hid link.source (by simp)))
  rcases List.mem_cons.mp hid with rfl | hid
  · exact hinside.2.1 rfl
  rcases List.mem_cons.mp hid with rfl | hid
  · exact hinside.2.2 rfl
  · exact hgraph.acyclic _ (((List.pairwise_cons.mp hlater).1 id hid).trans hfrom)

end View

end ReductionStepper
