import ReductionStepper.Proofs.View.Determined

/-!
# The chain from the root

On a well-formed graph the first chain of a view holds those terms on the way from the root to the
last term that are shown. As long as some of these terms are hidden, one of them comes right after a
shown one; when none is hidden any more, the first chain is the whole way, a step a link.
-/

namespace ReductionStepper

open Relation (ReflTransGen TransGen)

/-- The terms on the way from the root to the last term. -/
def Index.rootPath (index : Index) : List TermId :=
  pathTerms (index.path index.root index.ending.term)

/-- The hidden terms on the way from the root to the last term. -/
def View.hiddenOnPath (index : Index) (view : View) : List TermId :=
  index.rootPath.filter fun id => !view.shows id

namespace View

variable {view : View} {index : Index} {graph : Graph} {change : Change} {first : Chain}
  {detached : List Chain} {link : Link} {id next : TermId}

/-- A grown view shows what a fresh view shows. -/
theorem Grown.shows_of_shows_start (h : Grown index view)
    (hid : (View.start index).shows id = true) : view.shows id = true := by
  induction h with
  | start => exact hid
  | record _ _ ih => exact shows_record.mpr (.inr ih)

/-- Of the terms on the way to a hidden one that come after a shown term, one is the first. -/
theorem exists_hidden_after_shown {source : TermId} (hsource : view.shows source = true)
    (hhidden : view.shows id = false) (h : ReflTransGen index.Next source id) :
    ∃ shown next, view.shows shown = true ∧ view.shows next = false ∧
      ReflTransGen index.Next source shown ∧ index.Next shown next := by
  induction h with
  | refl => simp [hhidden] at hsource
  | @tail middle target hmiddle hstep ih =>
    cases hshown : view.shows middle with
    | true => exact ⟨middle, target, hshown, hhidden, hmiddle, hstep⟩
    | false => exact ih hshown

/-- A link over which a step leads is single. -/
theorem weight_drawn_of_next (h : (Index.ofGraph graph).Next id next) :
    (view.drawn (Index.ofGraph graph) id next).weight = .single := by
  obtain ⟨step, hstep, htarget⟩ := Option.map_eq_some_iff.mp h
  have hmem := Index.step?_mem hstep
  have hhasStep : (Index.ofGraph graph).hasStep id next = true :=
    List.any_eq_true.mpr ⟨step, hmem, decide_eq_true htarget⟩
  have hhasEdge : (Index.ofGraph graph).hasEdge id next = true :=
    List.any_eq_true.mpr ⟨step, List.mem_of_mem_filter hmem, decide_eq_true htarget⟩
  rw [drawn]
  split
  · simp [Link.detached, hhasEdge]
  · simp [Link.between, hhasStep]

namespace Grown

/-- The first chain starts at the root. -/
theorem head_first (h : Grown index view) (hchains : view.chains = first :: detached) :
    first.head = index.root := by
  obtain ⟨_, _, hcons, hhead⟩ := h.chains_eq_cons
  obtain ⟨rfl, -⟩ := List.cons.inj (hcons.symm.trans hchains)
  exact hhead

section WellFormed

variable (hgraph : graph.WellFormed) (h : Grown (Index.ofGraph graph) view)
  (hfollows : view.Follows (Index.ofGraph graph))

include hgraph h

/-- The hidden terms on the way from the root are those that stepping reaches from it. -/
theorem mem_rootPath_iff (hhidden : view.shows id = false) :
    id ∈ (Index.ofGraph graph).rootPath ↔
      ReflTransGen (Index.ofGraph graph).Next graph.root id := by
  have hends : id ≠ graph.root ∧ id ≠ graph.ending.term := by
    constructor
    · rintro rfl
      exact absurd (h.shows_of_shows_start (shows_start.mpr (.inl rfl)))
        (Bool.eq_false_iff.mp hhidden)
    · rintro rfl
      exact absurd (h.shows_of_shows_start (shows_start.mpr (.inr rfl)))
        (Bool.eq_false_iff.mp hhidden)
  have hinside : id ∈ (Index.ofGraph graph).rootPath ↔
      (Index.ofGraph graph).Inside graph.root graph.ending.term id :=
    (and_iff_left hends).symm
  rw [hinside, hgraph.inside_iff]
  constructor
  · exact fun hid => hid.1.to_reflTransGen
  · intro hid
    have hto := (Relation.reflTransGen_iff_eq_or_transGen.mp hid).resolve_left hends.1
    refine ⟨hto, ?_⟩
    -- the last term takes no step, so it does not come before the other
    rcases ReflTransGen.total_of_right_unique (Index.rightUnique_next _) hgraph.ending_reached hid
      with hrest | hrest
    · obtain heq | ⟨_, hnext, -⟩ := ReflTransGen.cases_head hrest
      · exact absurd heq.symm hends.2
      · rw [Index.Next, hgraph.next?_ending] at hnext
        cases hnext
    · exact (Relation.reflTransGen_iff_eq_or_transGen.mp hrest).resolve_left hends.2.symm

include hfollows

/-- The first chain holds the shown terms that stepping reaches from the root. -/
theorem mem_first_iff (hchains : view.chains = first :: detached) :
    id ∈ first.nodes ↔
      view.shows id = true ∧ ReflTransGen (Index.ofGraph graph).Next graph.root id := by
  have hlaid := h.laidOut
  have hmem : first ∈ view.chains := hchains ▸ List.mem_cons_self
  have hhead : first.head = graph.root := h.head_first hchains
  constructor
  · intro hid
    refine ⟨(hlaid.shows_iff id).mpr (List.mem_flatMap_of_mem hmem hid), ?_⟩
    have hpairwise := (h.chains_follow hgraph hfollows first hmem).pairwise_nodes
      (hlaid.joined first hmem)
    rcases List.mem_cons.mp hid with rfl | hid
    · rw [hhead]
    · exact hhead ▸ ((List.pairwise_cons.mp hpairwise).1 id hid).to_reflTransGen
  · rintro ⟨hshown, hreached⟩
    obtain ⟨other, hother, hid⟩ := List.mem_flatMap.mp ((hlaid.shows_iff id).mp hshown)
    have hroot : graph.root ∈ first.nodes := hhead ▸ List.mem_cons_self
    obtain rfl := h.chain_eq_of_value_eq hgraph hfollows hmem hother hroot hid
      (hgraph.value_eq_value hreached)
    exact hid

/-- The first chain ends at the last term. -/
theorem last_first (hchains : view.chains = first :: detached) :
    first.last = graph.ending.term := by
  have hmem : first ∈ view.chains := hchains ▸ List.mem_cons_self
  have hhead : first.head = graph.root := h.head_first hchains
  rw [← (h.chains_follow hgraph hfollows first hmem).value_eq_last hgraph
    (h.laidOut.joined first hmem) List.mem_cons_self, hhead]
  exact hgraph.value_eq hgraph.ending_reached hgraph.next?_ending

/-- Behind the links of the first chain are the steps from the root to the last term. -/
theorem steps_first (hchains : view.chains = first :: detached) :
    first.steps (Index.ofGraph graph) =
      (Index.ofGraph graph).path graph.root graph.ending.term := by
  have hmem : first ∈ view.chains := hchains ▸ List.mem_cons_self
  have hhead : first.head = graph.root := h.head_first hchains
  rw [(h.chains_follow hgraph hfollows first hmem).steps_eq_path hgraph
    (h.laidOut.joined first hmem), hhead, h.last_first hgraph hfollows hchains]

/-! ## A step more on the way -/

omit hfollows in
/-- Showing the term that a shown one on the way steps to takes it, and only it, from the hidden
terms on the way. -/
theorem length_hiddenOnPath_record
    (hreached : ReflTransGen (Index.ofGraph graph).Next graph.root id)
    (hstep : (Index.ofGraph graph).Next id next) (hhidden : view.shows next = false)
    (hadded : change.nodesAdded = [next]) :
    ((view.record change).hiddenOnPath (Index.ofGraph graph)).length + 1 =
      (view.hiddenOnPath (Index.ofGraph graph)).length := by
  have hmem : next ∈ view.hiddenOnPath (Index.ofGraph graph) :=
    List.mem_filter.mpr ⟨(h.mem_rootPath_iff hgraph hhidden).mpr (hreached.tail hstep),
      by simp [hhidden]⟩
  have hnodup : (view.hiddenOnPath (Index.ofGraph graph)).Nodup :=
    (hgraph.nodup_pathTerms _ _).filter _
  have hshows : ∀ other, (view.record change).shows other = true ↔
      other = next ∨ view.shows other = true := by
    intro other
    rw [shows_record, hadded, List.mem_singleton]
  have herase : (view.record change).hiddenOnPath (Index.ofGraph graph) =
      (view.hiddenOnPath (Index.ofGraph graph)).erase next := by
    rw [hnodup.erase_eq_filter, hiddenOnPath, hiddenOnPath, List.filter_filter]
    refine List.filter_congr fun other _ => ?_
    grind
  rw [herase, List.length_erase_of_mem hmem]
  exact Nat.sub_add_cancel (List.length_pos_of_mem hmem)

omit hfollows in
/-- If terms on the way are hidden, one of them comes right after a shown one. -/
theorem exists_next_hidden (hne : view.hiddenOnPath (Index.ofGraph graph) ≠ []) :
    ∃ shown next, view.shows shown = true ∧
      ReflTransGen (Index.ofGraph graph).Next graph.root shown ∧
      (Index.ofGraph graph).Next shown next ∧ view.shows next = false := by
  obtain ⟨id, hid⟩ := List.exists_mem_of_ne_nil _ hne
  obtain ⟨hmem, hid⟩ := List.mem_filter.mp hid
  have hhidden : view.shows id = false := by simpa using hid
  obtain ⟨shown, next, hshown, hnext, hreached, hstep⟩ := exists_hidden_after_shown
    h.shows_root.2 hhidden ((h.mem_rootPath_iff hgraph hhidden).mp hmem)
  exact ⟨shown, next, hshown, hreached, hstep, hnext⟩

/-! ## The whole way -/

/-- A link of the first chain behind which no term on the way is hidden stands for one step. -/
theorem next_of_hiddenOnPath_eq_nil (hnil : view.hiddenOnPath (Index.ofGraph graph) = [])
    (hchains : view.chains = first :: detached) (hlink : link ∈ first.links) :
    (Index.ofGraph graph).Next link.source link.target := by
  have hlaid := h.laidOut
  have hmem : first ∈ view.chains := hchains ▸ List.mem_cons_self
  have hshown : view.showsLink link = true :=
    (hlaid.showsLink_iff link).mpr (List.mem_flatMap_of_mem hmem hlink)
  have hsource : link.source ∈ first.nodes := by
    rw [(hlaid.joined first hmem).nodes_eq]
    exact List.mem_append_left _ (List.mem_map_of_mem hlink)
  obtain ⟨-, hreached⟩ := (h.mem_first_iff hgraph hfollows hchains).mp hsource
  obtain ⟨next, hstep, hrest⟩ :=
    TransGen.head'_iff.mp (h.transGen_of_showsLink hgraph hfollows hshown)
  rcases Relation.reflTransGen_iff_eq_or_transGen.mp hrest with heq | hrest
  · rwa [heq]
  -- a term between the two would be hidden
  · have hhidden := h.hidden_of_inside hgraph hfollows hshown
      (hgraph.inside_iff.mpr ⟨.single hstep, hrest⟩)
    have hnext : next ∈ view.hiddenOnPath (Index.ofGraph graph) :=
      List.mem_filter.mpr ⟨(h.mem_rootPath_iff hgraph hhidden).mpr (hreached.tail hstep),
        by simp [hhidden]⟩
    rw [hnil] at hnext
    cases hnext

/-- If no term on the way is hidden, the first chain is the whole way and all its links are
single. -/
theorem first_eq_of_hiddenOnPath_eq_nil (hnil : view.hiddenOnPath (Index.ofGraph graph) = [])
    (hchains : view.chains = first :: detached) :
    (first.nodes = if graph.ending.term = graph.root then [graph.root]
      else (Index.ofGraph graph).rootPath) ∧ ∀ link ∈ first.links, link.weight = .single := by
  have hlaid := h.laidOut
  have hmem : first ∈ view.chains := hchains ▸ List.mem_cons_self
  have hnext : ∀ link ∈ first.links, (Index.ofGraph graph).Next link.source link.target :=
    fun _ => h.next_of_hiddenOnPath_eq_nil hgraph hfollows hnil hchains
  have hhead : first.head = graph.root := h.head_first hchains
  have htargets : first.links.map Link.target =
      ((Index.ofGraph graph).path graph.root graph.ending.term).map Edge.target := by
    rw [← h.steps_first hgraph hfollows hchains, Chain.steps, List.map_flatMap,
      ← List.flatMap_pure_eq_map]
    refine List.flatMap_congr fun link hlink => ?_
    obtain ⟨step, hstep, htarget⟩ := Option.map_eq_some_iff.mp (hnext link hlink)
    have hpath : (Index.ofGraph graph).path link.source link.target = [step] :=
      hgraph.path_eq (.step hstep (Index.Leads.nil_iff.mpr htarget))
    rw [hpath, Function.comp_apply, ← htarget]
    rfl
  refine ⟨?_, fun link hlink => ?_⟩
  · rw [Chain.nodes, htargets, hhead]
    split
    · next hsame => rw [hsame, hgraph.path_eq (.refl _), List.map_nil]
    · next hother =>
      have hleads := hgraph.leads_path hgraph.ending_reached
      refine (hleads.pathTerms_eq fun hempty => ?_).symm
      rw [hempty, Index.Leads.nil_iff] at hleads
      exact hother hleads.symm
  · rw [h.eq_drawn ((hlaid.showsLink_iff link).mpr (List.mem_flatMap_of_mem hmem hlink))]
    exact weight_drawn_of_next (hnext link hlink)

end WellFormed

end Grown

end View

end ReductionStepper
