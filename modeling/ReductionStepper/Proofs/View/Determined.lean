import ReductionStepper.Proofs.View.Follow
import ReductionStepper.Proofs.View.Forest

/-!
# What the shown terms determine

A view is built change by change, but as long as the changes follow the steps, its picture does not
remember them. A link is shown between two terms exactly if stepping leads from the one to the other
over hidden terms only. Its weight is that of a step, unless the link is a whole chain by itself
that does not start at the root: then it still is the pair that was shown, and any edge makes it
single.
-/

namespace ReductionStepper

open Relation (ReflTransGen TransGen)

namespace View

variable {view : View} {index : Index} {change : Change} {graph : Graph} {source target : TermId}
  {link : Link}

/-- No link enters the one term or leaves the other, and the one is not the root: a link between
them is a pair on which no term was put. -/
def Alone (view : View) (source target : TermId) : Prop :=
  source ≠ view.root ∧ view.incoming source = [] ∧ view.outgoing target = []

instance (view : View) (source target : TermId) : Decidable (view.Alone source target) :=
  inferInstanceAs (Decidable (_ ∧ _ ∧ _))

/-- The link between two terms with the weight that its place gives it. -/
def drawn (view : View) (index : Index) (source target : TermId) : Link :=
  if view.Alone source target then .detached index source target
  else .between index source target

/-- A change does not touch whether two shown terms are alone. -/
theorem Admits.alone_record_iff (hchange : view.Admits index change)
    (hsource : view.shows source = true) (htarget : view.shows target = true) :
    (view.record change).Alone source target ↔ view.Alone source target := by
  rw [Alone, Alone, hchange.incoming_record_eq_nil_iff hsource,
    hchange.outgoing_record_eq_nil_iff htarget]
  rfl

/-! ## Weights -/

namespace Grown

/-- The two terms of a new pair are alone. -/
theorem alone_pair {subterm value : TermId} (h : Grown index view) (hne : subterm ≠ value)
    (hchange : view.Admits index (pairing index subterm value)) :
    (view.record (pairing index subterm value)).Alone subterm value := by
  obtain ⟨hroot, hshown⟩ := h.shows_root
  have hhidden : view.shows subterm = false := hchange.hidden (by simp)
  have hother : subterm ≠ view.root := by
    intro heq
    rw [heq, hroot, hshown] at hhidden
    cases hhidden
  exact ⟨hother, h.incoming_pair_eq_nil hne hchange, h.outgoing_pair_eq_nil hne hchange⟩

/-- The weight of a shown link is the one that its place gives it. -/
theorem eq_drawn (h : Grown index view) (hlink : view.showsLink link = true) :
    link = view.drawn index link.source link.target := by
  induction h generalizing link with
  | start =>
    obtain ⟨-, rfl⟩ := showsLink_start.mp hlink
    exact (if_neg fun halone => halone.1 rfl).symm
  | @record view change hview hchange ih =>
    rcases showsLink_record.mp hlink with hadded | ⟨-, hshown⟩
    · cases hchange with
      | @split node replacing hknown hhidden hreplacing =>
        have hto : (view.record (splitting index node replacing)).showsLink
            (.between index replacing.source node) = true := showsLink_record.mpr (.inl (by simp))
        have hfrom : (view.record (splitting index node replacing)).showsLink
            (.between index node replacing.target) = true := showsLink_record.mpr (.inl (by simp))
        -- the new term has a link on either side, so neither of the two is alone
        have hentered := List.ne_nil_of_mem (mem_incoming.mpr ⟨hto, rfl⟩)
        have hleft := List.ne_nil_of_mem (mem_outgoing.mpr ⟨hfrom, rfl⟩)
        simp only [linksAdded_splitting, List.mem_cons, List.not_mem_nil, or_false] at hadded
        rcases hadded with rfl | rfl
        · exact (if_neg fun halone => hleft halone.2.2).symm
        · exact (if_neg fun halone => hentered halone.2.1).symm
      | @pair subterm value hne hsubterm hvalue hhidden hhidden' =>
        have halone := hview.alone_pair hne (.pair hne hsubterm hvalue hhidden hhidden')
        obtain rfl := List.mem_singleton.mp hadded
        exact (if_pos halone).symm
    · obtain ⟨hsource, htarget⟩ := hview.shows_ends hshown
      have hsame := hchange.alone_record_iff hsource htarget
      simp only [drawn, hsame]
      exact ih hshown

/-! ## Ends -/

section WellFormed

variable (hgraph : graph.WellFormed) (h : Grown (Index.ofGraph graph) view)
  (hfollows : view.Follows (Index.ofGraph graph))

include hgraph h hfollows

/-- A shown term without a link that leaves it is the end of its chain and takes no step. -/
theorem exists_link_of_transGen (hsource : view.shows source = true)
    (hstep : TransGen (Index.ofGraph graph).Next source target) :
    ∃ link, view.showsLink link = true ∧ link.source = source := by
  have hlaid := h.laidOut
  obtain ⟨chain, hchain, hmem⟩ := List.mem_flatMap.mp ((hlaid.shows_iff source).mp hsource)
  rw [(hlaid.joined chain hchain).nodes_eq] at hmem
  rcases List.mem_append.mp hmem with hmem | hmem
  · obtain ⟨link, hlink, rfl⟩ := List.mem_map.mp hmem
    exact ⟨link, (hlaid.showsLink_iff link).mpr (List.mem_flatMap_of_mem hchain hlink), rfl⟩
  · have hrests := (h.chains_follow hgraph hfollows chain hchain).rests
    rw [← List.mem_singleton.mp hmem] at hrests
    obtain ⟨next, hnext, -⟩ := TransGen.head'_iff.mp hstep
    rw [Index.Next, hrests] at hnext
    cases hnext

/-- A link leads from one term to another exactly if both are shown and stepping leads from the one
to the other over hidden terms only. -/
theorem linked_iff :
    view.Linked source target ↔
      (view.shows source = true ∧ view.shows target = true) ∧
        TransGen (Index.ofGraph graph).Next source target ∧
        ∀ id, view.shows id = true → ¬ (Index.ofGraph graph).Inside source target id := by
  constructor
  · rintro ⟨link, hlink, rfl, rfl⟩
    refine ⟨h.shows_ends hlink, h.transGen_of_showsLink hgraph hfollows hlink, ?_⟩
    intro id hid hinside
    rw [h.hidden_of_inside hgraph hfollows hlink hinside] at hid
    cases hid
  · rintro ⟨⟨hsource, htarget⟩, hstep, hbetween⟩
    obtain ⟨link, hlink, rfl⟩ := h.exists_link_of_transGen hgraph hfollows hsource hstep
    have hleads := h.transGen_of_showsLink hgraph hfollows hlink
    refine ⟨link, hlink, rfl, ?_⟩
    -- of the two ends the one that comes first would be inside the other path
    rcases ReflTransGen.total_of_right_unique (Index.rightUnique_next _) hleads.to_reflTransGen
      hstep.to_reflTransGen with hrest | hrest
    · rcases Relation.reflTransGen_iff_eq_or_transGen.mp hrest with heq | hrest
      · exact heq.symm
      · exact absurd (hgraph.inside_iff.mpr ⟨hleads, hrest⟩)
          (hbetween link.target (h.shows_ends hlink).2)
    · rcases Relation.reflTransGen_iff_eq_or_transGen.mp hrest with heq | hrest
      · exact heq
      · have hinside := hgraph.inside_iff.mpr ⟨hstep, hrest⟩
        rw [h.hidden_of_inside hgraph hfollows hlink hinside] at htarget
        cases htarget

end WellFormed

end Grown

/-! ## Pictures -/

/-- No link enters a term exactly if the view links no term to it. -/
theorem incoming_eq_nil_iff {id : TermId} :
    view.incoming id = [] ↔ ∀ other, ¬ view.Linked other id := by
  rw [List.eq_nil_iff_forall_not_mem]
  constructor
  · rintro hnone other ⟨link, hlink, -, htarget⟩
    exact hnone link (mem_incoming.mpr ⟨hlink, htarget⟩)
  · intro hnone link hmem
    obtain ⟨hlink, htarget⟩ := mem_incoming.mp hmem
    exact hnone link.source ⟨link, hlink, rfl, htarget⟩

/-- No link leaves a term exactly if the view links it to no term. -/
theorem outgoing_eq_nil_iff {id : TermId} :
    view.outgoing id = [] ↔ ∀ other, ¬ view.Linked id other := by
  rw [List.eq_nil_iff_forall_not_mem]
  constructor
  · rintro hnone other ⟨link, hlink, hsource, -⟩
    exact hnone link (mem_outgoing.mpr ⟨hlink, hsource⟩)
  · intro hnone link hmem
    obtain ⟨hlink, hsource⟩ := mem_outgoing.mp hmem
    exact hnone link.target ⟨link, hlink, hsource, rfl⟩

/-- Grown views that link the same terms show the same links. -/
theorem Grown.links_subset {a b : View} (ha : Grown index a) (hb : Grown index b)
    (hlinked : ∀ source target, a.Linked source target ↔ b.Linked source target)
    (hlink : a.showsLink link = true) : b.showsLink link = true := by
  obtain ⟨other, hother, hsource, htarget⟩ := (hlinked _ _).mp ⟨link, hlink, rfl, rfl⟩
  have halone : a.Alone link.source link.target ↔ b.Alone link.source link.target := by
    rw [Alone, Alone, ha.shows_root.1, hb.shows_root.1]
    simp only [incoming_eq_nil_iff, outgoing_eq_nil_iff, hlinked]
  have hsame : other = link :=
    calc other = b.drawn index other.source other.target := hb.eq_drawn hother
      _ = b.drawn index link.source link.target := by rw [hsource, htarget]
      _ = a.drawn index link.source link.target := by simp only [drawn, halone]
      _ = link := (ha.eq_drawn hlink).symm
  exact hsame ▸ hother

/-- Of views that follow the steps, those with the same terms have the same links. -/
theorem Grown.links_eq_of_nodes_eq {a b : View} (hgraph : graph.WellFormed)
    (ha : Grown (Index.ofGraph graph) a) (hafollows : a.Follows (Index.ofGraph graph))
    (hb : Grown (Index.ofGraph graph) b) (hbfollows : b.Follows (Index.ofGraph graph))
    (hnodes : a.shown.nodes = b.shown.nodes) : a.shown.links = b.shown.links := by
  have hshows : ∀ id, a.shows id = b.shows id := by
    intro id
    rw [shows, shows, hnodes]
  have hlinked : ∀ source target, a.Linked source target ↔ b.Linked source target := by
    intro source target
    rw [ha.linked_iff hgraph hafollows, hb.linked_iff hgraph hbfollows]
    simp only [hshows]
  refine Std.ExtTreeSet.ext_mem fun link => ?_
  rw [← Std.ExtTreeSet.contains_iff_mem, ← Std.ExtTreeSet.contains_iff_mem]
  exact ⟨ha.links_subset hb hlinked,
    hb.links_subset ha fun source target => (hlinked source target).symm⟩

end View

end ReductionStepper
