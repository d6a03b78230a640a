import Mathlib.Data.List.Nodup
import ReductionStepper.Proofs.View.Growth
import ReductionStepper.View

/-!
# The layout of a view

`LaidOut` ties a view to a list of chains: the chains hold every shown term once and every shown
link once, and the links of a chain follow each other. Splitting puts the new term into one chain,
pairing adds a chain at the end. `chains` finds the layout of every grown view, so what is shown
about layouts holds of the chains that are displayed.
-/

namespace ReductionStepper

/-- Links that follow each other from one term to another. -/
def Link.Joined : TermId → List Link → TermId → Prop
  | source, [], target => source = target
  | source, link :: later, target => link.source = source ∧ Joined link.target later target

namespace Link.Joined

variable {source middle target : TermId} {links later : List Link}

private theorem append_iff :
    Joined source (links ++ later) target ↔
      ∃ middle, Joined source links middle ∧ Joined middle later target := by
  induction links generalizing source with
  | nil => simp [Joined]
  | cons link links ih => simp [Joined, ih, and_assoc]

/-- The terms that links lead from, and the last term, are those that they lead to and the first. -/
theorem source_cons_targets (h : Joined source links target) :
    source :: links.map Link.target = links.map Link.source ++ [target] := by
  induction links generalizing source with
  | nil =>
    cases h
    rfl
  | cons link links ih =>
    obtain ⟨rfl, h⟩ := h
    simp [ih h]

end Link.Joined

namespace Chain

/-- The last term of a chain. -/
def last (chain : Chain) : TermId := chain.nodes.getLast (List.cons_ne_nil _ _)

/-- The links of a chain follow each other from its head to its last term. -/
def Joined (chain : Chain) : Prop := Link.Joined chain.head chain.links chain.last

/-- The chain with a term on one of its links, which two links replace. -/
def splice (chain : Chain) (index : Index) (earlier : List Link) (replacing : Link)
    (later : List Link) (node : TermId) : Chain :=
  ⟨chain.head, earlier ++ .between index replacing.source node ::
    .between index node replacing.target :: later⟩

variable {chain : Chain} {chains : List Chain}

private theorem last_eq {head target : TermId} {links : List Link}
    (h : Link.Joined head links target) :
    last ⟨head, links⟩ = target := by
  simp [last, nodes, h.source_cons_targets]

/-- The terms of a chain are the sources of its links and its last term. -/
theorem Joined.nodes_eq (h : chain.Joined) :
    chain.nodes = chain.links.map Link.source ++ [chain.last] :=
  h.source_cons_targets

/-- Joined links make a joined chain. -/
theorem joined_of_joined {head : TermId} {links : List Link} (target : TermId)
    (h : Link.Joined head links target) : Joined ⟨head, links⟩ := by
  rw [Joined, last_eq h]
  exact h

/-- The two terms of a link stand next to each other in its chain. -/
theorem Joined.nodes_eq_of_mem {link : Link} (h : chain.Joined) (hlink : link ∈ chain.links) :
    ∃ before after, chain.nodes = before ++ link.source :: link.target :: after := by
  obtain ⟨earlier, later, hlinks⟩ := List.append_of_mem hlink
  rw [Joined, hlinks] at h
  obtain ⟨middle, hearlier, rfl, -⟩ := Link.Joined.append_iff.mp h
  have hnodes : chain.nodes =
      (chain.head :: earlier.map Link.target) ++ link.target :: later.map Link.target := by
    simp [nodes, hlinks]
  refine ⟨earlier.map Link.source, later.map Link.target, ?_⟩
  rw [hnodes, hearlier.source_cons_targets, List.append_assoc]
  rfl

/-- A spliced chain ends where the chain ended. -/
theorem Joined.splice {index : Index} {earlier later : List Link} {replacing : Link}
    (h : chain.Joined) (hlinks : chain.links = earlier ++ replacing :: later) (node : TermId) :
    (chain.splice index earlier replacing later node).Joined ∧
      (chain.splice index earlier replacing later node).last = chain.last := by
  rw [Joined, hlinks] at h
  obtain ⟨middle, hearlier, rfl, hlater⟩ := Link.Joined.append_iff.mp h
  have hnew : Link.Joined chain.head (earlier ++ .between index replacing.source node ::
      .between index node replacing.target :: later) chain.last :=
    Link.Joined.append_iff.mpr ⟨replacing.source, hearlier, rfl, rfl, hlater⟩
  exact ⟨joined_of_joined _ hnew, last_eq hnew⟩

/-- Splicing adds one term to the terms of all chains. -/
theorem nodes_splice_perm {index : Index} {before after : List Chain} {earlier later : List Link}
    {replacing : Link} (hlinks : chain.links = earlier ++ replacing :: later) (node : TermId) :
    ((before ++ chain.splice index earlier replacing later node :: after).flatMap nodes).Perm
      (node :: (before ++ chain :: after).flatMap nodes) := by
  have hmiddle := @List.perm_middle _ node
    (before.flatMap nodes ++ chain.head :: earlier.map Link.target)
    (replacing.target :: (later.map Link.target ++ after.flatMap nodes))
  simpa [nodes, splice, hlinks, Link.between] using hmiddle

/-- The terms of chains are their heads and the targets of their links. -/
theorem nodes_perm_targets (chains : List Chain) :
    (chains.flatMap nodes).Perm
      (chains.map head ++ (chains.flatMap links).map Link.target) := by
  induction chains with
  | nil => simp
  | cons chain chains ih =>
    simp only [List.flatMap_cons, List.map_cons, List.map_append, nodes, List.cons_append]
    refine .cons _ ((ih.append_left _).trans ?_)
    rw [← List.append_assoc, ← List.append_assoc]
    exact List.perm_append_comm.append_right _

/-- The terms of chains are the sources of their links and their last terms. -/
theorem nodes_perm_sources (h : ∀ chain ∈ chains, chain.Joined) :
    (chains.flatMap nodes).Perm
      ((chains.flatMap links).map Link.source ++ chains.map last) := by
  induction chains with
  | nil => simp
  | cons chain chains ih =>
    have hrest := ih fun other hother => h other (List.mem_cons_of_mem _ hother)
    rw [List.flatMap_cons, (h chain List.mem_cons_self).nodes_eq, List.append_assoc]
    simp only [List.flatMap_cons, List.map_cons, List.map_append, List.append_assoc]
    refine .append_left _ ?_
    exact (hrest.cons chain.last).trans List.perm_middle.symm

end Chain

namespace View

variable {view : View} {index : Index} {change : Change} {id : TermId} {link : Link}

private theorem eq_singleton_of_mem {α : Type} {list : List α} {a : α} (hnodup : list.Nodup)
    (hmem : a ∈ list) (hall : ∀ b ∈ list, b = a) : list = [a] := by
  match list, hnodup with
  | [], _ => cases hmem
  | [b], _ => rw [hall b (by simp)]
  | b :: c :: rest, hnodup =>
    have hne : b ≠ c := by simp_all
    exact absurd ((hall b (by simp)).trans (hall c (by simp)).symm) hne

/-- The chains hold every shown term once and every shown link once; the links of a chain follow
each other; and the chains start at the heads of the view. -/
structure LaidOut (view : View) (chains : List Chain) : Prop where
  nodup : (chains.flatMap Chain.nodes).Nodup
  shows_iff : ∀ id, view.shows id = true ↔ id ∈ chains.flatMap Chain.nodes
  showsLink_iff : ∀ link, view.showsLink link = true ↔ link ∈ chains.flatMap Chain.links
  joined : ∀ chain ∈ chains, chain.Joined
  heads : view.heads = chains.map Chain.head

namespace LaidOut

variable {chains : List Chain} (h : view.LaidOut chains)

include h

/-- Heads and targets of links are distinct. -/
theorem nodup_targets :
    (chains.map Chain.head ++ (chains.flatMap Chain.links).map Link.target).Nodup :=
  (Chain.nodes_perm_targets chains).nodup_iff.mp h.nodup

/-- Sources of links and last terms are distinct. -/
theorem nodup_sources :
    ((chains.flatMap Chain.links).map Link.source ++ chains.map Chain.last).Nodup :=
  (Chain.nodes_perm_sources h.joined).nodup_iff.mp h.nodup

/-- No link stands in two places. -/
theorem nodup_links : (chains.flatMap Chain.links).Nodup :=
  List.Nodup.of_map _ (List.nodup_append.mp h.nodup_targets).2.1

/-- Shown links with the same source are equal. -/
theorem eq_of_source_eq {a b : Link} (ha : view.showsLink a = true) (hb : view.showsLink b = true)
    (hsource : a.source = b.source) : a = b :=
  List.inj_on_of_nodup_map (List.nodup_append.mp h.nodup_sources).1
    ((h.showsLink_iff a).mp ha) ((h.showsLink_iff b).mp hb) hsource

/-- Shown links with the same target are equal. -/
theorem eq_of_target_eq {a b : Link} (ha : view.showsLink a = true) (hb : view.showsLink b = true)
    (htarget : a.target = b.target) : a = b :=
  List.inj_on_of_nodup_map (List.nodup_append.mp h.nodup_targets).2.1
    ((h.showsLink_iff a).mp ha) ((h.showsLink_iff b).mp hb) htarget

/-- No link leads to the head of a chain. -/
theorem target_ne_head {chain : Chain} (hchain : chain ∈ chains)
    (hlink : view.showsLink link = true) : link.target ≠ chain.head := by
  intro heq
  exact (List.nodup_append.mp h.nodup_targets).2.2 _ (List.mem_map_of_mem hchain) _
    (List.mem_map_of_mem ((h.showsLink_iff link).mp hlink)) heq.symm

/-- No link leads from the last term of a chain. -/
theorem source_ne_last {chain : Chain} (hchain : chain ∈ chains)
    (hlink : view.showsLink link = true) : link.source ≠ chain.last :=
  (List.nodup_append.mp h.nodup_sources).2.2 _
    (List.mem_map_of_mem ((h.showsLink_iff link).mp hlink)) _ (List.mem_map_of_mem hchain)

/-- No link leaves the last term of a chain. -/
theorem outgoing_last {chain : Chain} (hchain : chain ∈ chains) :
    view.outgoing chain.last = [] := by
  refine List.eq_nil_iff_forall_not_mem.mpr fun link hlink => ?_
  obtain ⟨hshown, hsource⟩ := mem_outgoing.mp hlink
  exact h.source_ne_last hchain hshown hsource

/-- At most one shown link leaves a term. -/
theorem outgoing_eq_singleton (hlink : view.showsLink link = true) :
    view.outgoing link.source = [link] := by
  apply eq_singleton_of_mem (view.nodup_links.filter _)
  · exact mem_outgoing.mpr ⟨hlink, rfl⟩
  · intro other hother
    obtain ⟨hother, hsource⟩ := mem_outgoing.mp hother
    exact h.eq_of_source_eq hother hlink hsource

/-- At most one shown link enters a term. -/
theorem incoming_eq_singleton (hlink : view.showsLink link = true) :
    view.incoming link.target = [link] := by
  apply eq_singleton_of_mem (view.nodup_links.filter _)
  · exact mem_incoming.mpr ⟨hlink, rfl⟩
  · intro other hother
    obtain ⟨hother, htarget⟩ := mem_incoming.mp hother
    exact h.eq_of_target_eq hother hlink htarget

/-- Following the links of a chain gives them all, over terms that were not seen before. -/
theorem follow_eq {source target : TermId} {links : List Link} {seen : List TermId} {bound : Nat}
    (hjoined : Link.Joined source links target) (hshown : ∀ l ∈ links, view.showsLink l = true)
    (hlast : view.outgoing target = []) (hnodup : (links.map Link.target).Nodup)
    (hseen : ∀ l ∈ links, l.target ∉ seen) (hbound : links.length ≤ bound) :
    view.follow bound seen source = (links, (links.map Link.target).reverse ++ seen) := by
  induction links generalizing source seen bound with
  | nil =>
    cases hjoined
    cases bound <;> simp [follow, hlast]
  | cons link links ih =>
    obtain ⟨rfl, hjoined⟩ := hjoined
    obtain ⟨hlink, hshown⟩ := List.forall_mem_cons.mp hshown
    obtain ⟨hfresh, hseen⟩ := List.forall_mem_cons.mp hseen
    obtain ⟨hnew, hnodup⟩ := List.nodup_cons.mp hnodup
    cases bound with
    | zero => simp at hbound
    | succ bound =>
      have hseen' : ∀ l ∈ links, l.target ∉ link.target :: seen := by
        intro l hl
        refine List.not_mem_cons_of_ne_of_not_mem ?_ (hseen l hl)
        intro heq
        exact hnew (heq ▸ List.mem_map_of_mem hl)
      have hrest : view.follow bound (link.target :: seen) link.target =
          (links, (links.map Link.target).reverse ++ link.target :: seen) :=
        ih hjoined hshown hnodup hseen' (by simpa using hbound)
      rw [follow, h.outgoing_eq_singleton hlink]
      simp [hfresh, hrest]

/-- Following the links from the head of a chain gives the chain, if none of it was seen before. -/
theorem follow_head {chain : Chain} {seen : List TermId} (hchain : chain ∈ chains)
    (hseen : ∀ id ∈ chain.nodes, id ∉ seen) :
    view.follow view.links.length (chain.head :: seen) chain.head =
      (chain.links, chain.nodes.reverse ++ seen) := by
  have hnodes : chain.nodes.Nodup := (List.nodup_flatMap.mp h.nodup).1 chain hchain
  obtain ⟨hhead, htargets⟩ := List.nodup_cons.mp hnodes
  have hlinks : ∀ l ∈ chain.links, view.showsLink l = true := fun l hl =>
    (h.showsLink_iff l).mpr (List.mem_flatMap_of_mem hchain hl)
  have hbound : chain.links.length ≤ view.links.length :=
    (List.Nodup.of_map _ htargets).length_le_of_subset fun l hl => mem_links.mpr (hlinks l hl)
  have hfresh : ∀ l ∈ chain.links, l.target ∉ chain.head :: seen := by
    intro l hl
    have htarget : l.target ∈ chain.links.map Link.target := List.mem_map_of_mem hl
    refine List.not_mem_cons_of_ne_of_not_mem ?_ (hseen _ (List.mem_cons_of_mem _ htarget))
    intro heq
    exact hhead (heq ▸ htarget)
  rw [h.follow_eq (h.joined chain hchain) hlinks (h.outgoing_last hchain) htargets hfresh hbound]
  simp [Chain.nodes]

/-- Collecting the chains from the heads gives the chains back. -/
theorem chainsFrom_eq {rest : List Chain} {seen : List TermId} (hrest : rest ⊆ chains)
    (hnodup : (rest.flatMap Chain.nodes).Nodup)
    (hseen : ∀ id ∈ rest.flatMap Chain.nodes, id ∉ seen) :
    view.chainsFrom seen (rest.map Chain.head) = rest := by
  induction rest generalizing seen with
  | nil => rfl
  | cons chain rest ih =>
    obtain ⟨hchain, hsub⟩ := List.cons_subset.mp hrest
    rw [List.flatMap_cons] at hnodup hseen
    obtain ⟨-, hlater, hdisjoint⟩ := List.nodup_append.mp hnodup
    obtain ⟨hnodes, hothers⟩ := List.forall_mem_append.mp hseen
    have hseen' : ∀ id ∈ rest.flatMap Chain.nodes, id ∉ chain.nodes.reverse ++ seen := by
      intro id hid hmem
      rcases List.mem_append.mp hmem with hmem | hmem
      · exact hdisjoint id (List.mem_reverse.mp hmem) id hid rfl
      · exact hothers id hid hmem
    rw [List.map_cons, chainsFrom, if_neg (hnodes _ List.mem_cons_self),
      h.follow_head hchain hnodes]
    simp [ih hsub hlater hseen']

/-- The chains that a view displays are those of its layout. -/
theorem chains_eq : view.chains = chains := by
  rw [View.chains, h.heads]
  exact h.chainsFrom_eq (List.Subset.refl _) h.nodup (by simp)

end LaidOut

/-! ## Heads -/

namespace Grown

/-- The root of a grown view is that of the graph and is shown. -/
theorem shows_root (h : Grown index view) :
    view.root = index.root ∧ view.shows index.root = true := by
  induction h with
  | start => exact ⟨rfl, shows_start.mpr (.inl rfl)⟩
  | record _ _ ih => exact ⟨ih.1, shows_record.mpr (.inr ih.2)⟩

/-- Whatever a recorded change added is shown. -/
theorem shows_of_mem_history (h : Grown index view) (hchange : change ∈ view.history)
    (hid : id ∈ change.nodesAdded) : view.shows id = true := by
  induction h with
  | start => cases hchange
  | record _ _ ih =>
    rcases List.mem_cons.mp hchange with rfl | hchange
    · exact shows_record.mpr (.inl hid)
    · exact shows_record.mpr (.inr (ih hchange))

end Grown

/-- A change leaves no head without its place: whether a link enters a shown term stays the same. -/
theorem Admits.incoming_record_eq_nil_iff (hchange : view.Admits index change)
    (hid : view.shows id = true) :
    (view.record change).incoming id = [] ↔ view.incoming id = [] := by
  simp only [List.eq_nil_iff_forall_not_mem, mem_incoming, showsLink_record]
  cases hchange with
  | @split node replacing _ hhidden hlink =>
    have hne : node ≠ id := by
      rintro rfl
      simp [hhidden] at hid
    simp only [linksAdded_splitting, linkRemoved_splitting, List.mem_cons, List.not_mem_nil,
      or_false]
    grind [Link.between]
  | @pair subterm value _ _ _ _ hhidden =>
    have hne : value ≠ id := by
      rintro rfl
      simp [hhidden] at hid
    simp only [linksAdded_pairing, linkRemoved_pairing, List.mem_cons, List.not_mem_nil, or_false]
    grind [Link.detached]

/-- A change starts no link at a term where none started: whether a link leaves a shown term stays
the same. -/
theorem Admits.outgoing_record_eq_nil_iff (hchange : view.Admits index change)
    (hid : view.shows id = true) :
    (view.record change).outgoing id = [] ↔ view.outgoing id = [] := by
  simp only [List.eq_nil_iff_forall_not_mem, mem_outgoing, showsLink_record]
  cases hchange with
  | @split node replacing _ hhidden hlink =>
    have hne : node ≠ id := by
      rintro rfl
      simp [hhidden] at hid
    simp only [linksAdded_splitting, linkRemoved_splitting, List.mem_cons, List.not_mem_nil,
      or_false]
    grind [Link.between]
  | @pair subterm value _ _ _ hhidden _ =>
    have hne : subterm ≠ id := by
      rintro rfl
      simp [hhidden] at hid
    simp only [linksAdded_pairing, linkRemoved_pairing, List.mem_cons, List.not_mem_nil, or_false]
    grind [Link.detached]

namespace Grown

/-- A change adds as heads those of its terms that no link enters. -/
theorem heads_record (h : Grown index view) (hchange : view.Admits index change) :
    (view.record change).heads =
      view.heads ++ change.nodesAdded.filter fun id =>
        ((view.record change).incoming id).isEmpty := by
  obtain ⟨hroot, hshown⟩ := h.shows_root
  have hroot' : (view.record change).root = view.root := rfl
  have hshown' : (view.record change).shows index.root = true :=
    shows_record.mpr (.inr hshown)
  have hadded : (view.record change).history.reverse.flatMap Change.nodesAdded =
      view.history.reverse.flatMap Change.nodesAdded ++ change.nodesAdded := by
    simp [View.record]
  simp only [View.heads, hadded, List.filter_append, hroot', hroot, hshown, hshown', if_true,
    List.append_assoc]
  congr 2
  · apply List.filter_congr
    intro id hid
    obtain ⟨earlier, hearlier, hid⟩ := List.mem_flatMap.mp hid
    have hold := h.shows_of_mem_history (List.mem_reverse.mp hearlier) hid
    have hnew : (view.record change).shows id = true := shows_record.mpr (.inr hold)
    simp only [hold, hnew, Bool.true_and]
    congr 1
    rw [Bool.eq_iff_iff, List.isEmpty_iff, List.isEmpty_iff,
      hchange.incoming_record_eq_nil_iff hold]
  · apply List.filter_congr
    intro id hid
    have hne : id ≠ index.root := by
      rintro rfl
      simp [hchange.hidden hid] at hshown
    simp [hne, shows_record.mpr (.inl hid)]

/-- A split adds no head. -/
theorem heads_split {node : TermId} {replacing : Link} (h : Grown index view)
    (hchange : view.Admits index (splitting index node replacing)) :
    (view.record (splitting index node replacing)).heads = view.heads := by
  have hentered : Link.between index replacing.source node ∈
      (view.record (splitting index node replacing)).incoming node :=
    mem_incoming.mpr ⟨showsLink_record.mpr (.inl (by simp)), rfl⟩
  rw [h.heads_record hchange]
  simp [List.ne_nil_of_mem hentered]

/-- No link enters the subterm of a new pair. -/
theorem incoming_pair_eq_nil {subterm value : TermId} (h : Grown index view) (hne : subterm ≠ value)
    (hchange : view.Admits index (pairing index subterm value)) :
    (view.record (pairing index subterm value)).incoming subterm = [] := by
  refine List.eq_nil_iff_forall_not_mem.mpr fun link hlink => ?_
  obtain ⟨hlink, htarget⟩ := mem_incoming.mp hlink
  rcases showsLink_record.mp hlink with hadded | ⟨-, hshown⟩
  · rw [List.mem_singleton.mp hadded] at htarget
    exact hne htarget.symm
  · have hhidden : view.shows subterm = false := hchange.hidden (by simp)
    rw [← htarget, (h.shows_ends hshown).2] at hhidden
    cases hhidden

/-- No link leaves the value of a new pair. -/
theorem outgoing_pair_eq_nil {subterm value : TermId} (h : Grown index view) (hne : subterm ≠ value)
    (hchange : view.Admits index (pairing index subterm value)) :
    (view.record (pairing index subterm value)).outgoing value = [] := by
  refine List.eq_nil_iff_forall_not_mem.mpr fun link hlink => ?_
  obtain ⟨hlink, hsource⟩ := mem_outgoing.mp hlink
  rcases showsLink_record.mp hlink with hadded | ⟨-, hshown⟩
  · rw [List.mem_singleton.mp hadded] at hsource
    exact hne hsource
  · have hhidden : view.shows value = false := hchange.hidden (by simp)
    rw [← hsource, (h.shows_ends hshown).1] at hhidden
    cases hhidden

/-- A pair adds its subterm as a head. -/
theorem heads_pair {subterm value : TermId} (h : Grown index view) (hne : subterm ≠ value)
    (hchange : view.Admits index (pairing index subterm value)) :
    (view.record (pairing index subterm value)).heads = view.heads ++ [subterm] := by
  have hentered : Link.detached index subterm value ∈
      (view.record (pairing index subterm value)).incoming value :=
    mem_incoming.mpr ⟨showsLink_record.mpr (.inl (by simp)), rfl⟩
  rw [h.heads_record hchange]
  simp [List.ne_nil_of_mem hentered, h.incoming_pair_eq_nil hne hchange]

end Grown

/-! ## Layouts of grown views -/

namespace LaidOut

variable {chains : List Chain}

/-- A fresh view has one chain, from the root to the last term. -/
theorem start (index : Index) :
    (View.start index).LaidOut
      [⟨index.root, if index.ending.term = index.root then []
        else [.between index index.root index.ending.term]⟩] := by
  have hheads : (View.start index).heads = [index.root] := by
    have hshown : (View.start index).shows (View.start index).root = true :=
      shows_start.mpr (.inl rfl)
    rw [View.heads, if_pos hshown]
    rfl
  by_cases hroot : index.ending.term = index.root
  · constructor
    · simp [hroot, Chain.nodes]
    · simp [shows_start, hroot, Chain.nodes]
    · simp [showsLink_start, hroot]
    · rw [if_pos hroot]
      exact List.forall_mem_singleton.mpr (Chain.joined_of_joined index.root rfl)
    · simp [hheads]
  · constructor
    · simp [hroot, Chain.nodes, Link.between, Ne.symm hroot]
    · simp [shows_start, hroot, Chain.nodes, Link.between]
    · simp [showsLink_start, hroot]
    · rw [if_neg hroot]
      exact List.forall_mem_singleton.mpr (Chain.joined_of_joined index.ending.term ⟨rfl, rfl⟩)
    · simp [hheads]

/-- A split puts its term into the chain with the link that it replaces, between the ends of this
link, and leaves the other chains alone. -/
theorem split (h : view.LaidOut chains) (hview : Grown index view) {node : TermId}
    {replacing : Link} (hchange : view.Admits index (splitting index node replacing)) :
    ∃ before chain after earlier later, chains = before ++ chain :: after ∧
      chain.links = earlier ++ replacing :: later ∧
      (view.record (splitting index node replacing)).LaidOut
        (before ++ chain.splice index earlier replacing later node :: after) := by
  have hreplacing := (h.showsLink_iff replacing).mp (hchange.showsLink_of_linkRemoved rfl)
  obtain ⟨chain, hchain, hmem⟩ := List.mem_flatMap.mp hreplacing
  obtain ⟨before, after, rfl⟩ := List.append_of_mem hchain
  obtain ⟨earlier, later, hlinks⟩ := List.append_of_mem hmem
  refine ⟨before, chain, after, earlier, later, rfl, hlinks, ?_⟩
  have hhidden : view.shows node = false := hchange.hidden (by simp)
  have hnodes := @Chain.nodes_splice_perm chain index before after _ _ _ hlinks node
  -- no other link equals the one replaced, so that removing it leaves the rest of the links
  have honce : replacing ∉ before.flatMap Chain.links ++ earlier ++
      (later ++ after.flatMap Chain.links) := by
    have hnodup := h.nodup_links
    have hall : (before ++ chain :: after).flatMap Chain.links =
        before.flatMap Chain.links ++ earlier ++
          replacing :: (later ++ after.flatMap Chain.links) := by
      simp [hlinks]
    rw [hall, List.nodup_middle, List.nodup_cons] at hnodup
    exact hnodup.1
  constructor
  · rw [hnodes.nodup_iff, List.nodup_cons]
    refine ⟨fun hnode => ?_, h.nodup⟩
    rw [(h.shows_iff node).mpr hnode] at hhidden
    cases hhidden
  · intro id
    rw [shows_record, hnodes.mem_iff, List.mem_cons, h.shows_iff, nodesAdded_splitting,
      List.mem_singleton]
  · intro link
    rw [showsLink_record, h.showsLink_iff]
    simp only [linksAdded_splitting, linkRemoved_splitting, List.flatMap_append,
      List.flatMap_cons, Chain.splice, hlinks, List.mem_append, List.mem_cons] at honce ⊢
    grind
  · intro other hother
    rcases List.mem_append.mp hother with hbefore | hother
    · exact h.joined other (List.mem_append_left _ hbefore)
    rcases List.mem_cons.mp hother with rfl | hafter
    · exact ((h.joined chain hchain).splice hlinks node).1
    · exact h.joined other (List.mem_append_right _ (List.mem_cons_of_mem _ hafter))
  · rw [hview.heads_split hchange, h.heads]
    simp [Chain.splice]

/-- A pair adds a chain of one link at the end. -/
theorem pair (h : view.LaidOut chains) (hview : Grown index view) {subterm value : TermId}
    (hne : subterm ≠ value) (hchange : view.Admits index (pairing index subterm value)) :
    (view.record (pairing index subterm value)).LaidOut
      (chains ++ [⟨subterm, [.detached index subterm value]⟩]) := by
  have hhidden : ∀ id ∈ [subterm, value], view.shows id = false := fun _ => hchange.hidden
  constructor
  · rw [List.flatMap_append, List.nodup_append]
    refine ⟨h.nodup, by simpa [Chain.nodes, Link.detached] using hne, ?_⟩
    rintro id hid _ hnew rfl
    have hnew : id ∈ [subterm, value] := by simpa [Chain.nodes, Link.detached] using hnew
    rw [← h.shows_iff, hhidden id hnew] at hid
    cases hid
  · intro id
    rw [shows_record, h.shows_iff, List.flatMap_append, List.mem_append, or_comm]
    simp [Chain.nodes, Link.detached]
  · intro link
    rw [showsLink_record, h.showsLink_iff, List.flatMap_append, List.mem_append, or_comm]
    simp
  · intro chain hchain
    rcases List.mem_append.mp hchain with hchain | hchain
    · exact h.joined chain hchain
    · obtain rfl := List.mem_singleton.mp hchain
      exact Chain.joined_of_joined value ⟨rfl, rfl⟩
  · rw [hview.heads_pair hne hchange, h.heads]
    simp

end LaidOut

/-- The chains of a grown view are its layout. -/
theorem Grown.laidOut (h : Grown index view) : view.LaidOut view.chains := by
  suffices hsome : ∃ chains, view.LaidOut chains by
    obtain ⟨chains, hchains⟩ := hsome
    rw [hchains.chains_eq]
    exact hchains
  induction h with
  | start => exact ⟨_, .start index⟩
  | record hview hchange ih =>
    obtain ⟨chains, hchains⟩ := ih
    cases hchange with
    | split hknown hhidden hlink =>
      obtain ⟨_, _, _, _, _, _, _, hsplit⟩ := hchains.split hview (.split hknown hhidden hlink)
      exact ⟨_, hsplit⟩
    | pair hne hsubterm hvalue hhidden hhidden' =>
      exact ⟨_, hchains.pair hview hne (.pair hne hsubterm hvalue hhidden hhidden')⟩

/-- The first chain of a grown view starts at the root. -/
theorem Grown.chains_eq_cons (h : Grown index view) :
    ∃ first detached, view.chains = first :: detached ∧ first.head = index.root := by
  obtain ⟨hroot, hshown⟩ := h.shows_root
  have hheads := h.laidOut.heads
  rw [View.heads, hroot, if_pos hshown] at hheads
  obtain ⟨first, detached, hchains, hhead, -⟩ := List.map_eq_cons_iff.mp hheads.symm
  exact ⟨first, detached, hchains, hhead⟩

/-- A grown view has a chain. -/
theorem Grown.chains_ne_nil (h : Grown index view) : view.chains ≠ [] := by
  obtain ⟨first, detached, hchains, -⟩ := h.chains_eq_cons
  rw [hchains]
  exact List.cons_ne_nil _ _

/-- The chain of a fresh view. -/
theorem chains_start (index : Index) :
    (View.start index).chains =
      [⟨index.root, if index.ending.term = index.root then []
        else [.between index index.root index.ending.term]⟩] :=
  (LaidOut.start index).chains_eq

/-- What a split does to the chains. -/
theorem Grown.chains_split {node : TermId} {replacing : Link} (h : Grown index view)
    (hchange : view.Admits index (splitting index node replacing)) :
    ∃ before chain after earlier later, view.chains = before ++ chain :: after ∧
      chain.links = earlier ++ replacing :: later ∧
      (view.record (splitting index node replacing)).chains =
        before ++ chain.splice index earlier replacing later node :: after := by
  obtain ⟨before, chain, after, earlier, later, hchains, hlinks, hsplit⟩ :=
    h.laidOut.split h hchange
  exact ⟨before, chain, after, earlier, later, hchains, hlinks, hsplit.chains_eq⟩

/-- What a pair does to the chains. -/
theorem Grown.chains_pair {subterm value : TermId} (h : Grown index view) (hne : subterm ≠ value)
    (hchange : view.Admits index (pairing index subterm value)) :
    (view.record (pairing index subterm value)).chains =
      view.chains ++ [⟨subterm, [.detached index subterm value]⟩] :=
  (h.laidOut.pair h hne hchange).chains_eq

end View

end ReductionStepper
