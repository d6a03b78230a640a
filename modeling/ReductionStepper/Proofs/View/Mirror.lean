import ReductionStepper.Proofs.Graph.Mirror
import ReductionStepper.Proofs.View.Forest

/-!
# Mirrored views

A view of a graph and the renamed view of a mirrored graph change in the same way. The sets of a
view are sorted by id, and a renaming sorts them anew; that the renamed view nevertheless offers the
same links and the same chains is due to its links never branching and never meeting, so that there
is no first one of several to take.
-/

namespace ReductionStepper

/-! ## Renamed parts of a view -/

/-- The link between the renamed terms. -/
def Link.rename (f : TermId → TermId) (link : Link) : Link :=
  { link with source := f link.source, target := f link.target }

/-- The change that adds and removes what is renamed. -/
def Change.rename (f : TermId → TermId) (change : Change) : Change :=
  { nodesAdded := change.nodesAdded.map f
    linksAdded := change.linksAdded.map (Link.rename f)
    linkRemoved := change.linkRemoved.map (Link.rename f) }

/-- The picture of the renamed terms and links. -/
def Picture.rename (f : TermId → TermId) (picture : Picture) : Picture :=
  { nodes := .ofList (picture.nodes.toList.map f)
    links := .ofList (picture.links.toList.map (Link.rename f)) }

/-- The view of what is renamed, history included. -/
def View.rename (f : TermId → TermId) (view : View) : View :=
  { root := f view.root
    shown := view.shown.rename f
    initial := view.initial.rename f
    history := view.history.map (Change.rename f) }

/-- The chain of the renamed terms. -/
def Chain.rename (f : TermId → TermId) (chain : Chain) : Chain :=
  ⟨f chain.head, chain.links.map (Link.rename f)⟩

/-- The error about the renamed terms. -/
def ViewError.rename (f : TermId → TermId) : ViewError → ViewError
  | .unknownTerm id => .unknownTerm (f id)
  | .alreadyVisible id => .alreadyVisible (f id)
  | .missingLink source target => .missingLink (f source) (f target)
  | .degeneratePair id => .degeneratePair (f id)

section Rename

variable (f : TermId → TermId)

/-- The source of a renamed link. -/
@[simp] theorem Link.source_rename (link : Link) : (link.rename f).source = f link.source := rfl

/-- The target of a renamed link. -/
@[simp] theorem Link.target_rename (link : Link) : (link.rename f).target = f link.target := rfl

/-- The terms that a renamed change adds. -/
@[simp] theorem Change.nodesAdded_rename (change : Change) :
    (change.rename f).nodesAdded = change.nodesAdded.map f := rfl

/-- The links that a renamed change adds. -/
@[simp] theorem Change.linksAdded_rename (change : Change) :
    (change.rename f).linksAdded = change.linksAdded.map (Link.rename f) := rfl

/-- The link that a renamed change removes. -/
@[simp] theorem Change.linkRemoved_rename (change : Change) :
    (change.rename f).linkRemoved = change.linkRemoved.map (Link.rename f) := rfl

/-- The terms of a renamed chain. -/
@[simp] theorem Chain.nodes_rename (chain : Chain) :
    (chain.rename f).nodes = chain.nodes.map f := by
  simp [Chain.nodes, Chain.rename]

/-- The links of a renamed chain. -/
@[simp] theorem Chain.links_rename (chain : Chain) :
    (chain.rename f).links = chain.links.map (Link.rename f) := rfl

private theorem Picture.mem_nodes_rename {picture : Picture} {id : TermId} :
    id ∈ (picture.rename f).nodes ↔ ∃ other ∈ picture.nodes, f other = id := by
  simp [Picture.rename]

private theorem Picture.mem_links_rename {picture : Picture} {link : Link} :
    link ∈ (picture.rename f).links ↔ ∃ other ∈ picture.links, other.rename f = link := by
  simp [Picture.rename]

/-! ### Nothing renamed -/

/-- A link that keeps its names stays as it is. -/
@[simp] theorem Link.rename_id : Link.rename id = id := rfl

/-- A change that keeps its names stays as it is. -/
@[simp] theorem Change.rename_id : Change.rename id = id := by
  funext change
  simp [Change.rename]

/-- A picture that keeps its names stays as it is. -/
@[simp] theorem Picture.rename_id (picture : Picture) : picture.rename id = picture := by
  apply Picture.ext
  · intro id
    simp [Picture.mem_nodes_rename]
  · intro link
    simp [Picture.mem_links_rename]

/-- A view that keeps its names stays as it is. -/
@[simp] theorem View.rename_id (view : View) : view.rename id = view := by
  simp [View.rename]

/-- An error that keeps its names stays as it is. -/
@[simp] theorem ViewError.rename_id (error : ViewError) : error.rename id = error := by
  cases error <;> rfl

/-- A chain that keeps its names stays as it is. -/
@[simp] theorem Chain.rename_id : Chain.rename id = id := by
  funext chain
  simp [Chain.rename]

end Rename

/-- A renamed chain is joined where the chain is. -/
theorem Link.Joined.rename {f : TermId → TermId} {source target : TermId} {links : List Link}
    (h : Link.Joined source links target) :
    Link.Joined (f source) (links.map (Link.rename f)) (f target) := by
  induction links generalizing source with
  | nil => exact congrArg f h
  | cons link links ih => exact ⟨congrArg f h.1, ih h.2⟩

namespace View

variable {f : TermId → TermId} {graph image : Graph} {view : View} {change : Change}
  {id node subterm value : TermId} {link replacing : Link}

/-! ## What a renamed view shows -/

private theorem shows_rename_iff :
    (view.rename f).shows id = true ↔ ∃ other, view.shows other = true ∧ f other = id := by
  simp only [shows, Std.ExtTreeSet.contains_iff_mem]
  exact Picture.mem_nodes_rename f

private theorem showsLink_rename_iff :
    (view.rename f).showsLink link = true ↔
      ∃ other, view.showsLink other = true ∧ other.rename f = link := by
  simp only [showsLink, Std.ExtTreeSet.contains_iff_mem]
  exact Picture.mem_links_rename f

/-- A renamed view shows a renamed term exactly if the view shows the term, as long as the renaming
does not confuse it with a shown one. -/
theorem shows_rename (hid : ∀ other, view.shows other = true → f id = f other → id = other) :
    (view.rename f).shows (f id) = view.shows id := by
  rw [Bool.eq_iff_iff, shows_rename_iff]
  constructor
  · rintro ⟨other, hother, heq⟩
    rwa [hid other hother heq.symm]
  · intro hshown
    exact ⟨id, hshown, rfl⟩

/-- The graph knows both ends of a shown link. -/
theorem Grown.contains_ends (hview : Grown (Index.ofGraph graph) view)
    (hlink : view.showsLink link = true) :
    (Index.ofGraph graph).contains link.source = true ∧
      (Index.ofGraph graph).contains link.target = true :=
  (hview.shows_ends hlink).imp hview.known hview.known

end View

namespace Graph.Mirrors

open View

variable {f : TermId → TermId} {graph image : Graph} (h : graph.Mirrors f image) {view : View}
  {change : Change} {id node subterm value : TermId} {link other replacing : Link}

include h

/-! ## Links -/

private theorem between_eq {source target : TermId}
    (hsource : (Index.ofGraph graph).contains source = true)
    (htarget : (Index.ofGraph graph).contains target = true) :
    Link.between (Index.ofGraph image) (f source) (f target) =
      (Link.between (Index.ofGraph graph) source target).rename f := by
  rw [Link.between, h.hasStep_eq source target hsource htarget]
  rfl

private theorem detached_eq {source target : TermId}
    (hsource : (Index.ofGraph graph).contains source = true)
    (htarget : (Index.ofGraph graph).contains target = true) :
    Link.detached (Index.ofGraph image) (f source) (f target) =
      (Link.detached (Index.ofGraph graph) source target).rename f := by
  rw [Link.detached, h.hasEdge_eq source target hsource htarget]
  rfl

/-- The renaming does not confuse links between terms of the graph. -/
theorem eq_of_rename_eq
    (hlink : (Index.ofGraph graph).contains link.source = true ∧
      (Index.ofGraph graph).contains link.target = true)
    (hother : (Index.ofGraph graph).contains other.source = true ∧
      (Index.ofGraph graph).contains other.target = true)
    (heq : link.rename f = other.rename f) : link = other := by
  obtain ⟨source, target, weight⟩ := link
  obtain ⟨source', target', weight'⟩ := other
  obtain ⟨hsource, htarget, rfl⟩ := Link.mk.inj heq
  obtain rfl := (h.eq_iff hlink.1 hother.1).mp hsource
  obtain rfl := (h.eq_iff hlink.2 hother.2).mp htarget
  rfl

section Grown

variable (hview : Grown (Index.ofGraph graph) view)

include hview

/-- A renamed view shows a renamed term of the graph exactly if the view shows the term. -/
theorem shows_eq (hid : (Index.ofGraph graph).contains id = true) :
    (view.rename f).shows (f id) = view.shows id :=
  shows_rename fun _ hother => (h.eq_iff hid (hview.known hother)).mp

/-- A renamed view shows a renamed link of the graph exactly if the view shows the link. -/
theorem showsLink_eq (hlink : (Index.ofGraph graph).contains link.source = true ∧
      (Index.ofGraph graph).contains link.target = true) :
    (view.rename f).showsLink (link.rename f) = view.showsLink link := by
  rw [Bool.eq_iff_iff, showsLink_rename_iff]
  constructor
  · rintro ⟨other, hother, heq⟩
    rwa [← h.eq_of_rename_eq (hview.contains_ends hother) hlink heq]
  · intro hshown
    exact ⟨link, hshown, rfl⟩

/-! ## Changes -/

/-- Making a change and renaming the view is renaming both and then making the change. -/
theorem rename_record (hchange : view.Admits (Index.ofGraph graph) change) :
    (view.record change).rename f = (view.rename f).record (change.rename f) := by
  have hshown : (view.shown.apply change).rename f =
      (view.shown.rename f).apply (change.rename f) := by
    apply Picture.ext
    · intro id
      simp only [Picture.mem_nodes_rename, Picture.mem_nodes_apply, Change.nodesAdded_rename,
        List.mem_map]
      grind
    · intro link
      simp only [Picture.mem_links_rename, Picture.mem_links_apply, Change.linksAdded_rename,
        Change.linkRemoved_rename, List.mem_map, ne_eq, Option.map_eq_some_iff]
      -- only the link that the change removes gets the new name of that link
      have hremoved : ∀ removed, change.linkRemoved = some removed → ∀ other ∈ view.shown.links,
          removed.rename f = other.rename f → removed = other := by
        intro removed hremoved other hother
        exact h.eq_of_rename_eq
          (hview.contains_ends (hchange.showsLink_of_linkRemoved hremoved))
          (hview.contains_ends (Std.ExtTreeSet.contains_iff_mem.mpr hother))
      grind
  rw [View.record, View.rename, hshown]
  rfl

/-- A split of the image is the image of the split. -/
theorem rename_splitting (hnode : (Index.ofGraph graph).contains node = true)
    (hlink : view.showsLink replacing = true) :
    (splitting (Index.ofGraph graph) node replacing).rename f =
      splitting (Index.ofGraph image) (f node) (replacing.rename f) := by
  obtain ⟨hsource, htarget⟩ := hview.contains_ends hlink
  simp only [splitting, Link.source_rename, Link.target_rename, h.between_eq hsource hnode,
    h.between_eq hnode htarget]
  rfl

omit hview in
/-- A pair of the image is the image of the pair. -/
theorem rename_pairing (hsubterm : (Index.ofGraph graph).contains subterm = true)
    (hvalue : (Index.ofGraph graph).contains value = true) :
    (pairing (Index.ofGraph graph) subterm value).rename f =
      pairing (Index.ofGraph image) (f subterm) (f value) := by
  simp only [pairing, h.detached_eq hsubterm hvalue]
  rfl

/-- What a view admits, the renamed view admits renamed. -/
theorem admits (hchange : view.Admits (Index.ofGraph graph) change) :
    (view.rename f).Admits (Index.ofGraph image) (change.rename f) := by
  cases hchange with
  | split hknown hhidden hlink =>
    rw [h.rename_splitting hview hknown hlink]
    refine .split (h.contains hknown) ?_ (showsLink_rename_iff.mpr ⟨_, hlink, rfl⟩)
    rwa [h.shows_eq hview hknown]
  | pair hne hsubterm hvalue hhidden hhidden' =>
    rw [h.rename_pairing hsubterm hvalue]
    refine .pair (fun heq => hne ((h.eq_iff hsubterm hvalue).mp heq)) (h.contains hsubterm)
      (h.contains hvalue) ?_ ?_
    · rwa [h.shows_eq hview hsubterm]
    · rwa [h.shows_eq hview hvalue]

end Grown

/-- A fresh view of the graph becomes a fresh view of the image. -/
theorem rename_start :
    (View.start (Index.ofGraph graph)).rename f = View.start (Index.ofGraph image) := by
  have hroot : (Index.ofGraph image).root = f (Index.ofGraph graph).root := h.root_eq
  have hending : (Index.ofGraph image).ending.term = f (Index.ofGraph graph).ending.term := by
    rw [Index.ending, Index.ofGraph, h.ending_eq, Ending.term_rename]
    rfl
  have hsame : (Index.ofGraph image).ending.term = (Index.ofGraph image).root ↔
      (Index.ofGraph graph).ending.term = (Index.ofGraph graph).root := by
    rw [hroot, hending]
    exact h.eq_iff (Index.contains_ending graph) (Index.contains_root graph)
  have hpicture : (Picture.start (Index.ofGraph graph)).rename f =
      Picture.start (Index.ofGraph image) := by
    apply Picture.ext
    · intro id
      have himage := @shows_start (Index.ofGraph image) id
      have hgraph := fun id => @shows_start (Index.ofGraph graph) id
      simp only [shows, View.start, Std.ExtTreeSet.contains_iff_mem] at himage hgraph
      rw [Picture.mem_nodes_rename, himage, hroot, hending]
      simp only [hgraph]
      grind
    · intro link
      have himage := @showsLink_start (Index.ofGraph image) link
      have hgraph := fun link => @showsLink_start (Index.ofGraph graph) link
      simp only [showsLink, View.start, Std.ExtTreeSet.contains_iff_mem] at himage hgraph
      rw [Picture.mem_links_rename, himage, ne_eq, hsame, hroot, hending,
        h.between_eq (Index.contains_root graph) (Index.contains_ending graph)]
      simp only [hgraph]
      grind
  simp only [View.rename, View.start, hpicture, hroot, List.map_nil]

/-- What grows from the start of the graph grows, renamed, from the start of the image. -/
theorem grown (hview : Grown (Index.ofGraph graph) view) :
    Grown (Index.ofGraph image) (view.rename f) := by
  induction hview with
  | start =>
    rw [h.rename_start]
    exact .start
  | record hview hchange ih =>
    rw [h.rename_record hview hchange]
    exact ih.record (h.admits hview hchange)

section Grown

variable (hview : Grown (Index.ofGraph graph) view)

include hview

/-- Undoing in a renamed view takes back the renamed change. -/
theorem undo?_eq :
    (view.rename f).undo? =
      view.undo?.map fun made => (made.1.rename f, made.2.rename f) := by
  cases hundo : view.undo? with
  | none =>
    rw [undo?] at hundo
    split at hundo
    · next hnone => simp [undo?, View.rename, hnone]
    · cases hundo
  | some made =>
    obtain ⟨change, earlier⟩ := made
    obtain ⟨hearlier, hchange, rfl⟩ := hview.of_undo? hundo
    rw [h.rename_record hearlier hchange]
    exact (h.grown hearlier).undo?_record (h.admits hearlier hchange)

/-! ## Chains -/

/-- The only link that leaves a renamed term is the renamed only link that leaves the term. -/
theorem soleOutgoing?_eq (hid : (Index.ofGraph graph).contains id = true) :
    (view.rename f).soleOutgoing? (f id) = (view.soleOutgoing? id).map (Link.rename f) := by
  apply Option.ext
  intro link
  rw [(h.grown hview).laidOut.soleOutgoing?_eq_some_iff, Option.map_eq_some_iff,
    showsLink_rename_iff]
  simp only [hview.laidOut.soleOutgoing?_eq_some_iff]
  constructor
  · rintro ⟨⟨other, hother, rfl⟩, hsource⟩
    exact ⟨other, ⟨hother, (h.eq_iff (hview.contains_ends hother).1 hid).mp hsource⟩, rfl⟩
  · rintro ⟨other, ⟨hother, rfl⟩, rfl⟩
    exact ⟨⟨other, hother, rfl⟩, rfl⟩

/-- The only link that enters a renamed term is the renamed only link that enters the term. -/
theorem soleIncoming?_eq (hid : (Index.ofGraph graph).contains id = true) :
    (view.rename f).soleIncoming? (f id) = (view.soleIncoming? id).map (Link.rename f) := by
  apply Option.ext
  intro link
  rw [(h.grown hview).laidOut.soleIncoming?_eq_some_iff, Option.map_eq_some_iff,
    showsLink_rename_iff]
  simp only [hview.laidOut.soleIncoming?_eq_some_iff]
  constructor
  · rintro ⟨⟨other, hother, rfl⟩, htarget⟩
    exact ⟨other, ⟨hother, (h.eq_iff (hview.contains_ends hother).2 hid).mp htarget⟩, rfl⟩
  · rintro ⟨other, ⟨hother, rfl⟩, rfl⟩
    exact ⟨⟨other, hother, rfl⟩, rfl⟩

/-- The chains of a renamed view start at the renamed heads. -/
theorem heads_eq : (view.rename f).heads = view.heads.map f := by
  induction hview with
  | start =>
    have hroot : (Index.ofGraph image).root = f (Index.ofGraph graph).root := h.root_eq
    rw [h.rename_start, (LaidOut.start _).heads, (LaidOut.start _).heads]
    simp [hroot]
  | @record view change hview hchange ih =>
    have himage := h.admits hview hchange
    rw [h.rename_record hview hchange]
    cases hchange with
    | split hknown hhidden hlink =>
      rw [h.rename_splitting hview hknown hlink] at himage ⊢
      rw [(h.grown hview).heads_split himage, ih, hview.heads_split (.split hknown hhidden hlink)]
    | pair hne hsubterm hvalue hhidden hhidden' =>
      have hne' := fun heq => hne ((h.eq_iff hsubterm hvalue).mp heq)
      rw [h.rename_pairing hsubterm hvalue] at himage ⊢
      rw [(h.grown hview).heads_pair hne' himage, ih,
        hview.heads_pair hne (.pair hne hsubterm hvalue hhidden hhidden'), List.map_append]
      rfl

/-- The chains of a renamed view are the renamed chains in the same order. -/
theorem chains_eq : (view.rename f).chains = view.chains.map (Chain.rename f) := by
  have hlaid := hview.laidOut
  have hnodes : (view.chains.map (Chain.rename f)).flatMap Chain.nodes =
      (view.chains.flatMap Chain.nodes).map f := by
    simp [List.flatMap_map, List.map_flatMap]
  have hlinks : (view.chains.map (Chain.rename f)).flatMap Chain.links =
      (view.chains.flatMap Chain.links).map (Link.rename f) := by
    simp [List.flatMap_map, List.map_flatMap]
  refine LaidOut.chains_eq ⟨?_, ?_, ?_, ?_, ?_⟩
  · rw [hnodes]
    refine hlaid.nodup.map_on fun a ha b hb => ?_
    exact (h.eq_iff (hview.known ((hlaid.shows_iff a).mpr ha))
      (hview.known ((hlaid.shows_iff b).mpr hb))).mp
  · intro id
    rw [hnodes, shows_rename_iff, List.mem_map]
    simp only [hlaid.shows_iff]
  · intro link
    rw [hlinks, showsLink_rename_iff, List.mem_map]
    simp only [hlaid.showsLink_iff]
  · intro chain hchain
    obtain ⟨other, hother, rfl⟩ := List.mem_map.mp hchain
    exact Chain.joined_of_joined _ (hlaid.joined other hother).rename
  · rw [h.heads_eq hview, hlaid.heads, List.map_map, List.map_map]
    rfl

end Grown

end Graph.Mirrors

end ReductionStepper
