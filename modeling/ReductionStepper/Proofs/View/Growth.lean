import ReductionStepper.Plan
import ReductionStepper.Proofs.Graph.Scan

/-!
# Growth of a view

A view changes by splits and pairs, which it records, and by undoing and resetting. What a view
admits is said once, in `Admits`; a view is `Grown` if recorded changes alone lead to it from the
start. Undoing and resetting never leave the grown views, so an invariant of every run needs to be
kept by `record` only.
-/

namespace ReductionStepper

namespace Picture

variable {picture : Picture} {change : Change} {id : TermId} {link : Link}

/-- Pictures with the same terms and the same links are the same. -/
theorem ext {a b : Picture} (hnodes : ∀ id, id ∈ a.nodes ↔ id ∈ b.nodes)
    (hlinks : ∀ link, link ∈ a.links ↔ link ∈ b.links) : a = b := by
  cases a
  cases b
  congr
  · exact Std.ExtTreeSet.ext_mem hnodes
  · exact Std.ExtTreeSet.ext_mem hlinks

private theorem mem_foldl_insert {α : Type} [Ord α] [Std.TransOrd α] [Std.LawfulEqOrd α]
    {set : Std.ExtTreeSet α} {added : List α} {a : α} :
    a ∈ added.foldl (·.insert ·) set ↔ a ∈ added ∨ a ∈ set := by
  induction added generalizing set with
  | nil => simp
  | cons b later ih =>
    rw [List.foldl_cons, ih, Std.ExtTreeSet.mem_insert, Std.LawfulEqCmp.compare_eq_iff_eq,
      List.mem_cons]
    grind

private theorem mem_foldl_erase {α : Type} [Ord α] [Std.TransOrd α] [Std.LawfulEqOrd α]
    {set : Std.ExtTreeSet α} {removed : List α} {a : α} :
    a ∈ removed.foldl (·.erase ·) set ↔ a ∉ removed ∧ a ∈ set := by
  induction removed generalizing set with
  | nil => simp
  | cons b later ih =>
    rw [List.foldl_cons, ih, Std.ExtTreeSet.mem_erase, ne_eq, Std.LawfulEqCmp.compare_eq_iff_eq,
      List.mem_cons]
    grind

/-- A change shows the terms that it adds beside those that were shown. -/
theorem mem_nodes_apply :
    id ∈ (picture.apply change).nodes ↔ id ∈ change.nodesAdded ∨ id ∈ picture.nodes :=
  mem_foldl_insert

/-- A change shows the links that it adds, and takes the one that it removes from those that were
shown. -/
theorem mem_links_apply :
    link ∈ (picture.apply change).links ↔
      link ∈ change.linksAdded ∨ change.linkRemoved ≠ some link ∧ link ∈ picture.links := by
  simp only [apply, mem_foldl_insert]
  cases change.linkRemoved with
  | none => simp
  | some removed => simp

private theorem mem_nodes_revert :
    id ∈ (picture.revert change).nodes ↔ id ∉ change.nodesAdded ∧ id ∈ picture.nodes :=
  mem_foldl_erase

private theorem mem_links_revert :
    link ∈ (picture.revert change).links ↔
      change.linkRemoved = some link ∨ link ∉ change.linksAdded ∧ link ∈ picture.links := by
  simp only [revert]
  cases change.linkRemoved with
  | none => simp [mem_foldl_erase]
  | some removed => simp [mem_foldl_erase]

/-- Reverting a change gives the picture back if all it added was new and what it removed was
there. -/
theorem revert_apply (hnodes : ∀ id ∈ change.nodesAdded, id ∉ picture.nodes)
    (hlinks : ∀ link ∈ change.linksAdded, link ∉ picture.links)
    (hremoved : ∀ link, change.linkRemoved = some link → link ∈ picture.links) :
    (picture.apply change).revert change = picture := by
  apply ext
  · intro id
    rw [mem_nodes_revert, mem_nodes_apply]
    grind
  · intro link
    rw [mem_links_revert, mem_links_apply]
    grind

end Picture

namespace View

section Changes

variable (index : Index) (node subterm value : TermId) (replacing : Link)

/-- A split adds one term. -/
@[simp] theorem nodesAdded_splitting : (splitting index node replacing).nodesAdded = [node] := rfl

/-- A split adds the two links beside its term. -/
@[simp] theorem linksAdded_splitting :
    (splitting index node replacing).linksAdded =
      [.between index replacing.source node, .between index node replacing.target] := rfl

/-- A split removes the link that it replaces. -/
@[simp] theorem linkRemoved_splitting :
    (splitting index node replacing).linkRemoved = some replacing := rfl

/-- A pair adds its two terms. -/
@[simp] theorem nodesAdded_pairing :
    (pairing index subterm value).nodesAdded = [subterm, value] := rfl

/-- A pair adds the link between its terms. -/
@[simp] theorem linksAdded_pairing :
    (pairing index subterm value).linksAdded = [.detached index subterm value] := rfl

/-- A pair removes no link. -/
@[simp] theorem linkRemoved_pairing : (pairing index subterm value).linkRemoved = none := rfl

end Changes

/-- What a view can be changed by: a hidden term that splits a shown link, or two hidden terms as a
pair. -/
inductive Admits (view : View) (index : Index) : Change → Prop where
  | split {node : TermId} {replacing : Link} (hknown : index.contains node = true)
      (hhidden : view.shows node = false) (hlink : view.showsLink replacing = true) :
      Admits view index (splitting index node replacing)
  | pair {subterm value : TermId} (hne : subterm ≠ value)
      (hsubterm : index.contains subterm = true) (hvalue : index.contains value = true)
      (hhidden : view.shows subterm = false) (hhidden' : view.shows value = false) :
      Admits view index (pairing index subterm value)

variable {view later : View} {index : Index} {change : Change} {id : TermId} {link : Link}

/-- A term may be revealed exactly if it is known and hidden. -/
theorem hiddenError?_eq_none_iff :
    view.hiddenError? index id = none ↔ index.contains id = true ∧ view.shows id = false := by
  cases hknown : index.contains id <;> cases hshown : view.shows id <;>
    simp [hiddenError?, hknown, hshown]

/-- A split succeeds exactly with a hidden term and a shown link, and records what it changes. -/
theorem split_eq_ok_iff {node : TermId} {replacing : Link} :
    view.split index node replacing = .ok (change, later) ↔
      (index.contains node = true ∧ view.shows node = false ∧ view.showsLink replacing = true) ∧
        change = splitting index node replacing ∧ later = view.record change := by
  have herror : view.splitError? index node replacing = none ↔
      index.contains node = true ∧ view.shows node = false ∧ view.showsLink replacing = true := by
    simp [splitError?, hiddenError?_eq_none_iff, and_assoc]
  rw [← herror, split]
  cases view.splitError? index node replacing with
  | some error => simp
  | none => grind

/-- A pair succeeds exactly with two hidden terms, and records what it changes. -/
theorem pair_eq_ok_iff {subterm value : TermId} :
    view.pair index subterm value = .ok (change, later) ↔
      (subterm ≠ value ∧ (index.contains subterm = true ∧ view.shows subterm = false) ∧
        index.contains value = true ∧ view.shows value = false) ∧
        change = pairing index subterm value ∧ later = view.record change := by
  have herror : view.pairError? index subterm value = none ↔
      subterm ≠ value ∧ (index.contains subterm = true ∧ view.shows subterm = false) ∧
        index.contains value = true ∧ view.shows value = false := by
    rw [pairError?]
    split <;> simp_all [hiddenError?_eq_none_iff]
  rw [← herror, pair]
  cases view.pairError? index subterm value with
  | some error => simp
  | none => grind

/-- The change of a split is admitted, and recorded. -/
theorem admits_of_split {node : TermId} {replacing : Link}
    (h : view.split index node replacing = .ok (change, later)) :
    view.Admits index change ∧ later = view.record change := by
  obtain ⟨⟨hknown, hhidden, hlink⟩, rfl, rfl⟩ := split_eq_ok_iff.mp h
  exact ⟨.split hknown hhidden hlink, rfl⟩

/-- The change of a pair is admitted, and recorded. -/
theorem admits_of_pair {subterm value : TermId}
    (h : view.pair index subterm value = .ok (change, later)) :
    view.Admits index change ∧ later = view.record change := by
  obtain ⟨⟨hne, hsubterm, hvalue⟩, rfl, rfl⟩ := pair_eq_ok_iff.mp h
  exact ⟨.pair hne hsubterm.1 hvalue.1 hsubterm.2 hvalue.2, rfl⟩

private theorem ofView_eq_ok_iff {α : Type} {result : Except ViewError α} {a : α} :
    NavigationError.ofView result = .ok a ↔ result = .ok a := by
  cases result <;> simp [NavigationError.ofView]

/-- What it takes to apply a plan: its split for the action, or its pair to step into, succeeds. -/
theorem apply_eq_ok_iff {plan : Plan} {action : Action} :
    plan.apply index view action = .ok (change, later) ↔
      (∃ split, plan.split? action = some split ∧
        view.split index split.destination split.replacing = .ok (change, later)) ∨
      ∃ pair, action = .stepInto ∧ plan.stepInto = some pair ∧
        view.pair index pair.subterm pair.value = .ok (change, later) := by
  unfold Plan.apply
  split
  · split
    · next hnone => simp [Plan.split?, hnone]
    · next pair hpair => simp [Plan.split?, hpair, ofView_eq_ok_iff]
  · next hinto =>
    have hinto : action ≠ .stepInto := hinto
    split
    · next hnone => simp [hnone, hinto]
    · next split hsplit => simp [hsplit, hinto, ofView_eq_ok_iff]

/-- An action that succeeds records an admitted change, whatever view its plan was made for. -/
theorem admits_of_apply {plan : Plan} {action : Action}
    (h : plan.apply index view action = .ok (change, later)) :
    view.Admits index change ∧ later = view.record change := by
  rcases apply_eq_ok_iff.mp h with ⟨split, -, hmade⟩ | ⟨pair, -, -, hmade⟩
  · exact admits_of_split hmade
  · exact admits_of_pair hmade

/-- A change shows what it adds in addition. -/
theorem shows_record :
    (view.record change).shows id = true ↔ id ∈ change.nodesAdded ∨ view.shows id = true := by
  simp only [shows, record, Std.ExtTreeSet.contains_iff_mem, Picture.mem_nodes_apply]

/-- A change shows the links that it adds and keeps all but the one that it removes. -/
theorem showsLink_record :
    (view.record change).showsLink link = true ↔
      link ∈ change.linksAdded ∨ change.linkRemoved ≠ some link ∧ view.showsLink link = true := by
  simp only [showsLink, record, Std.ExtTreeSet.contains_iff_mem, Picture.mem_links_apply]

/-- The links of a view are those that it shows. -/
@[simp] theorem mem_links : link ∈ view.links ↔ view.showsLink link = true := by
  simp only [links, showsLink, Std.ExtTreeSet.mem_toList, Std.ExtTreeSet.contains_iff_mem]

/-- The shown links that leave a term. -/
theorem mem_outgoing : link ∈ view.outgoing id ↔ view.showsLink link = true ∧ link.source = id := by
  simp [outgoing]

/-- The shown links that enter a term. -/
theorem mem_incoming : link ∈ view.incoming id ↔ view.showsLink link = true ∧ link.target = id := by
  simp [incoming]

/-- No link is listed twice. -/
theorem nodup_links (view : View) : view.links.Nodup := by
  refine Std.ExtTreeSet.distinct_toList.imp fun hne heq => hne ?_
  rw [heq]
  exact Std.ReflCmp.compare_self

/-- At first the root and the last term are shown. -/
theorem shows_start :
    (View.start index).shows id = true ↔ id = index.root ∨ id = index.ending.term := by
  simp only [shows, start, Picture.start, Std.ExtTreeSet.contains_iff_mem]
  split
  · next h => simp [h, @eq_comm _ id]
  · simp [@eq_comm _ id]

/-- At first the link between the root and the last term is shown, if they are not the same. -/
theorem showsLink_start :
    (View.start index).showsLink link = true ↔
      index.ending.term ≠ index.root ∧ link = .between index index.root index.ending.term := by
  simp only [showsLink, start, Picture.start, Std.ExtTreeSet.contains_iff_mem]
  split
  · next h => simp [h]
  · next h => simp [h, @eq_comm _ link]

/-! ## Grown views -/

/-- A view that recorded changes alone lead to from the start. -/
inductive Grown (index : Index) : View → Prop where
  | start : Grown index (View.start index)
  | record {view : View} {change : Change} (hview : Grown index view)
      (hchange : view.Admits index change) : Grown index (view.record change)

namespace Admits

/-- What a change adds was hidden before. -/
theorem hidden (h : view.Admits index change) (hid : id ∈ change.nodesAdded) :
    view.shows id = false := by
  cases h with
  | split _ hhidden =>
    obtain rfl := List.mem_singleton.mp hid
    exact hhidden
  | pair _ _ _ hhidden hhidden' =>
    simp only [nodesAdded_pairing, List.mem_cons, List.not_mem_nil, or_false] at hid
    rcases hid with rfl | rfl
    · exact hhidden
    · exact hhidden'

/-- What a change adds is a term of the graph. -/
theorem known (h : view.Admits index change) (hid : id ∈ change.nodesAdded) :
    index.contains id = true := by
  cases h with
  | split hknown =>
    obtain rfl := List.mem_singleton.mp hid
    exact hknown
  | pair _ hsubterm hvalue =>
    simp only [nodesAdded_pairing, List.mem_cons, List.not_mem_nil, or_false] at hid
    rcases hid with rfl | rfl
    · exact hsubterm
    · exact hvalue

/-- What a change removes was shown before. -/
theorem showsLink_of_linkRemoved (h : view.Admits index change)
    (hlink : change.linkRemoved = some link) : view.showsLink link = true := by
  cases h with
  | split _ _ hshown =>
    cases hlink
    exact hshown
  | pair => cases hlink

/-- A change shows one more term at least. -/
theorem size_lt (h : view.Admits index change) :
    view.shown.nodes.size < (view.record change).shown.nodes.size := by
  have hinsert : ∀ {nodes : Std.ExtTreeSet TermId} {id : TermId}, nodes.contains id = false →
      (nodes.insert id).size = nodes.size + 1 := by
    intro nodes id hid
    simp only [Std.ExtTreeSet.size_insert, hid, Bool.false_eq_true, if_false]
  cases h with
  | @split node replacing _ hhidden =>
    have hsize : (view.record (splitting index node replacing)).shown.nodes.size = _ :=
      hinsert hhidden
    rw [hsize]
    exact Nat.lt_succ_self _
  | @pair subterm value _ _ _ hhidden =>
    have hsize : (view.shown.nodes.insert subterm).size = _ := hinsert hhidden
    calc view.shown.nodes.size < (view.shown.nodes.insert subterm).size := by omega
      _ ≤ ((view.shown.nodes.insert subterm).insert value).size :=
        Std.ExtTreeSet.size_le_size_insert

/-- An end of a link that a change adds is added with it or is an end of the link it removes. -/
theorem ends_of_linksAdded (h : view.Admits index change) (hlink : link ∈ change.linksAdded) :
    (link.source ∈ change.nodesAdded ∨
        ∃ old, change.linkRemoved = some old ∧ link.source = old.source) ∧
      (link.target ∈ change.nodesAdded ∨
        ∃ old, change.linkRemoved = some old ∧ link.target = old.target) ∧
      (link.source ∈ change.nodesAdded ∨ link.target ∈ change.nodesAdded) := by
  cases h with
  | split =>
    simp only [linksAdded_splitting, List.mem_cons, List.not_mem_nil, or_false] at hlink
    rcases hlink with rfl | rfl <;> simp [Link.between]
  | pair =>
    obtain rfl := List.mem_singleton.mp hlink
    simp [Link.detached]

end Admits

namespace Grown

/-- Both ends of a shown link are shown. -/
theorem shows_ends (h : Grown index view) (hlink : view.showsLink link = true) :
    view.shows link.source = true ∧ view.shows link.target = true := by
  induction h generalizing link with
  | start =>
    obtain ⟨-, rfl⟩ := showsLink_start.mp hlink
    simp [shows_start, Link.between]
  | record hview hchange ih =>
    rw [shows_record, shows_record]
    rcases showsLink_record.mp hlink with hadded | ⟨-, hshown⟩
    · obtain ⟨hsource, htarget, -⟩ := hchange.ends_of_linksAdded hadded
      constructor
      · rcases hsource with hsource | ⟨old, hold, hsource⟩
        · exact .inl hsource
        · exact .inr (hsource ▸ (ih (hchange.showsLink_of_linkRemoved hold)).1)
      · rcases htarget with htarget | ⟨old, hold, htarget⟩
        · exact .inl htarget
        · exact .inr (htarget ▸ (ih (hchange.showsLink_of_linkRemoved hold)).2)
    · exact ⟨.inr (ih hshown).1, .inr (ih hshown).2⟩

/-- A grown view shows terms of the graph only. -/
theorem known {graph : Graph} (h : Grown (Index.ofGraph graph) view)
    (hid : view.shows id = true) : (Index.ofGraph graph).contains id = true := by
  induction h with
  | start =>
    rcases shows_start.mp hid with rfl | rfl
    · exact Index.contains_root graph
    · exact Index.contains_ending graph
  | record _ hchange ih =>
    rcases shows_record.mp hid with hadded | hshown
    · exact hchange.known hadded
    · exact ih hshown

/-- A link that a change adds was not shown before. -/
theorem not_showsLink_of_linksAdded (h : Grown index view) (hchange : view.Admits index change)
    (hlink : link ∈ change.linksAdded) : view.showsLink link = false := by
  apply Bool.eq_false_iff.mpr
  intro hshown
  obtain ⟨hsource, htarget⟩ := h.shows_ends hshown
  -- one end at least is new
  rcases (hchange.ends_of_linksAdded hlink).2.2 with hnew | hnew
  · rw [hchange.hidden hnew] at hsource
    cases hsource
  · rw [hchange.hidden hnew] at htarget
    cases htarget

/-- Undoing takes back exactly the change made last. -/
theorem undo?_record (h : Grown index view) (hchange : view.Admits index change) :
    (view.record change).undo? = some (change, view) := by
  have hshown : (view.shown.apply change).revert change = view.shown := by
    apply Picture.revert_apply
    · intro id hid
      simpa [shows, ← Std.ExtTreeSet.contains_iff_mem] using hchange.hidden hid
    · intro link hlink
      simpa [showsLink, ← Std.ExtTreeSet.contains_iff_mem] using
        h.not_showsLink_of_linksAdded hchange hlink
    · intro link hlink
      exact Std.ExtTreeSet.contains_iff_mem.mp (hchange.showsLink_of_linkRemoved hlink)
  simp [undo?, View.record, hshown]

/-- A fresh view has nothing to undo. -/
theorem undo?_start : (View.start index).undo? = none := rfl

/-- Undoing leads to a grown view, from which the undone change leads back. -/
theorem of_undo? (h : Grown index view) (hundo : view.undo? = some (change, later)) :
    Grown index later ∧ later.Admits index change ∧ view = later.record change := by
  cases h with
  | start => cases hundo
  | record hview hchange =>
    rw [hview.undo?_record hchange] at hundo
    cases hundo
    exact ⟨hview, hchange, rfl⟩

/-- Resetting leads to the start. -/
theorem reset_eq (h : Grown index view) : view.reset = View.start index := by
  have hsame : view.root = index.root ∧ view.initial = Picture.start index := by
    induction h with
    | start => exact ⟨rfl, rfl⟩
    | record _ _ ih => exact ih
  rw [reset, hsame.1, hsame.2, View.start]

end Grown

/-! ## Runs -/

/-- What can be done to a view. The plan that is applied may have been made for another view. -/
inductive Command where
  | split (node : TermId) (replacing : Link)
  | pair (subterm value : TermId)
  | apply (plan : Plan) (action : Action)
  | undo
  | reset

/-- The view after a change, or as it was if the change is refused. -/
def settled {ε : Type} (view : View) : Except ε (Change × View) → View
  | .error _ => view
  | .ok (_, later) => later

/-- Carries out one command; what is refused changes nothing. -/
def obey (index : Index) (view : View) : Command → View
  | .split node replacing => view.settled (view.split index node replacing)
  | .pair subterm value => view.settled (view.pair index subterm value)
  | .apply plan action => view.settled (plan.apply index view action)
  | .undo => (view.undo?.map Prod.snd).getD view
  | .reset => view.reset

/-- Carries out commands one after the other. -/
def run (index : Index) (view : View) (commands : List Command) : View :=
  commands.foldl (obey index) view

namespace Grown

private theorem settled {ε : Type} {result : Except ε (Change × View)} (h : Grown index view)
    (hresult : ∀ change later, result = .ok (change, later) →
      view.Admits index change ∧ later = view.record change) :
    Grown index (view.settled result) := by
  cases result with
  | error => exact h
  | ok made =>
    obtain ⟨hchange, hlater⟩ := hresult made.1 made.2 rfl
    rw [View.settled, hlater]
    exact h.record hchange

/-- Every command leads from a grown view to a grown view. -/
theorem obey (h : Grown index view) (command : Command) :
    Grown index (view.obey index command) := by
  cases command with
  | split node replacing => exact h.settled fun _ _ => admits_of_split
  | pair subterm value => exact h.settled fun _ _ => admits_of_pair
  | apply plan action => exact h.settled fun _ _ => admits_of_apply
  | undo =>
    cases hundo : view.undo? with
    | none => simpa [View.obey, hundo] using h
    | some made =>
      obtain ⟨hlater, -, -⟩ := h.of_undo? hundo
      simpa [View.obey, hundo] using hlater
  | reset =>
    rw [View.obey, h.reset_eq]
    exact .start

/-- Every run leads from a grown view to a grown view. -/
theorem run (h : Grown index view) (commands : List Command) :
    Grown index (view.run index commands) := by
  induction commands generalizing view with
  | nil => exact h
  | cons command commands ih => exact ih (h.obey command)

end Grown

end View

end ReductionStepper
