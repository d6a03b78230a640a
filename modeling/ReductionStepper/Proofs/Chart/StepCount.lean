import Mathlib.Algebra.GroupWithZero.Nat
import ReductionStepper.Proofs.Chart.Rows
import ReductionStepper.Proofs.Graph.Bound
import ReductionStepper.Proofs.Session.Moves
import ReductionStepper.Proofs.View.RootChain

/-!
# Counts of steps

The row of a link tells how many steps the link stands for: a thin row one, any other row its
count. Whether a row is thin comes from the link's weight, which was set when the link was made;
the count is taken anew from the graph. On a well-formed graph the two never disagree, so the
counts over the first chain add up to the steps of the whole evaluation, whatever is shown of it.
-/

namespace ReductionStepper

open Relation (ReflTransGen TransGen)

/-! ## The steps behind a link -/

namespace View.Grown

variable {graph : Graph} {view : View} {link : Link} {first : Chain} {detached : List Chain}

section WellFormed

variable (hgraph : graph.WellFormed) (h : Grown (Index.ofGraph graph) view)
  (hfollows : view.Follows (Index.ofGraph graph))

include hgraph h hfollows

/-- A link that stands for several steps has two steps behind it at least. -/
theorem two_le_length_path (hlink : view.showsLink link = true) (hweight : link.weight = .multi) :
    2 ≤ ((Index.ofGraph graph).path link.source link.target).length := by
  have hleads := hgraph.leads_path
    (h.transGen_of_showsLink hgraph hfollows hlink).to_reflTransGen
  match hpath : (Index.ofGraph graph).path link.source link.target with
  | [] =>
    exact absurd hpath (Index.path_ne_nil_iff.mpr (h.transGen_of_showsLink hgraph hfollows hlink))
  -- a single step would have made the link single
  | [step] =>
    rw [hpath, Index.Leads.cons_iff, Index.Leads.nil_iff] at hleads
    have hnext : (Index.ofGraph graph).Next link.source link.target :=
      Option.map_eq_some_iff.mpr ⟨step, hleads.1, hleads.2⟩
    have hsingle := @weight_drawn_of_next view _ _ _ hnext
    rw [← h.eq_drawn hlink, hweight] at hsingle
    cases hsingle
  | _ :: _ :: _ => simp

end WellFormed

/-- A link of the first chain never is a pair that stands alone. -/
theorem eq_between_of_mem_first {index : Index} (h : Grown index view)
    (hchains : view.chains = first :: detached) (hlink : link ∈ first.links) :
    link = .between index link.source link.target := by
  have hlaid := h.laidOut
  have hmem : first ∈ view.chains := hchains ▸ List.mem_cons_self
  have hshown : ∀ other ∈ first.links, view.showsLink other = true := fun other hother =>
    (hlaid.showsLink_iff other).mpr (List.mem_flatMap_of_mem hmem hother)
  have hentered : ¬ view.Alone link.source link.target := by
    rintro ⟨hroot, hnone, -⟩
    have hsource : link.source ∈ first.nodes := by
      rw [(hlaid.joined first hmem).nodes_eq]
      exact List.mem_append_left _ (List.mem_map_of_mem hlink)
    rcases List.mem_cons.mp hsource with hhead | htarget
    · rw [h.head_first hchains, ← h.shows_root.1] at hhead
      exact hroot hhead
    · obtain ⟨other, hother, htarget⟩ := List.mem_map.mp htarget
      exact List.ne_nil_of_mem (mem_incoming.mpr ⟨hshown other hother, htarget⟩) hnone
  calc link = view.drawn index link.source link.target := h.eq_drawn (hshown link hlink)
    _ = .between index link.source link.target := if_neg hentered

end View.Grown

/-- If a term has one step at most, any step from it is the one that counts. -/
theorem Index.next_of_hasStep {index : Index} {source target : TermId}
    (hone : (index.outgoing source .stepsTo).length ≤ 1)
    (hstep : index.hasStep source target = true) : index.Next source target := by
  obtain ⟨step, hmem, htarget⟩ := List.any_eq_true.mp hstep
  match houtgoing : index.outgoing source .stepsTo with
  | [] => simp [houtgoing] at hmem
  | [only] =>
    rw [houtgoing, List.mem_singleton] at hmem
    subst hmem
    simpa [Next, next?, step?, houtgoing] using htarget
  | _ :: _ :: _ => simp [houtgoing] at hone

namespace Chart

/-- The number of steps that the row of a link tells. -/
def stepCount (index : Index) (link : Link) : Nat :=
  match link.weight with
  | .single => 1
  | .multi => (index.path link.source link.target).length

/-- The row that tells a number of steps: a thin one for one step, else the count. -/
def countText (count : Nat) : String :=
  if count = 1 then "  │" else "  ┃ " ++ Nat.repr count ++ " steps"

/-- The row for steps that are not known. -/
def unknownText : String := "  ┃ …"

/-- No number of steps is told as unknown. -/
theorem countText_ne_unknownText (count : Nat) : countText count ≠ unknownText := by
  unfold countText
  split
  · decide
  · intro h
    have hlength := congrArg String.length h
    have hunknown : unknownText.length = 5 := by decide
    have hfront : "  ┃ ".length = 4 := by decide
    have hback : " steps".length = 6 := by decide
    rw [String.length_append, String.length_append, hunknown, hfront, hback] at hlength
    omega

/-- The row of a link tells its count, if a link that stands for several steps has two at least. -/
theorem linkText_eq {index : Index} {link : Link}
    (h : link.weight = .multi → 2 ≤ (index.path link.source link.target).length) :
    linkText index link = countText (stepCount index link) ∧
      (link.weight = .multi ↔ 2 ≤ stepCount index link) := by
  cases hweight : link.weight with
  | single => simp [linkText, stepCount, hweight, countText, margin]
  | multi =>
    obtain ⟨more, hmore⟩ := Nat.exists_eq_add_of_le' (h hweight)
    have hfront : margin ++ "┃ " = "  ┃ " := by decide
    constructor
    · have hne : more + 2 ≠ 1 := by omega
      simp only [linkText, stepCount, hweight, hmore, countText, ← hfront, if_neg hne,
        String.append_assoc]
      rfl
    · simp [stepCount, hweight, hmore]

end Chart

namespace Session

/-- Whatever was done in a session on a well-formed graph: the row of a link never says that its
steps are unknown; it is thin or tells two steps at least, as the link stands for a single edge or
for several. If every term has one step at most, the steps told over the first chain add up to
those from the root to the last term. -/
theorem told_steps_add_up {graph : Graph} (hgraph : graph.WellFormed) (commands : List Command)
    (options : ChartOptions) :
    let index := Index.ofGraph graph
    let session := ((start graph).run commands).2
    (∀ (place : Nat) (link : Link), (Chart.rows session)[place]? = some (.link link) →
      (Chart.lines session options)[place]? = some (Chart.countText (Chart.stepCount index link)) ∧
        (link.weight = .multi ↔ 2 ≤ Chart.stepCount index link) ∧
        ∀ line, (Chart.lines session options)[place]? = some line → line ≠ Chart.unknownText) ∧
      ((∀ id, (index.outgoing id .stepsTo).length ≤ 1) →
        ∃ first detached, session.view.chains = first :: detached ∧ first.head = graph.root ∧
          (first.links.map (Chart.stepCount index)).sum =
            (index.path graph.root graph.ending.term).length) := by
  intro index session
  have hcoherent : session.Coherent graph := (Coherent.start graph).run commands
  have hview : session.view.Grown index := hcoherent.grown
  have hfollows : session.view.Follows index :=
    (Coherent.start graph).follows_run hgraph (List.forall_mem_nil _) commands
  constructor
  · intro place link hrow
    have hlink : session.view.showsLink link = true :=
      (hview.laidOut.showsLink_iff link).mpr (Chart.mem_rowsOf_link.mp (List.mem_of_getElem? hrow))
    obtain ⟨htext, hweight⟩ := Chart.linkText_eq (hview.two_le_length_path hgraph hfollows hlink)
    have hline : (Chart.lines session options)[place]? =
        some (Chart.countText (Chart.stepCount index link)) := by
      rw [Chart.lines, List.getElem?_map, hrow, ← htext, ← hcoherent.index_eq]
      rfl
    refine ⟨hline, hweight, ?_⟩
    intro line hother
    rw [← Option.some.inj (hline.symm.trans hother)]
    exact Chart.countText_ne_unknownText _
  · intro hone
    obtain ⟨first, detached, hchains, hhead⟩ := hview.chains_eq_cons
    refine ⟨first, detached, hchains, hhead, ?_⟩
    rw [← hview.steps_first hgraph hfollows hchains, Chain.steps, List.length_flatMap]
    refine congrArg List.sum (List.map_congr_left fun link hlink => ?_)
    cases hweight : link.weight with
    | multi => rw [Chart.stepCount, hweight]
    -- the step that made the link single is the only one, so it is the path
    | single =>
      have hbetween := hview.eq_between_of_mem_first hchains hlink
      have hstep : index.hasStep link.source link.target = true := by
        rw [hbetween] at hweight
        simpa [Link.between] using hweight
      obtain ⟨step, hstep, htarget⟩ :=
        Option.map_eq_some_iff.mp (Index.next_of_hasStep (hone link.source) hstep)
      have hpath : index.path link.source link.target = [step] :=
        hgraph.path_eq (.step hstep (Index.Leads.nil_iff.mpr htarget))
      rw [Chart.stepCount, hweight, hpath, List.length_singleton]

/-- After stepping into the call and over it, the first chain tells three steps in one row and one
step in another: the four steps of the evaluation. -/
theorem told_steps_add_up_nestedCall :
    let r : TermId := ⟨"r", by decide⟩
    let u : TermId := ⟨"u", by decide⟩
    let commands : List Command := [.select r, .perform .stepInto, .select r, .perform .stepOver]
    let index := Index.ofGraph Graph.nestedCall
    let session := ((start Graph.nestedCall).run commands).2
    Graph.nestedCall.WellFormed ∧ (∀ id, (index.outgoing id .stepsTo).length ≤ 1) ∧
      (Chart.rows session)[1]? = some (.link ⟨r, u, .multi⟩) ∧
      (Chart.lines session {})[1]? = some "  ┃ 3 steps" ∧
      ∃ first detached, session.view.chains = first :: detached ∧
        first.links.map (Chart.stepCount index) = [3, 1] ∧
        [3, 1].sum = (index.path Graph.nestedCall.root Graph.nestedCall.ending.term).length := by
  intro r u commands index session
  obtain ⟨hrows, hadd⟩ := told_steps_add_up Graph.wellFormed_nestedCall commands {}
  have hone : ∀ id, (index.outgoing id .stepsTo).length ≤ 1 :=
    Index.length_outgoing_le_one (by decide +kernel)
  obtain ⟨first, detached, hchains, -, hsum⟩ := hadd hone
  have hrow : (Chart.rows session)[1]? = some (.link ⟨r, u, .multi⟩) := by decide +kernel
  have hthree : Chart.countText (Chart.stepCount index ⟨r, u, .multi⟩) = "  ┃ 3 steps" := by
    decide +kernel
  have hcounts : session.view.chains.head?.map
      (fun chain => chain.links.map (Chart.stepCount index)) = some [3, 1] := by
    decide +kernel
  rw [show session.view.chains = first :: detached from hchains, List.head?_cons, Option.map_some,
    Option.some.injEq] at hcounts
  refine ⟨Graph.wellFormed_nestedCall, hone, hrow, hthree ▸ (hrows 1 _ hrow).1, first, detached,
    hchains, hcounts, ?_⟩
  rw [← hcounts]
  exact hsum

end Session

end ReductionStepper
