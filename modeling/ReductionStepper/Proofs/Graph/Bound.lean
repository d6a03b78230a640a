import ReductionStepper.Proofs.Graph.Inside

/-!
# The bound of a walk

Nothing is assumed here of the steps of a graph. A path that leaves a term twice has entered a
cycle, which the chain never leaves; so a chain that ends leaves every term once and takes no more
steps than the graph has edges. A walk takes one step more: this is exactly enough to tell a chain
that ends from one that goes on for ever.
-/

namespace ReductionStepper

open Relation (ReflTransGen TransGen)

namespace Index

/-- The chain from a term ends at the other, which has no step. -/
def EndsAt (index : Index) (id last : TermId) : Prop :=
  ReflTransGen index.Next id last ∧ index.next? last = none

/-- The chain from a term never ends: every term on it has a step. -/
def Endless (index : Index) (id : TermId) : Prop :=
  ∀ term, ReflTransGen index.Next id term → index.next? term ≠ none

/-- Steps from one term to another, one at least: each is the step of its source, the first starts
at the one term, each other one where the step before it ended, and the last ends at the other. -/
structure Course (index : Index) (source : TermId) (path : List Edge) (target : TermId) :
    Prop where
  starts : path.head?.map Edge.source = some source
  steps : ∀ step ∈ path, index.step? step.source = some step
  joined : path.IsChain fun step next => step.target = next.source
  ends : path.getLast?.map Edge.target = some target

variable {graph : Graph} {index : Index} {id last source target : TermId} {path : List Edge}

/-- A course is a path that is not empty. -/
theorem course_iff_leads :
    (ofGraph graph).Course source path target ↔
      path ≠ [] ∧ Leads (ofGraph graph) source path target := by
  induction path generalizing source with
  | nil =>
    constructor
    · rintro ⟨⟨⟩, -, -, -⟩
    · rintro ⟨hne, -⟩
      exact absurd rfl hne
  | cons first later ih =>
    rw [Leads.cons_iff]
    constructor
    · rintro ⟨hstarts, hsteps, hjoined, hends⟩
      obtain rfl : first.source = source := by simpa using hstarts
      obtain ⟨hfirst, hsteps⟩ := List.forall_mem_cons.mp hsteps
      refine ⟨by simp, hfirst, ?_⟩
      cases later with
      | nil => exact Leads.nil_iff.mpr (by simpa using hends)
      | cons second rest =>
        obtain ⟨hsecond, hjoined⟩ := List.isChain_cons_cons.mp hjoined
        exact (ih.mp ⟨by simp [hsecond], hsteps, hjoined, by simpa using hends⟩).2
    · rintro ⟨-, hfirst, hlater⟩
      have hsource := source_of_step? hfirst
      have hfirst' : (ofGraph graph).step? first.source = some first := hsource ▸ hfirst
      cases later with
      | nil =>
        obtain rfl := Leads.nil_iff.mp hlater
        exact ⟨by simp [hsource], by simpa using hfirst', .singleton _, rfl⟩
      | cons second rest =>
        obtain ⟨hstarts, hsteps, hjoined, hends⟩ := ih.mpr ⟨by simp, hlater⟩
        have hsecond : second.source = first.target := by simpa using hstarts
        exact ⟨by simp [hsource], List.forall_mem_cons.mpr ⟨hfirst', hsteps⟩,
          List.isChain_cons_cons.mpr ⟨hsecond.symm, hjoined⟩, by simpa using hends⟩

/-- A path that arrives meets its goal at the last step only. -/
theorem Arrives.target_ne (h : Arrives index source path target) :
    ∀ step ∈ path.dropLast, step.target ≠ target := by
  induction h with
  | last => simp
  | step _ hne hlater ih =>
    rw [List.dropLast_cons_of_ne_nil hlater.ne_nil]
    exact List.forall_mem_cons.mpr ⟨hne, ih⟩

/-! ## Cycles -/

/-- Stepping from a term on a cycle leads to terms on the cycle only. -/
theorem cycle_of_reaches (hcycle : TransGen index.Next source source)
    (h : ReflTransGen index.Next source target) : TransGen index.Next target target := by
  induction h with
  | refl => exact hcycle
  | @tail middle target _ hstep ih =>
    obtain ⟨next, hnext, hback⟩ := TransGen.head'_iff.mp ih
    obtain rfl : next = target := index.rightUnique_next hnext hstep
    exact .tail' hback hstep

/-- A term on a cycle has a step. -/
theorem next?_ne_none_of_cycle (hcycle : TransGen index.Next id id) : index.next? id ≠ none := by
  obtain ⟨next, hnext, -⟩ := TransGen.head'_iff.mp hcycle
  rw [show index.next? id = some next from hnext]
  exact Option.some_ne_none next

/-- A chain that gets to a cycle never ends. -/
theorem endless_of_reaches_cycle (h : ReflTransGen index.Next id last)
    (hcycle : TransGen index.Next last last) : index.Endless id := by
  intro term hterm
  rcases ReflTransGen.total_of_right_unique index.rightUnique_next h hterm with hlater | hearlier
  · exact next?_ne_none_of_cycle (cycle_of_reaches hcycle hlater)
  · rcases ReflTransGen.cases_head hearlier with rfl | ⟨next, hnext, -⟩
    · exact next?_ne_none_of_cycle hcycle
    · rw [show index.next? term = some next from hnext]
      exact Option.some_ne_none next

/-- A path leaves every term once or has entered a cycle. -/
theorem Leads.nodup_sources_or_cycle (h : Leads (ofGraph graph) source path target) :
    (path.map Edge.source).Nodup ∨ TransGen (ofGraph graph).Next target target := by
  induction h with
  | refl => exact .inl List.nodup_nil
  | @step source target first later hfirst hlater ih =>
    rcases ih with hnodup | hcycle
    · by_cases hmem : first.source ∈ later.map Edge.source
      · obtain ⟨step, hstep, hsource⟩ := List.mem_map.mp hmem
        obtain ⟨before, after, rfl⟩ := List.append_of_mem hstep
        have hback := hlater.of_append_cons.1
        rw [hsource, source_of_step? hfirst] at hback
        have hcycle := (Leads.step hfirst hback).transGen (by simp)
        exact .inr (cycle_of_reaches hcycle (Leads.step hfirst hlater).reflTransGen)
      · exact .inl (List.nodup_cons.mpr ⟨hmem, hnodup⟩)
    · exact .inr hcycle

/-- A path of more steps than the graph has edges has entered a cycle. -/
theorem Leads.cycle_of_length_lt (h : Leads (ofGraph graph) source path target)
    (hlength : graph.edges.length < path.length) : TransGen (ofGraph graph).Next target target := by
  rcases h.nodup_sources_or_cycle with hnodup | hcycle
  · exact absurd (h.length_le_of_nodup hnodup) (Nat.not_le_of_gt hlength)
  · exact hcycle

/-! ## Where a chain is followed to -/

/-- Every chain that ends is followed to its end. -/
theorem settle_eq_ended_iff :
    (ofGraph graph).settle id = .ended last ↔ (ofGraph graph).EndsAt id last := by
  rw [settle, settleWithin_eq_ended_iff]
  constructor
  · rintro ⟨path, hpath, hnone, -⟩
    exact ⟨hpath.reflTransGen, hnone⟩
  · rintro ⟨hreaches, hnone⟩
    obtain ⟨path, hpath⟩ := Leads.of_reflTransGen hreaches
    refine ⟨path, hpath, hnone, Nat.lt_succ_of_le (Nat.le_of_not_lt fun hlength => ?_)⟩
    exact next?_ne_none_of_cycle (hpath.cycle_of_length_lt hlength) hnone

private theorem EndsAt.value_eq (h : (ofGraph graph).EndsAt id last) :
    (ofGraph graph).value id = last := by
  rw [value, settle_eq_ended_iff.mpr h, Settling.term]

/-- A chain that is given up has entered a cycle. -/
theorem cycle_of_settle_eq_unsettled (h : (ofGraph graph).settle id = .unsettled last) :
    TransGen (ofGraph graph).Next last last := by
  obtain ⟨path, hpath, hlength⟩ := stepped?_eq_some_iff.mp (settleWithin_eq_unsettled_iff.mp h)
  exact hpath.cycle_of_length_lt (hlength ▸ Nat.lt_succ_self _)

/-- A chain is given up exactly if it never ends, at the term after one step more than the graph has
edges. -/
theorem settle_eq_unsettled_iff :
    (ofGraph graph).settle id = .unsettled last ↔
      (ofGraph graph).Endless id ∧
        (ofGraph graph).stepped? (graph.edges.length + 1) id = some last := by
  have hstepped : (ofGraph graph).settle id = .unsettled last ↔
      (ofGraph graph).stepped? (graph.edges.length + 1) id = some last :=
    settleWithin_eq_unsettled_iff
  rw [← hstepped, iff_and_self]
  intro hlast
  obtain ⟨path, hpath, -⟩ := stepped?_eq_some_iff.mp (hstepped.mp hlast)
  exact endless_of_reaches_cycle hpath.reflTransGen (cycle_of_settle_eq_unsettled hlast)

/-- The value of a term is the end of its chain, if the chain ends: then following it takes no
notice of the bound, and steps and a second look do not change it. The chain of a term that never
ends is followed for one step more than the graph has edges, to a term on its cycle. -/
theorem value_is_end_of_chain (graph : Graph) (id : TermId) :
    let index := ofGraph graph
    (∀ last, index.EndsAt id last →
      index.settle id = .ended last ∧ index.value id = last ∧
        index.value (index.value id) = index.value id ∧
        ∀ next, index.next? id = some next → index.value next = index.value id) ∧
      (index.Endless id →
        ∃ last, index.settle id = .unsettled last ∧ index.value id = last ∧
          index.stepped? (graph.edges.length + 1) id = some last ∧
          TransGen index.Next last last) := by
  intro index
  constructor
  · intro last hends
    have hlast : index.value id = last := hends.value_eq
    refine ⟨settle_eq_ended_iff.mpr hends, hlast, ?_, ?_⟩
    · rw [hlast]
      exact EndsAt.value_eq ⟨.refl, hends.2⟩
    · intro next hnext
      rw [hlast]
      rcases ReflTransGen.cases_head hends.1 with rfl | ⟨other, hother, hrest⟩
      · rw [hends.2] at hnext
        cases hnext
      · obtain rfl : other = next := index.rightUnique_next hother hnext
        exact EndsAt.value_eq ⟨hrest, hends.2⟩
  · intro hendless
    cases hsettle : index.settle id with
    | ended last =>
      obtain ⟨hreaches, hnone⟩ := settle_eq_ended_iff.mp hsettle
      exact absurd hnone (hendless last hreaches)
    | unsettled last =>
      exact ⟨last, rfl, by rw [value, hsettle, Settling.term],
        (settle_eq_unsettled_iff.mp hsettle).2, cycle_of_settle_eq_unsettled hsettle⟩

/-! ## Walks to a term -/

/-- A walk is blocked only if the chain ends. -/
theorem endsAt_of_walkWithin_eq_blocked {bound : Nat}
    (h : index.walkWithin target bound source = .blocked) : ∃ last, index.EndsAt source last := by
  induction bound generalizing source with
  | zero => cases h
  | succ bound ih =>
    cases hstep : index.step? source with
    | none => exact ⟨source, .refl, by simp [next?, hstep]⟩
    | some first =>
      simp only [walkWithin, hstep] at h
      split at h
      · cases h
      · cases hwalk : index.walkWithin target bound first.target with
        | arrived path => simp [hwalk, Walk.after] at h
        | endless => simp [hwalk, Walk.after] at h
        | blocked =>
          obtain ⟨last, hreaches, hnone⟩ := ih hwalk
          exact ⟨last, .head (by simp [Next, next?, hstep]) hreaches, hnone⟩

/-- A walk uses up its bound only over a path of as many steps. -/
theorem leads_of_walkWithin_eq_endless {bound : Nat}
    (h : index.walkWithin target bound source = .endless) :
    ∃ path last, Leads index source path last ∧ path.length = bound := by
  induction bound generalizing source with
  | zero => exact ⟨[], source, .refl _, rfl⟩
  | succ bound ih =>
    cases hstep : index.step? source with
    | none => simp [walkWithin, hstep] at h
    | some first =>
      simp only [walkWithin, hstep] at h
      split at h
      · cases h
      · cases hwalk : index.walkWithin target bound first.target with
        | arrived path => simp [hwalk, Walk.after] at h
        | blocked => simp [hwalk, Walk.after] at h
        | endless =>
          obtain ⟨path, last, hpath, hlength⟩ := ih hwalk
          exact ⟨first :: path, last, .step hstep hpath, by simp [hlength]⟩

/-- A walk arrives exactly if stepping leads to its goal. -/
theorem path_ne_nil_iff :
    (ofGraph graph).path source target ≠ [] ↔ TransGen (ofGraph graph).Next source target := by
  refine ⟨fun hne => (arrives_path hne).leads.transGen hne, fun hreaches => ?_⟩
  obtain ⟨path, hne, hpath⟩ := Leads.of_transGen hreaches
  obtain ⟨found, rest, -, hfound⟩ := hpath.exists_arrives hne
  rw [(path_eq_iff hfound.ne_nil).mpr hfound]
  exact hfound.ne_nil

/-- A walk uses up its bound exactly if the chain never ends and never meets the goal. -/
theorem walk_eq_endless_iff :
    (ofGraph graph).walk source target = .endless ↔
      (ofGraph graph).Endless source ∧ ¬ TransGen (ofGraph graph).Next source target := by
  rw [← path_ne_nil_iff, path]
  constructor
  · intro h
    obtain ⟨path, last, hpath, hlength⟩ := leads_of_walkWithin_eq_endless h
    refine ⟨endless_of_reaches_cycle hpath.reflTransGen (hpath.cycle_of_length_lt ?_), ?_⟩
    · rw [hlength, walkBound]
      exact Nat.lt_succ_self _
    · simp [h, Walk.path]
  · rintro ⟨hendless, hnone⟩
    cases hwalk : (ofGraph graph).walk source target with
    | arrived path =>
      have hne := (walkWithin_eq_arrived_iff.mp hwalk).1.ne_nil
      rw [hwalk] at hnone
      exact absurd hne hnone
    | blocked =>
      obtain ⟨last, hreaches, hrests⟩ := endsAt_of_walkWithin_eq_blocked hwalk
      exact absurd hrests (hendless last hreaches)
    | endless => rfl

/-- From one term to another a walk finds steps exactly if stepping leads there at least once. These
are the shortest course: it meets the goal at its last step only, leaves every term once and has no
more steps than the graph has edges. The bound is used up exactly by a chain that never ends and
never meets the goal, and no larger bound would find anything else. -/
theorem path_is_shortest_course (graph : Graph) (source target : TermId) :
    let index := ofGraph graph
    let path := index.path source target
    (path ≠ [] ↔ TransGen index.Next source target) ∧
      (path ≠ [] →
        index.Course source path target ∧ (∀ step ∈ path.dropLast, step.target ≠ target) ∧
          (∀ other, index.Course source other target → path.length ≤ other.length) ∧
          (path.map Edge.source).Nodup ∧ path.length ≤ graph.edges.length) ∧
      (index.walk source target = .endless ↔
        index.Endless source ∧ ¬ TransGen index.Next source target) ∧
      ∀ bound found, index.walkWithin target bound source = .arrived found →
        index.walk source target = .arrived found := by
  intro index path
  refine ⟨path_ne_nil_iff, ?_, walk_eq_endless_iff, ?_⟩
  · intro hne
    have harrives : Arrives index source path target := arrives_path hne
    refine ⟨course_iff_leads.mpr ⟨hne, harrives.leads⟩, harrives.target_ne, ?_,
      harrives.nodup_sources, harrives.leads.length_le_of_nodup harrives.nodup_sources⟩
    intro other hother
    obtain ⟨hother, hleads⟩ := course_iff_leads.mp hother
    exact harrives.length_le hleads hother
  · intro bound found hfound
    obtain ⟨harrives, -⟩ := walkWithin_eq_arrived_iff.mp hfound
    exact walk_eq_arrived_iff.mpr harrives

end Index

end ReductionStepper
