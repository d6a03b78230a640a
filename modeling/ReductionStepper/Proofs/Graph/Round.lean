import Mathlib.Data.List.Rotate
import ReductionStepper.Proofs.Graph.Bound

/-!
# Rounds

A walk takes at least one step. From a term to itself it therefore finds one round of the cycle that
the term is on, or nothing if the term is on none. A round is the same from each of its terms,
except for where it starts.
-/

namespace ReductionStepper

open Relation (ReflTransGen TransGen)

namespace Index

variable {graph : Graph} {source target id term : TermId} {step : Edge}
  {path before after : List Edge}

namespace Leads

/-- A path that is not empty leaves the term that it starts from. -/
theorem source_mem (h : Leads (ofGraph graph) source path target) (hne : path ≠ []) :
    source ∈ path.map Edge.source := by
  cases h with
  | refl => exact absurd rfl hne
  | step hfirst => simp [source_of_step? hfirst]

/-- A path that comes back leaves every term that it leads to. -/
theorem target_mem_sources (h : Leads (ofGraph graph) id path id) (hstep : step ∈ path) :
    step.target ∈ path.map Edge.source := by
  obtain ⟨before, after, -, hsplit, -, hafter⟩ :=
    h.mem_targets_iff.mp (List.mem_map_of_mem hstep)
  by_cases hnil : after = []
  · subst hnil
    rw [nil_iff.mp hafter]
    exact h.source_mem (List.ne_nil_of_mem hstep)
  · rw [hsplit, List.map_append]
    exact List.mem_append_right _ (hafter.source_mem hnil)

/-- A path that comes back can as well start at the source of one of its steps. -/
theorem turned (h : Leads (ofGraph graph) id (before ++ step :: after) id) :
    Leads (ofGraph graph) step.source (step :: after ++ before) step.source := by
  obtain ⟨hbefore, hafter⟩ := h.of_append_cons
  exact hafter.trans hbefore

/-- A path that comes back and leaves no term twice comes back at its last step only. -/
theorem arrives_of_nodup (h : Leads (ofGraph graph) id path id) (hne : path ≠ [])
    (hnodup : (path.map Edge.source).Nodup) : Arrives (ofGraph graph) id path id := by
  obtain ⟨found, rest, rfl, hfound⟩ := h.exists_arrives hne
  obtain ⟨rest', hrest', hback⟩ := hfound.leads.exists_append h (by simp)
  obtain rfl := List.append_cancel_left hrest'
  by_cases hnil : rest = []
  · rwa [hnil, List.append_nil]
  · -- the rest leaves the term a second time
    rw [List.map_append] at hnodup
    exact absurd (hback.source_mem hnil)
      (List.disjoint_of_nodup_append hnodup (hfound.leads.source_mem hfound.ne_nil))

end Leads

/-- A round leaves exactly the terms that stepping from its start leads to. -/
theorem mem_round_iff (hne : (ofGraph graph).path id id ≠ []) :
    term ∈ ((ofGraph graph).path id id).map Edge.source ↔
      ReflTransGen (ofGraph graph).Next id term := by
  have hleads := (arrives_path hne).leads
  constructor
  · intro hterm
    obtain ⟨step, hstep, rfl⟩ := List.mem_map.mp hterm
    obtain ⟨before, after, hsplit⟩ := List.append_of_mem hstep
    rw [hsplit] at hleads
    exact hleads.of_append_cons.1.reflTransGen
  · intro hreaches
    induction hreaches with
    | refl => exact hleads.source_mem hne
    | tail _ hnext ih =>
      obtain ⟨step, hstep, rfl⟩ := List.mem_map.mp ih
      have hstep? := (course_iff_leads.mpr ⟨hne, hleads⟩).steps step hstep
      obtain ⟨next, hnext?, rfl⟩ := Option.map_eq_some_iff.mp hnext
      obtain rfl : step = next := Option.some.inj (hstep?.symm.trans hnext?)
      exact hleads.target_mem_sources hstep

/-- From each of its terms a round is the same, turned to start there. -/
theorem round_isRotated (hne : (ofGraph graph).path id id ≠ [])
    (hreaches : ReflTransGen (ofGraph graph).Next id term) :
    (ofGraph graph).path term term ~r (ofGraph graph).path id id := by
  obtain ⟨step, hstep, rfl⟩ := List.mem_map.mp ((mem_round_iff hne).mpr hreaches)
  obtain ⟨before, after, hsplit⟩ := List.append_of_mem hstep
  have harrives := arrives_path hne
  rw [hsplit] at harrives ⊢
  have hrotated : step :: after ++ before ~r before ++ step :: after := List.isRotated_append
  have hnodup : ((step :: after ++ before).map Edge.source).Nodup :=
    ((hrotated.map Edge.source).nodup_iff).mpr harrives.nodup_sources
  have hturned := harrives.leads.turned.arrives_of_nodup (by simp) hnodup
  rwa [(path_eq_iff hturned.ne_nil).mpr hturned]

/-- From a term to itself there are no steps to be found exactly if the term is on no cycle. On a
cycle they are one round of it: a course from the term back to itself that leaves once each term
that stepping leads to, and the same from each of these, turned to start there. -/
theorem path_to_itself_is_round (graph : Graph) (id : TermId) :
    let index := ofGraph graph
    let round := index.path id id
    (round = [] ↔ ¬ TransGen index.Next id id) ∧
      (round ≠ [] → index.Course id round id ∧ (round.map Edge.source).Nodup ∧
        (∀ term, term ∈ round.map Edge.source ↔ ReflTransGen index.Next id term) ∧
        ∀ term, ReflTransGen index.Next id term → index.path term term ~r round) := by
  intro index round
  refine ⟨?_, fun hne => ?_⟩
  · rw [← path_ne_nil_iff, Classical.not_not]
  · have harrives : Arrives index id round id := arrives_path hne
    exact ⟨course_iff_leads.mpr ⟨hne, harrives.leads⟩, harrives.nodup_sources,
      fun _ => mem_round_iff hne, fun _ => round_isRotated hne⟩

end Index

/-- Two terms that step to each other. -/
def Graph.spinning : Graph :=
  let x : TermId := ⟨"x", by decide⟩
  let y : TermId := ⟨"y", by decide⟩
  { terms := [x, y].map fun id => ⟨id, id.text, none⟩
    edges := [⟨x, y, "StepsTo"⟩, ⟨y, x, "StepsTo"⟩]
    root := x
    ending := .value y
    nodup_ids := by decide
    root_mem := by decide
    ending_mem := by decide
    ends_mem := by decide }

/-- From each of two terms that step to each other a walk to itself finds both steps. -/
theorem Index.path_to_itself_ne_nil :
    let x : TermId := ⟨"x", by decide⟩
    let y : TermId := ⟨"y", by decide⟩
    let index := ofGraph Graph.spinning
    index.path x x = [⟨x, y, "StepsTo"⟩, ⟨y, x, "StepsTo"⟩] ∧
      index.path y y = [⟨y, x, "StepsTo"⟩, ⟨x, y, "StepsTo"⟩] ∧ index.path x x ≠ [] := by
  decide +kernel

end ReductionStepper
