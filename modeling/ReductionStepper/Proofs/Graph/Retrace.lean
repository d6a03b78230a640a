import Mathlib.Data.List.Induction
import ReductionStepper.Proofs.Graph.Inside

/-!
# Paths walked back

Where no two steps enter a term, the one that enters it is the last step of every path to it. Going
back from the end of a path therefore passes its steps in reverse, and since a walk leaves every
term once, it comes to the start of the path with the last of them and not before.
-/

namespace ReductionStepper

namespace Index

/-- The step that a term is entered by: of several the first. -/
def arrival? (index : Index) (id : TermId) : Option Edge := (index.incoming id .stepsTo).head?

/-- Goes back from a term by a number of steps: the steps as they are passed, and the term that is
reached. -/
def retrace? (index : Index) : Nat → TermId → Option (List Edge × TermId)
  | 0, id => some ([], id)
  | count + 1, id => do
    let step ← index.arrival? id
    let (later, start) ← retrace? index count step.source
    return (step :: later, start)

variable {graph : Graph} {source target id : TermId} {step : Edge} {path : List Edge}

/-- A step enters the term that it leads to. -/
theorem mem_incoming_of_step? (h : (ofGraph graph).step? id = some step) :
    step ∈ (ofGraph graph).incoming step.target .stepsTo := by
  obtain ⟨hedge, -, htag⟩ := mem_outgoing.mp (step?_mem h)
  exact mem_incoming.mpr ⟨hedge, rfl, htag⟩

section Single

variable (hsingle : ∀ id, ((ofGraph graph).incoming id .stepsTo).length ≤ 1)

include hsingle

/-- The only step into a term is the one that led there. -/
theorem arrival?_of_step? (h : (ofGraph graph).step? id = some step) :
    (ofGraph graph).arrival? step.target = some step := by
  have hmem := mem_incoming_of_step? h
  have hone := hsingle step.target
  unfold arrival?
  match hlist : (ofGraph graph).incoming step.target .stepsTo with
  | [] => simp [hlist] at hmem
  | [only] =>
    rw [hlist, List.mem_singleton] at hmem
    rw [hmem, List.head?_cons]
  | _ :: _ :: _ => simp [hlist] at hone

/-- Going back over as many steps as a path has passes the path in reverse. -/
theorem Leads.retrace?_eq (h : Leads (ofGraph graph) source path target) :
    (ofGraph graph).retrace? path.length target = some (path.reverse, source) := by
  induction path using List.reverseRecOn generalizing target with
  | nil =>
    rw [nil_iff.mp h]
    rfl
  | append_singleton path last ih =>
    obtain ⟨middle, hpath, hlast⟩ := append_iff.mp h
    obtain ⟨hstep, hend⟩ := cons_iff.mp hlast
    obtain rfl := nil_iff.mp hend
    rw [List.length_append, List.length_singleton, retrace?, arrival?_of_step? hsingle hstep,
      Option.bind_eq_bind, Option.bind_some, source_of_step? hstep, ih hpath]
    simp

/-- The way back over some steps of a path, but not all, ends short of its start. -/
theorem retrace?_path_of_lt (hdistinct : source ≠ target) {count : Nat}
    (hcount : count < ((ofGraph graph).path source target).length) :
    ∃ steps id, (ofGraph graph).retrace? count target = some (steps, id) ∧ id ≠ source := by
  set path := (ofGraph graph).path source target with hpath
  obtain ⟨before, after, hsplit, hafter⟩ :
      ∃ before after, path = before ++ after ∧ after.length = count :=
    ⟨_, _, (path.take_append_drop (path.length - count)).symm, by rw [List.length_drop]; omega⟩
  have hbefore : before ≠ [] := by
    rintro rfl
    rw [hsplit, List.nil_append] at hcount
    omega
  have hleads : Leads (ofGraph graph) source path target :=
    (arrives_path (List.length_pos_iff.mp (Nat.zero_lt_of_lt hcount))).leads
  rw [hsplit] at hleads
  obtain ⟨middle, -, hrest⟩ := Leads.append_iff.mp hleads
  refine ⟨after.reverse, middle, hafter ▸ hrest.retrace?_eq hsingle, ?_⟩
  cases after with
  | nil =>
    rw [Leads.nil_iff.mp hrest]
    exact hdistinct.symm
  | cons hop rest =>
    rw [← source_of_step? (Leads.cons_iff.mp hrest).1]
    exact (inside_source (hpath.symm.trans hsplit) hbefore).2.1

end Single

/-- Where no two steps enter a term, the steps from one term to another are those that are passed on
the way back from the other: going back by the step that enters each term comes to the first term
after as many steps and no earlier, and has then passed exactly these steps in reverse. -/
theorem retraced_steps_are_path (graph : Graph)
    (hsingle : ∀ id, ((ofGraph graph).incoming id .stepsTo).length ≤ 1) {source target : TermId}
    (hdistinct : source ≠ target) (hfound : (ofGraph graph).path source target ≠ []) :
    let index := ofGraph graph
    let path := index.path source target
    (∃ steps, index.retrace? path.length target = some (steps, source) ∧ steps.reverse = path) ∧
      ∀ count < path.length, ∃ steps id, index.retrace? count target = some (steps, id) ∧
        id ≠ source := by
  intro index path
  have hleads : Leads index source path target := (arrives_path hfound).leads
  exact ⟨⟨path.reverse, hleads.retrace?_eq hsingle, path.reverse_reverse⟩,
    fun _ hcount => retrace?_path_of_lt hsingle hdistinct hcount⟩

end Index

/-- An evaluation of two steps from `o` to `q`. The first term has a second step, which does not
count, and beside them a term steps to itself. -/
def Graph.forked : Graph :=
  let id (text : String) (h : text ≠ "") : TermId := ⟨text, h⟩
  let o := id "o" (by decide)
  let p := id "p" (by decide)
  let q := id "q" (by decide)
  let i := id "i" (by decide)
  let l := id "l" (by decide)
  { terms := [o, p, q, i, l].map fun id => ⟨id, id.text, none⟩
    edges :=
      [⟨o, q, "SubTerm"⟩, ⟨o, p, "StepsTo"⟩, ⟨o, i, "StepsTo"⟩, ⟨p, q, "StepsTo"⟩,
        ⟨l, l, "StepsTo"⟩]
    root := o
    ending := .value q
    nodup_ids := by decide
    root_mem := by decide
    ending_mem := by decide
    ends_mem := by decide }

/-- Two steps back from `q` are `o` and the steps to `q`. -/
theorem Index.retraced_steps_are_path_forked :
    let o : TermId := ⟨"o", by decide⟩
    let p : TermId := ⟨"p", by decide⟩
    let q : TermId := ⟨"q", by decide⟩
    let index := ofGraph Graph.forked
    (∀ id, (index.incoming id .stepsTo).length ≤ 1) ∧ o ≠ q ∧
      index.path o q = [⟨o, p, "StepsTo"⟩, ⟨p, q, "StepsTo"⟩] ∧
      (∃ steps, index.retrace? 2 q = some (steps, o) ∧ steps.reverse = index.path o q) ∧
      ∀ count < 2, ∃ steps id, index.retrace? count q = some (steps, id) ∧ id ≠ o := by
  intro o p q index
  have hsingle : ∀ id, (index.incoming id .stepsTo).length ≤ 1 :=
    length_incoming_le_one (by decide +kernel)
  have hdistinct : o ≠ q := by decide
  have hpath : index.path o q = [⟨o, p, "StepsTo"⟩, ⟨p, q, "StepsTo"⟩] := by decide +kernel
  have hfound : index.path o q ≠ [] := hpath ▸ List.cons_ne_nil _ _
  have hlength : (index.path o q).length = 2 := congrArg List.length hpath
  obtain ⟨hback, hearlier⟩ := retraced_steps_are_path Graph.forked hsingle hdistinct hfound
  exact ⟨hsingle, hdistinct, hpath, hlength ▸ hback, hlength ▸ hearlier⟩

end ReductionStepper
