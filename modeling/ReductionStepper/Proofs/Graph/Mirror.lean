import Mathlib.Data.List.Find
import Mathlib.Data.Set.Function
import ReductionStepper.Proofs.Graph.Inside

/-!
# Mirrored graphs

Two graphs can answer alike up to a renaming of their terms: about a renamed term the one answers
what the other answers about the term, renamed. `Graph.Mirrors` compares the questions that
stepping asks, and those only: which steps, subterms and parents a term has, but neither in which
order its parents are listed nor what edges without a meaning there are. Walks along the steps go
the same way in both graphs.
-/

namespace ReductionStepper

/-! ## Renamed parts of a graph -/

/-- The term under its new id. -/
def Term.rename (f : TermId → TermId) (term : Term) : Term := { term with id := f term.id }

/-- The edge between the renamed ends. -/
def Edge.rename (f : TermId → TermId) (edge : Edge) : Edge :=
  { edge with source := f edge.source, target := f edge.target }

/-- The ending at the renamed term. -/
def Ending.rename (f : TermId → TermId) : Ending → Ending
  | .value term => .value (f term)
  | .stuck term reason => .stuck (f term) reason

/-- The walk over the renamed steps. -/
def Walk.rename (f : TermId → TermId) : Walk → Walk
  | .arrived path => .arrived (path.map (Edge.rename f))
  | .blocked => .blocked
  | .endless => .endless

section Rename

variable (f : TermId → TermId)

/-- New names leave the label of a term as it is. -/
@[simp] theorem Term.plainLabel_rename (term : Term) :
    (term.rename f).plainLabel = term.plainLabel := rfl

/-- The source of a renamed edge. -/
@[simp] theorem Edge.source_rename (edge : Edge) : (edge.rename f).source = f edge.source := rfl

/-- The target of a renamed edge. -/
@[simp] theorem Edge.target_rename (edge : Edge) : (edge.rename f).target = f edge.target := rfl

/-- New names leave the tags of an edge as they are. -/
@[simp] theorem Edge.has_rename (edge : Edge) (tag : Tag) :
    (edge.rename f).has tag = edge.has tag := rfl

/-- The last term of a renamed ending. -/
@[simp] theorem Ending.term_rename (ending : Ending) : (ending.rename f).term = f ending.term := by
  cases ending <;> rfl

/-- The path of a renamed walk. -/
@[simp] theorem Walk.path_rename (walk : Walk) :
    (walk.rename f).path = walk.path.map (Edge.rename f) := by
  cases walk <;> rfl

/-- A walk behind a step is renamed with the step. -/
@[simp] theorem Walk.rename_after (step : Edge) (walk : Walk) :
    (walk.after step).rename f = (walk.rename f).after (step.rename f) := by
  cases walk <;> rfl

/-- An edge that keeps its names stays as it is. -/
@[simp] theorem Edge.rename_id (edge : Edge) : edge.rename id = edge := rfl

/-- An ending that keeps its name stays as it is. -/
@[simp] theorem Ending.rename_id (ending : Ending) : ending.rename id = ending := by
  cases ending <;> rfl

/-- Renaming a path renames the terms along it. -/
theorem Index.pathTerms_map_rename (path : List Edge) :
    pathTerms (path.map (Edge.rename f)) = (pathTerms path).map f := by
  cases path <;> simp [pathTerms]

end Rename

/-! ## Graphs that answer alike -/

/-- About a renamed term the image answers what the graph answers about the term, renamed. The
renaming tells the terms of the graph apart. -/
structure Graph.Mirrors (f : TermId → TermId) (graph image : Graph) : Prop where
  injOn : Set.InjOn f {id | (Index.ofGraph graph).contains id = true}
  root_eq : image.root = f graph.root
  ending_eq : image.ending = graph.ending.rename f
  length_edges : image.edges.length = graph.edges.length
  term?_eq : ∀ id, (Index.ofGraph graph).contains id = true →
    (Index.ofGraph image).term? (f id) = ((Index.ofGraph graph).term? id).map (Term.rename f)
  step?_eq : ∀ id, (Index.ofGraph graph).contains id = true →
    (Index.ofGraph image).step? (f id) = ((Index.ofGraph graph).step? id).map (Edge.rename f)
  subterms_eq : ∀ id, (Index.ofGraph graph).contains id = true →
    (Index.ofGraph image).subterms (f id) = ((Index.ofGraph graph).subterms id).map f
  mem_parents_iff : ∀ id parent, (Index.ofGraph graph).contains id = true →
    (Index.ofGraph graph).contains parent = true →
    (f parent ∈ (Index.ofGraph image).parents (f id) ↔
      parent ∈ (Index.ofGraph graph).parents id)
  calls_eq : ∀ id, (Index.ofGraph graph).contains id = true →
    ((Index.ofGraph image).outgoing (f id) .stepsTo).any (·.has .callStep) =
      ((Index.ofGraph graph).outgoing id .stepsTo).any (·.has .callStep)
  hasStep_eq : ∀ source target, (Index.ofGraph graph).contains source = true →
    (Index.ofGraph graph).contains target = true →
    (Index.ofGraph image).hasStep (f source) (f target) =
      (Index.ofGraph graph).hasStep source target
  hasEdge_eq : ∀ source target, (Index.ofGraph graph).contains source = true →
    (Index.ofGraph graph).contains target = true →
    (Index.ofGraph image).hasEdge (f source) (f target) =
      (Index.ofGraph graph).hasEdge source target

namespace Index

variable {graph : Graph} {id source target : TermId} {step : Edge}

/-- The index knows where a step leads. -/
theorem contains_target_of_step? (h : (ofGraph graph).step? id = some step) :
    (ofGraph graph).contains step.target = true :=
  contains_target_of_mem_outgoing (step?_mem h)

/-- The next term is one of the graph. -/
theorem contains_of_next? {next : TermId} (h : (ofGraph graph).next? id = some next) :
    (ofGraph graph).contains next = true := by
  obtain ⟨step, hstep, rfl⟩ := Option.map_eq_some_iff.mp h
  exact contains_target_of_step? hstep

/-- The index knows both ends of each step of a path. -/
theorem contains_of_mem_path (h : step ∈ (ofGraph graph).path source target) :
    (ofGraph graph).contains step.source = true ∧ (ofGraph graph).contains step.target = true := by
  have hmem := (arrives_path (List.ne_nil_of_mem h)).leads.subset_edges h
  exact (graph.ends_mem step hmem).imp (contains_ofGraph graph _).mpr (contains_ofGraph graph _).mpr

/-- The index knows each term along a path. -/
theorem contains_of_mem_pathTerms (h : id ∈ pathTerms ((ofGraph graph).path source target)) :
    (ofGraph graph).contains id = true := by
  cases hpath : (ofGraph graph).path source target with
  | nil => simp [hpath, pathTerms] at h
  | cons first later =>
    rw [hpath, pathTerms, List.mem_cons, List.mem_map] at h
    rcases h with rfl | ⟨hop, hhop, rfl⟩
    · exact (contains_of_mem_path (hpath ▸ List.mem_cons_self)).1
    · exact (contains_of_mem_path (hpath ▸ hhop)).2

/-- The index knows the active subterm. -/
theorem contains_of_activeSubterm? (h : (ofGraph graph).activeSubterm? source target = some id) :
    (ofGraph graph).contains id = true := by
  obtain ⟨first, -, hfound⟩ := Option.bind_eq_some_iff.mp h
  exact contains_of_mem_subterms (List.mem_of_find?_eq_some hfound)

/-- The index knows the value of a term that it knows. -/
theorem contains_value (h : (ofGraph graph).contains id = true) :
    (ofGraph graph).contains ((ofGraph graph).value id) = true := by
  obtain ⟨path, hpath⟩ := leads_value (ofGraph graph) id
  exact hpath.contains h

end Index

namespace Graph.Mirrors

open Index

variable {f : TermId → TermId} {graph image : Graph} (h : graph.Mirrors f image)
  {id other source target : TermId}

include h

/-- The renaming does not confuse terms of the graph. -/
theorem eq_iff (hid : (ofGraph graph).contains id = true)
    (hother : (ofGraph graph).contains other = true) : f id = f other ↔ id = other :=
  h.injOn.eq_iff hid hother

/-- The image knows the terms of the graph under their new ids. -/
theorem contains (hid : (ofGraph graph).contains id = true) :
    (ofGraph image).contains (f id) = true := by
  rw [contains_eq_isSome] at hid ⊢
  rw [h.term?_eq id (contains_eq_isSome _ _ ▸ hid), Option.isSome_map]
  exact hid

/-- In the image the next term is the image of the next term. -/
theorem next?_eq (hid : (ofGraph graph).contains id = true) :
    (ofGraph image).next? (f id) = ((ofGraph graph).next? id).map f := by
  rw [next?, next?, h.step?_eq id hid, Option.map_map, Option.map_map]
  rfl

/-! ### Walks -/

private theorem walkWithin_eq (htarget : (ofGraph graph).contains target = true) {bound : Nat}
    (hsource : (ofGraph graph).contains source = true) :
    (ofGraph image).walkWithin (f target) bound (f source) =
      ((ofGraph graph).walkWithin target bound source).rename f := by
  induction bound generalizing source with
  | zero => rfl
  | succ bound ih =>
    rw [walkWithin, walkWithin, h.step?_eq source hsource]
    cases hstep : (ofGraph graph).step? source with
    | none => rfl
    | some step =>
      have hknown := contains_target_of_step? hstep
      simp only [Option.map_some, Edge.target_rename, h.eq_iff hknown htarget, ih hknown]
      split
      · rfl
      · exact (Walk.rename_after f _ _).symm

/-- The steps between renamed terms are the renamed steps between the terms. -/
theorem path_eq (hsource : (ofGraph graph).contains source = true)
    (htarget : (ofGraph graph).contains target = true) :
    (ofGraph image).path (f source) (f target) =
      ((ofGraph graph).path source target).map (Edge.rename f) := by
  have hbound : (ofGraph image).walkBound = (ofGraph graph).walkBound :=
    congrArg (· + 1) h.length_edges
  rw [path, walk, hbound, h.walkWithin_eq htarget hsource, Walk.path_rename]
  rfl

private theorem term_settleWithin_eq {bound : Nat} (hid : (ofGraph graph).contains id = true) :
    ((ofGraph image).settleWithin bound (f id)).term =
      f ((ofGraph graph).settleWithin bound id).term := by
  induction bound generalizing id with
  | zero => rfl
  | succ bound ih =>
    rw [settleWithin, settleWithin, h.next?_eq hid]
    cases hnext : (ofGraph graph).next? id with
    | none => rfl
    | some next => exact ih (contains_of_next? hnext)

/-- The value of a renamed term is the renamed value of the term. -/
theorem value_eq (hid : (ofGraph graph).contains id = true) :
    (ofGraph image).value (f id) = f ((ofGraph graph).value id) := by
  have hbound : (ofGraph image).walkBound = (ofGraph graph).walkBound :=
    congrArg (· + 1) h.length_edges
  rw [value, settle, hbound]
  exact h.term_settleWithin_eq hid

/-! ### Subterms -/

/-- In the image a term has the images of its parents, and of no other term, as parents. -/
theorem contains_parents_eq (hid : (ofGraph graph).contains id = true)
    (hother : (ofGraph graph).contains other = true) :
    ((ofGraph image).parents (f id)).contains (f other) =
      ((ofGraph graph).parents id).contains other := by
  rw [Bool.eq_iff_iff, List.contains_iff_mem, List.contains_iff_mem]
  exact h.mem_parents_iff id other hid hother

/-- The active subterm of a renamed term is the renamed active subterm of the term. -/
theorem activeSubterm?_eq (hsource : (ofGraph graph).contains source = true)
    (htarget : (ofGraph graph).contains target = true) :
    (ofGraph image).activeSubterm? (f source) (f target) =
      ((ofGraph graph).activeSubterm? source target).map f := by
  rw [activeSubterm?, activeSubterm?, h.path_eq hsource htarget, List.head?_map,
    h.subterms_eq source hsource]
  cases hfirst : ((ofGraph graph).path source target).head? with
  | none => rfl
  | some first =>
    have hknown := (contains_of_mem_path (List.mem_of_mem_head? hfirst)).2
    simp only [Option.map_some, Option.bind_eq_bind, Option.bind_some, List.find?_map]
    congr 1
    apply List.find?_congr
    intro subterm hsubterm
    rw [Function.comp_apply, h.next?_eq (contains_of_mem_subterms hsubterm)]
    cases hnext : (ofGraph graph).next? subterm with
    | none => rfl
    | some next => exact h.contains_parents_eq (contains_of_next? hnext) hknown

end Graph.Mirrors

end ReductionStepper
