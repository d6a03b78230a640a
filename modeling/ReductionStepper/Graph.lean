import ReductionStepper.Edge

/-!
# Reduction graphs

A reduction graph holds the terms and edges of one evaluation, the term that it started from and
how it ended. Its ids are distinct, and root, ending and edges name terms of the graph; nothing is
assumed about the steps themselves. `Graph.ofParts` names the first condition that fails.
-/

namespace ReductionStepper

/-- How an evaluation ended. -/
inductive Ending where
  | value (term : TermId)
  | stuck (term : TermId) (reason : String)
  deriving DecidableEq

namespace Ending

/-- The last term. -/
def term : Ending → TermId
  | .value term => term
  | .stuck term _ => term

/-- Whether the evaluation got stuck. -/
def isStuck : Ending → Bool
  | .value _ => false
  | .stuck _ _ => true

end Ending

/-- A reduction graph. -/
structure Graph where
  terms : List Term
  edges : List Edge
  root : TermId
  ending : Ending
  nodup_ids : (terms.map Term.id).Nodup
  root_mem : root ∈ terms.map Term.id
  ending_mem : ending.term ∈ terms.map Term.id
  ends_mem : ∀ edge ∈ edges, edge.source ∈ terms.map Term.id ∧ edge.target ∈ terms.map Term.id

/-- Why parts do not make a reduction graph. -/
inductive GraphError where
  | duplicateTerm (id : TermId)
  | unknownRoot (id : TermId)
  | unknownEnding (id : TermId)
  | unknownEnd (source target missing : TermId)
  deriving DecidableEq

/-- The text of an error. -/
def GraphError.message : GraphError → String
  | .duplicateTerm id => s!"duplicate term id {id.text}"
  | .unknownRoot id => s!"root term {id.text} is not in the graph"
  | .unknownEnding id => s!"final term {id.text} is not in the graph"
  | .unknownEnd source target missing =>
    s!"edge {source.text} -> {target.text} references unknown term {missing.text}"

namespace Graph

/-- The ids of the terms in order. -/
def ids (graph : Graph) : List TermId := graph.terms.map Term.id

/-- The first id that occurred before, given the ids seen so far. -/
def firstRepeat? (seen : List TermId) : List TermId → Option TermId
  | [] => none
  | id :: later => if id ∈ seen then some id else firstRepeat? (id :: seen) later

/-- Ids without a repeat are distinct, and none of them was seen before. -/
theorem nodup_of_firstRepeat?_eq_none {seen ids : List TermId}
    (h : firstRepeat? seen ids = none) : ids.Nodup ∧ ∀ id ∈ ids, id ∉ seen := by
  induction ids generalizing seen with
  | nil => simp
  | cons id later ih =>
    rw [firstRepeat?] at h
    split at h
    · simp at h
    · next hid =>
      obtain ⟨hnodup, hseen⟩ := ih h
      refine ⟨List.nodup_cons.2 ⟨fun hmem => hseen id hmem (by simp), hnodup⟩, ?_⟩
      intro x hx
      rcases List.mem_cons.1 hx with rfl | hx
      · exact hid
      · exact fun hmem => hseen x hx (List.mem_cons_of_mem _ hmem)

/-- The first edge with an end outside the ids; of its two ends the source comes first. -/
def firstDangling? (ids : List TermId) : List Edge → Option (Edge × TermId)
  | [] => none
  | edge :: later =>
    if edge.source ∉ ids then some (edge, edge.source)
    else if edge.target ∉ ids then some (edge, edge.target)
    else firstDangling? ids later

private theorem ends_mem_of_firstDangling?_eq_none {ids : List TermId} {edges : List Edge}
    (h : firstDangling? ids edges = none) :
    ∀ edge ∈ edges, edge.source ∈ ids ∧ edge.target ∈ ids := by
  induction edges with
  | nil => simp
  | cons edge later ih =>
    rw [firstDangling?] at h
    split at h
    · simp at h
    · next hsource =>
      split at h
      · simp at h
      · next htarget =>
        intro x hx
        rcases List.mem_cons.1 hx with rfl | hx
        · exact ⟨Decidable.not_not.1 hsource, Decidable.not_not.1 htarget⟩
        · exact ih h x hx

/-- The reduction graph of the given parts, or the first of its conditions that fails: distinct
ids, a known root, a known ending, and known ends of every edge. -/
def ofParts (terms : List Term) (edges : List Edge) (root : TermId) (ending : Ending) :
    Except GraphError Graph :=
  match hrepeat : firstRepeat? [] (terms.map Term.id) with
  | some id => .error (.duplicateTerm id)
  | none =>
    if hroot : root ∉ terms.map Term.id then .error (.unknownRoot root)
    else if hending : ending.term ∉ terms.map Term.id then .error (.unknownEnding ending.term)
    else
      match hends : firstDangling? (terms.map Term.id) edges with
      | some (edge, missing) => .error (.unknownEnd edge.source edge.target missing)
      | none =>
        .ok
          { terms, edges, root, ending
            nodup_ids := (nodup_of_firstRepeat?_eq_none hrepeat).1
            root_mem := Decidable.not_not.1 hroot
            ending_mem := Decidable.not_not.1 hending
            ends_mem := ends_mem_of_firstDangling?_eq_none hends }

end Graph

end ReductionStepper
