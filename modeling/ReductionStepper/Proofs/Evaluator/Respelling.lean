import ReductionStepper.Proofs.Evaluator.Acceptance
import ReductionStepper.Proofs.Text.Numeral

/-!
# Names spelled another way

A number and its decimal form name the same term, and apart from them no two names do. What a reply
means depends on the terms that it names only: with any of its names spelled the other way, wherever
they stand and in whatever mixture, it has the same outcome.
-/

namespace ReductionStepper.Reply

open Text (IsDecimal)

/-- A name as it is, a number as its decimal form, or a decimal form as its number. -/
inductive Name.Respells : Name → Name → Prop where
  | same (name : Name) : Respells name name
  | written {n : UInt64} {text : String} (h : IsDecimal text.toList n.toNat) :
      Respells (.number n) (.text text)
  | counted {n : UInt64} {text : String} (h : IsDecimal text.toList n.toNat) :
      Respells (.text text) (.number n)

/-- A node with its name respelled. -/
structure Node.Respells (node other : Node) : Prop where
  id : node.id.Respells other.id
  label_eq : node.label = other.label
  span_eq : node.span = other.span

/-- An arrow with the names of its ends respelled. -/
structure Arrow.Respells (arrow other : Arrow) : Prop where
  source : arrow.source.Respells other.source
  target : arrow.target.Respells other.target
  label_eq : arrow.label = other.label

/-- A reply with its names respelled. -/
inductive Respells : Reply → Reply → Prop where
  | value {nodes nodes' : List Node} {edges edges' : List Arrow} {root root' last last' : Name}
      (hnodes : List.Forall₂ Node.Respells nodes nodes')
      (hedges : List.Forall₂ Arrow.Respells edges edges') (hroot : root.Respells root')
      (hlast : last.Respells last') :
      Respells (.value nodes edges root last) (.value nodes' edges' root' last')
  | stuck {nodes nodes' : List Node} {edges edges' : List Arrow} {root root' : Name}
      {last last' bad bad' : Option Name} {reason : String}
      (hnodes : List.Forall₂ Node.Respells nodes nodes')
      (hedges : List.Forall₂ Arrow.Respells edges edges') (hroot : root.Respells root')
      (hlast : Option.Rel Name.Respells last last') (hbad : Option.Rel Name.Respells bad bad') :
      Respells (.stuck nodes edges root last bad reason)
        (.stuck nodes' edges' root' last' bad' reason)
  | timeout (root : Option Json) : Respells (.timeout root) (.timeout root)
  | parseError (error : String) : Respells (.parseError error) (.parseError error)

variable {name other : Name}

/-! ## Names -/

/-- The decimal form of a number is what is written for it. -/
theorem Name.isDecimal_iff {n : UInt64} {text : String} :
    IsDecimal text.toList n.toNat ↔ (number n).written = text := by
  rw [Text.isDecimal_iff, ← Nat.toList_repr, String.toList_inj]
  exact eq_comm

/-- Numbers with the same decimal form are the same. -/
theorem Name.written_number_inj {m n : UInt64} :
    (number m).written = (number n).written ↔ m = n := by
  constructor
  · intro h
    exact UInt64.toNat_inj.mp ((isDecimal_iff.mpr h).value.symm.trans (isDecimal_iff.mpr rfl).value)
  · rintro rfl
    rfl

/-- Names are respelled exactly if the same is written for them. -/
theorem Name.respells_iff : name.Respells other ↔ name.written = other.written := by
  constructor
  · rintro (_ | h | h)
    · rfl
    · exact isDecimal_iff.mp h
    · exact (isDecimal_iff.mp h).symm
  · intro h
    cases name with
    | number m =>
      cases other with
      | number n =>
        obtain rfl : m = n := written_number_inj.mp h
        exact .same _
      | text text => exact .written (isDecimal_iff.mpr h)
    | text text =>
      cases other with
      | number n => exact .counted (isDecimal_iff.mpr h.symm)
      | text text' =>
        obtain rfl : text = text' := h
        exact .same _

/-- Names stand for the same term exactly if one respells the other. -/
theorem Name.termId_eq_iff : name.termId = other.termId ↔ name.Respells other := by
  rw [respells_iff]
  constructor
  · intro h
    cases hother : other.termId with
    | ok id =>
      rw [hother] at h
      exact (termId_eq_ok_iff.mp h).symm.trans (termId_eq_ok_iff.mp hother)
    | error error =>
      rw [hother] at h
      exact (termId_eq_error_iff.mp h).2.trans (termId_eq_error_iff.mp hother).2.symm
  · intro h
    rw [termId, termId, termId?_eq, termId?_eq, h]

private theorem Name.Respells.termId_eq (h : name.Respells other) : name.termId = other.termId :=
  termId_eq_iff.mpr h

/-! ## Replies -/

private theorem Node.Respells.term_eq {node other : Node} (h : node.Respells other) :
    node.term = other.term := by
  rw [Node.term, Node.term, h.id.termId_eq, h.label_eq, h.span_eq]

private theorem Arrow.Respells.edge_eq {arrow other : Arrow} (h : arrow.Respells other) :
    arrow.edge = other.edge := by
  rw [Arrow.edge, Arrow.edge, h.source.termId_eq, h.target.termId_eq, h.label_eq]

private theorem graph_eq_of_respells {nodes nodes' : List Node} {edges edges' : List Arrow}
    {root root' : Name} (hnodes : List.Forall₂ Node.Respells nodes nodes')
    (hedges : List.Forall₂ Arrow.Respells edges edges') (hroot : root.Respells root')
    (ending : Ending) :
    Reply.graph nodes edges root ending = Reply.graph nodes' edges' root' ending := by
  have hterms : nodes.mapM Node.term = nodes'.mapM Node.term :=
    Fallible.mapM_eq_mapM_of_forall₂ (fun _ _ => Node.Respells.term_eq) hnodes
  have hedges : edges.mapM Arrow.edge = edges'.mapM Arrow.edge :=
    Fallible.mapM_eq_mapM_of_forall₂ (fun _ _ => Arrow.Respells.edge_eq) hedges
  rw [Reply.graph, Reply.graph, hterms, hedges, hroot.termId_eq]

/-- Of two names that may be missing the one that counts is respelled with them. -/
theorem rel_or {last last' bad bad' : Option Name} (hlast : Option.Rel Name.Respells last last')
    (hbad : Option.Rel Name.Respells bad bad') :
    Option.Rel Name.Respells (last.or bad) (last'.or bad') := by
  cases hlast with
  | none => exact hbad
  | some h => exact .some h

/-- A reply with its names respelled has the same outcome. -/
theorem Respells.outcome_eq {reply other : Reply} (h : reply.Respells other) :
    reply.outcome = other.outcome := by
  cases h with
  | timeout | parseError => rfl
  | value hnodes hedges hroot hlast =>
    simp only [outcome, hlast.termId_eq, graph_eq_of_respells hnodes hedges hroot]
  | @stuck _ _ _ _ _ _ last last' bad bad' _ hnodes hedges hroot hlast hbad =>
    have hname := rel_or hlast hbad
    simp only [outcome]
    generalize last.or bad = name, last'.or bad' = name' at hname
    cases hname with
    | none => rfl
    | some hname => simp only [hname.termId_eq, graph_eq_of_respells hnodes hedges hroot]

/-- Replies that differ only in whether names are numbers or their decimal forms have the same
outcome, whether it is a graph with its diagnostics or an error. A number and a text stand for the
same term exactly if the text is the decimal form of the number, and two numbers only if they are
equal. -/
theorem respelled_names_agree :
    (∀ reply other : Reply, reply.Respells other → reply.outcome = other.outcome) ∧
      (∀ (n : UInt64) (text : String),
        (Name.number n).termId = (Name.text text).termId ↔ IsDecimal text.toList n.toNat) ∧
      ∀ m n : UInt64, (Name.number m).termId = (Name.number n).termId ↔ m = n := by
  refine ⟨fun _ _ => Respells.outcome_eq, fun n text => ?_, fun m n => ?_⟩
  · rw [Name.termId_eq_iff, Name.respells_iff, Name.isDecimal_iff]
    rfl
  · rw [Name.termId_eq_iff, Name.respells_iff, Name.written_number_inj]

/-- Zeros before a number make another name of it. -/
example : (Name.number 7).termId = (Name.text "7").termId ∧
    (Name.number 7).termId ≠ (Name.text "007").termId := by
  decide

end ReductionStepper.Reply
