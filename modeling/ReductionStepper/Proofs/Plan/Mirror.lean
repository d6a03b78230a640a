import ReductionStepper.Proofs.Plan.Armed
import ReductionStepper.Proofs.View.Mirror

/-!
# Mirrored plans

Each rule finds for a renamed term in the renamed view what it finds for the term, renamed: the
rules ask the index for steps, subterms and parents and the view for shown terms and links, and
nothing else. Applying a renamed plan then makes the renamed change or fails with the renamed
error.
-/

namespace ReductionStepper

/-! ## Renamed parts of a plan -/

/-- The split at the renamed term. -/
def Split.rename (f : TermId → TermId) (split : Split) : Split :=
  ⟨f split.destination, split.replacing.rename f⟩

/-- The pair of the renamed terms. -/
def Pair.rename (f : TermId → TermId) (pair : Pair) : Pair := ⟨f pair.subterm, f pair.value⟩

/-- The plan that arms what is renamed. -/
def Plan.rename (f : TermId → TermId) (plan : Plan) : Plan :=
  { stepForward := plan.stepForward.map (Split.rename f)
    stepBackward := plan.stepBackward.map (Split.rename f)
    jumpForward := plan.jumpForward.map (Split.rename f)
    jumpBackward := plan.jumpBackward.map (Split.rename f)
    stepInto := plan.stepInto.map (Pair.rename f)
    stepOver := plan.stepOver.map (Split.rename f) }

/-- The error about the renamed terms. -/
def NavigationError.rename (f : TermId → TermId) : NavigationError → NavigationError
  | .nothingSelected => .nothingSelected
  | .notVisible id => .notVisible (f id)
  | .notArmed action => .notArmed action
  | .refused error => .refused (error.rename f)

/-- The renamed change and the renamed view after it, or the renamed error. -/
def View.renameMade {ε : Type} (renameError : ε → ε) (f : TermId → TermId) :
    Except ε (Change × View) → Except ε (Change × View)
  | .error error => .error (renameError error)
  | .ok (change, view) => .ok (change.rename f, view.rename f)

section Rename

variable (f : TermId → TermId)

/-- A renamed plan arms the renamed splits. -/
@[simp] theorem Plan.split?_rename (plan : Plan) (action : Action) :
    (plan.rename f).split? action = (plan.split? action).map (Split.rename f) := by
  cases action <;> rfl

/-- A renamed plan steps into the renamed pair. -/
@[simp] theorem Plan.stepInto_rename (plan : Plan) :
    (plan.rename f).stepInto = plan.stepInto.map (Pair.rename f) := rfl

private theorem NavigationError.ofView_renameMade (result : Except ViewError (Change × View)) :
    ofView (View.renameMade (ViewError.rename f) f result) =
      View.renameMade (NavigationError.rename f) f (ofView result) := by
  cases result <;> rfl

/-- A split that keeps its names stays as it is. -/
@[simp] theorem Split.rename_id : Split.rename id = id := rfl

/-- A pair that keeps its names stays as it is. -/
@[simp] theorem Pair.rename_id : Pair.rename id = id := rfl

/-- A plan that keeps its names stays as it is. -/
@[simp] theorem Plan.rename_id (plan : Plan) : plan.rename id = plan := by
  simp [Plan.rename]

/-- An error that keeps its names stays as it is. -/
@[simp] theorem NavigationError.rename_id (error : NavigationError) : error.rename id = error := by
  cases error <;> simp [NavigationError.rename]

end Rename

namespace Graph.Mirrors

open View Plan

variable {f : TermId → TermId} {graph image : Graph} (h : graph.Mirrors f image) {view : View}
  {id : TermId}

include h

/-! ## Changes of a view -/

section Made

variable (hview : Grown (Index.ofGraph graph) view)

include hview

/-- Splitting a shown link at a renamed term makes the renamed change or is refused alike. -/
theorem split_eq {node : TermId} {replacing : Link}
    (hnode : (Index.ofGraph graph).contains node = true)
    (hlink : view.showsLink replacing = true) :
    (view.rename f).split (Index.ofGraph image) (f node) (replacing.rename f) =
      renameMade (ViewError.rename f) f (view.split (Index.ofGraph graph) node replacing) := by
  have hlink' : (view.rename f).showsLink (replacing.rename f) = true := by
    rwa [h.showsLink_eq hview (hview.contains_ends hlink)]
  cases hshown : view.shows node with
  | true =>
    simp [View.split, splitError?, hiddenError?, h.shows_eq hview hnode, h.contains hnode, hnode,
      hshown, renameMade, ViewError.rename]
  | false =>
    have hchange := Admits.split hnode hshown hlink
    simp [View.split, splitError?, hiddenError?, h.shows_eq hview hnode, h.contains hnode, hnode,
      hshown, hlink, hlink', renameMade, h.rename_record hview hchange,
      h.rename_splitting hview hnode hlink]

/-- Two hidden terms that fit as a pair fit renamed. -/
theorem pair_eq {pair : Pair} (hpair : pair.Fits (Index.ofGraph graph) view) :
    (view.rename f).pair (Index.ofGraph image) (f pair.subterm) (f pair.value) =
      renameMade (ViewError.rename f) f
        (view.pair (Index.ofGraph graph) pair.subterm pair.value) := by
  obtain ⟨-, hne, ⟨hsubterm, hvalue⟩, hhidden, hhidden'⟩ := hpair
  have hchange := Admits.pair hne hsubterm hvalue hhidden hhidden'
  have hmade := pair_eq_ok_iff.mpr ⟨⟨hne, ⟨hsubterm, hhidden⟩, hvalue, hhidden'⟩, rfl, rfl⟩
  rw [hmade, renameMade, h.rename_record hview hchange, h.rename_pairing hsubterm hvalue]
  refine pair_eq_ok_iff.mpr ⟨⟨?_, ⟨h.contains hsubterm, ?_⟩, h.contains hvalue, ?_⟩, rfl, rfl⟩
  · exact fun heq => hne ((h.eq_iff hsubterm hvalue).mp heq)
  · rwa [h.shows_eq hview hsubterm]
  · rwa [h.shows_eq hview hvalue]

end Made

/-! ## Rules -/

/-- The first subterm that makes a call. -/
theorem callingSubterm?_eq (hid : (Index.ofGraph graph).contains id = true) :
    callingSubterm? (Index.ofGraph image) (f id) =
      (callingSubterm? (Index.ofGraph graph) id).map f := by
  rw [callingSubterm?, callingSubterm?, h.subterms_eq id hid, List.find?_map]
  congr 1
  apply List.find?_congr
  intro subterm hsubterm
  exact h.calls_eq subterm (Index.contains_of_mem_subterms hsubterm)

section Rules

variable (hview : Grown (Index.ofGraph graph) view)

include hview

private theorem firstStop?_eq {hops : List Edge}
    (hhops : ∀ hop ∈ hops, (Index.ofGraph graph).contains hop.target = true) :
    firstStop? (view.rename f) (hops.map (Edge.rename f)) = (firstStop? view hops).map f := by
  induction hops with
  | nil => rfl
  | cons hop later ih =>
    obtain ⟨hhop, hlater⟩ := List.forall_mem_cons.mp hhops
    simp only [List.map_cons, firstStop?, Edge.target_rename, Edge.source_rename, Edge.has_rename,
      h.shows_eq hview hhop, ih hlater]
    split_ifs <;> rfl

private theorem lastCall?_eq {hops : List Edge}
    (hhops : ∀ hop ∈ hops, (Index.ofGraph graph).contains hop.source = true) :
    lastCall? (view.rename f) (hops.map (Edge.rename f)) = (lastCall? view hops).map f := by
  induction hops with
  | nil => rfl
  | cons hop earlier ih =>
    obtain ⟨hhop, hearlier⟩ := List.forall_mem_cons.mp hhops
    simp only [List.map_cons, lastCall?, Edge.source_rename, Edge.has_rename,
      h.shows_eq hview hhop, ih hearlier]
    split_ifs <;> rfl

variable (hid : (Index.ofGraph graph).contains id = true)

include hid

private theorem stepForward?_eq :
    stepForward? (Index.ofGraph image) (view.rename f) (f id) =
      (stepForward? (Index.ofGraph graph) view id).map (Split.rename f) := by
  rw [stepForward?, stepForward?, h.next?_eq hid]
  cases hnext : (Index.ofGraph graph).next? id with
  | none => rfl
  | some next =>
    simp only [Option.map_some, Option.bind_eq_bind, Option.bind_some,
      h.shows_eq hview (Index.contains_of_next? hnext), h.soleOutgoing?_eq hview hid]
    split
    · rfl
    · cases view.soleOutgoing? id <;> rfl

private theorem stepBackward?_eq :
    stepBackward? (Index.ofGraph image) (view.rename f) (f id) =
      (stepBackward? (Index.ofGraph graph) view id).map (Split.rename f) := by
  rw [stepBackward?, stepBackward?, h.soleIncoming?_eq hview hid]
  cases hsole : view.soleIncoming? id with
  | none => rfl
  | some link =>
    obtain ⟨hlink, -⟩ := hview.laidOut.soleIncoming?_eq_some_iff.mp hsole
    obtain ⟨hsource, htarget⟩ := hview.contains_ends hlink
    simp only [Option.map_some, Option.bind_eq_bind, Option.bind_some, Link.source_rename,
      Link.target_rename, h.path_eq hsource htarget, List.length_map, List.getLast?_map]
    split
    · rfl
    · cases ((Index.ofGraph graph).path link.source link.target).getLast? <;> rfl

private theorem jumpForward?_eq :
    jumpForward? (Index.ofGraph image) (view.rename f) (f id) =
      (jumpForward? (Index.ofGraph graph) view id).map (Split.rename f) := by
  rw [jumpForward?, jumpForward?, h.soleOutgoing?_eq hview hid]
  cases hsole : view.soleOutgoing? id with
  | none => rfl
  | some link =>
    obtain ⟨hlink, -⟩ := hview.laidOut.soleOutgoing?_eq_some_iff.mp hsole
    obtain ⟨hsource, htarget⟩ := hview.contains_ends hlink
    simp only [Option.map_some, Option.bind_eq_bind, Option.bind_some, Link.source_rename,
      Link.target_rename, h.path_eq hsource htarget]
    cases hpath : (Index.ofGraph graph).path link.source link.target with
    | nil => rfl
    | cons first later =>
      have hlater : ∀ hop ∈ later, (Index.ofGraph graph).contains hop.target = true :=
        fun hop hhop => (Index.contains_of_mem_path (hpath ▸ List.mem_cons_of_mem _ hhop)).2
      cases later with
      | nil => rfl
      | cons second rest =>
        simp only [List.map_cons, Edge.has_rename, Edge.target_rename]
        rw [← List.map_cons, h.firstStop?_eq hview hlater]
        by_cases hreturn : first.has .returnStep = true
        · simp [hreturn, Split.rename]
        · cases firstStop? view (second :: rest) <;> simp [hreturn, Split.rename]

private theorem jumpBackward?_eq :
    jumpBackward? (Index.ofGraph image) (view.rename f) (f id) =
      (jumpBackward? (Index.ofGraph graph) view id).map (Split.rename f) := by
  rw [jumpBackward?, jumpBackward?, h.soleIncoming?_eq hview hid]
  cases hsole : view.soleIncoming? id with
  | none => rfl
  | some link =>
    obtain ⟨hlink, -⟩ := hview.laidOut.soleIncoming?_eq_some_iff.mp hsole
    obtain ⟨hsource, htarget⟩ := hview.contains_ends hlink
    have hhops : ∀ hop ∈ ((Index.ofGraph graph).path link.source link.target).dropLast.reverse,
        (Index.ofGraph graph).contains hop.source = true := fun hop hhop =>
      (Index.contains_of_mem_path (List.dropLast_subset _ (List.mem_reverse.mp hhop))).1
    simp only [Option.map_some, Option.bind_eq_bind, Option.bind_some, Link.source_rename,
      Link.target_rename, h.path_eq hsource htarget, ← List.map_dropLast, ← List.map_reverse,
      h.lastCall?_eq hview hhops]
    cases lastCall? view ((Index.ofGraph graph).path link.source link.target).dropLast.reverse <;>
      rfl

private theorem stepInto?_eq :
    stepInto? (Index.ofGraph image) (view.rename f) (f id) =
      (stepInto? (Index.ofGraph graph) view id).map (Pair.rename f) := by
  rw [stepInto?, stepInto?, h.callingSubterm?_eq hid]
  cases hcalling : callingSubterm? (Index.ofGraph graph) id with
  | none => rfl
  | some subterm =>
    have hsubterm := Index.contains_of_mem_subterms (List.mem_of_find?_eq_some hcalling)
    have hvalue := Index.contains_value hsubterm
    simp only [Option.map_some, Option.bind_eq_bind, Option.bind_some, h.value_eq hsubterm,
      h.eq_iff hvalue hsubterm, h.shows_eq hview hsubterm, h.shows_eq hview hvalue]
    split <;> rfl

private theorem stepOver?_eq :
    stepOver? (Index.ofGraph image) (view.rename f) (f id) =
      (stepOver? (Index.ofGraph graph) view id).map (Split.rename f) := by
  rw [stepOver?, stepOver?, h.soleOutgoing?_eq hview hid]
  cases hsole : view.soleOutgoing? id with
  | none => rfl
  | some link =>
    obtain ⟨hlink, -⟩ := hview.laidOut.soleOutgoing?_eq_some_iff.mp hsole
    obtain ⟨hsource, htarget⟩ := hview.contains_ends hlink
    have hterms : ∀ term ∈ Index.pathTerms ((Index.ofGraph graph).path link.source link.target),
        (Index.ofGraph graph).contains term = true := fun term hterm =>
      Index.contains_of_mem_pathTerms hterm
    simp only [Option.map_some, Option.bind_eq_bind, Option.bind_some, Link.source_rename,
      Link.target_rename, h.path_eq hsource htarget, Index.pathTerms_map_rename,
      h.activeSubterm?_eq hsource htarget]
    cases hactive : (Index.ofGraph graph).activeSubterm? link.source link.target with
    | none => rfl
    | some subterm =>
      have hvalue := Index.contains_value (Index.contains_of_activeSubterm? hactive)
      have hfind : (Index.pathTerms ((Index.ofGraph graph).path link.source link.target)).find?
            (((Index.ofGraph image).parents
              (f ((Index.ofGraph graph).value subterm))).contains ∘ f) =
          (Index.pathTerms ((Index.ofGraph graph).path link.source link.target)).find?
            ((Index.ofGraph graph).parents ((Index.ofGraph graph).value subterm)).contains :=
        List.find?_congr fun term hterm => h.contains_parents_eq hvalue (hterms term hterm)
      simp only [Option.map_some, Option.bind_some,
        h.value_eq (Index.contains_of_activeSubterm? hactive), List.find?_map, hfind]
      cases hfound : (Index.pathTerms ((Index.ofGraph graph).path link.source link.target)).find?
          ((Index.ofGraph graph).parents ((Index.ofGraph graph).value subterm)).contains with
      | none => rfl
      | some destination =>
        have hknown := hterms destination (List.mem_of_find?_eq_some hfound)
        simp only [Option.map_some, Option.bind_some, h.shows_eq hview hknown]
        split <;> rfl

end Rules

section Plans

variable (hview : Grown (Index.ofGraph graph) view)

include hview

/-- The plan for a renamed term is the renamed plan for the term. -/
theorem make_eq (hid : (Index.ofGraph graph).contains id = true) :
    make (Index.ofGraph image) (view.rename f) (f id) =
      (make (Index.ofGraph graph) view id).rename f := by
  rw [make, make, h.shows_eq hview hid, h.stepForward?_eq hview hid, h.stepBackward?_eq hview hid,
    h.jumpForward?_eq hview hid, h.jumpBackward?_eq hview hid, h.stepInto?_eq hview hid,
    h.stepOver?_eq hview hid]
  split <;> rfl

/-- Applying a renamed plan makes the renamed change or fails with the renamed error. -/
theorem apply_eq (id : TermId) (action : Action) :
    ((make (Index.ofGraph graph) view id).rename f).apply (Index.ofGraph image) (view.rename f)
        action =
      renameMade (NavigationError.rename f) f
        ((make (Index.ofGraph graph) view id).apply (Index.ofGraph graph) view action) := by
  by_cases hinto : action = .stepInto
  · subst hinto
    rw [Plan.apply, Plan.apply, Plan.stepInto_rename]
    cases hpair : (make (Index.ofGraph graph) view id).stepInto with
    | none => rfl
    | some pair =>
      exact (congrArg NavigationError.ofView (h.pair_eq hview (fits_of_stepInto hpair))).trans
        (NavigationError.ofView_renameMade f _)
  · rw [Plan.apply.eq_2 _ _ _ _ hinto, Plan.apply.eq_2 _ _ _ _ hinto, Plan.split?_rename]
    cases hsplit : (make (Index.ofGraph graph) view id).split? action with
    | none => rfl
    | some split =>
      have hlands := lands_of_split? hview hsplit
      exact (congrArg NavigationError.ofView
        (h.split_eq hview (known_of_lands hlands) hlands.showsLink)).trans
        (NavigationError.ofView_renameMade f _)

end Plans

end Graph.Mirrors

end ReductionStepper
