import ReductionStepper.Proofs.Evaluator.Listing
import ReductionStepper.Proofs.Stepper.Cursor

/-!
# Walking over the chart

The keys that select a term go by its position in the order of the chart, which is made anew from
the chains at every key. On a stepper that `Browses` a view such a key selects the term that it
goes to and nothing else happens to the view, so positions stay what they are from one key to the
next and a walk meets every term once.
-/

namespace ReductionStepper

open Screen (Theme)

namespace Stepper

variable {stepper : Stepper} {view : View} {id : TermId} {key : Key} {position : Nat}

/-- The selected term. -/
def selected? (stepper : Stepper) : Option TermId := stepper.session?.bind Session.selected?

/-- A stepper on a view, with the help hidden and a cursor that fits. -/
structure Browses (stepper : Stepper) (view : View) : Prop where
  pointed : stepper.Pointed
  help_eq : stepper.help = none
  view_eq : stepper.session?.map Session.view = some view

namespace Browses

private theorem exists_session (h : stepper.Browses view) :
    ∃ session, stepper.session? = some session ∧ session.view = view ∧
      ∃ graph, session.Coherent graph := by
  obtain ⟨session, hsession, hview⟩ := Option.map_eq_some_iff.mp h.view_eq
  have hpointed := h.pointed
  rw [Pointed, hsession] at hpointed
  exact ⟨session, hsession, hview, hpointed.of_loaded.1⟩

/-- The order is that of the chains of the view. -/
theorem order_eq (h : stepper.Browses view) :
    stepper.order = view.chains.flatMap Chain.nodes := by
  obtain ⟨session, hsession, rfl, -⟩ := h.exists_session
  rw [order, hsession]
  rfl

private theorem order_spec (h : stepper.Browses view) :
    stepper.order ≠ [] ∧ stepper.order.Nodup ∧
      ∀ id, id ∈ stepper.order ↔ view.shows id = true := by
  obtain ⟨session, hsession, rfl, graph, hcoherent⟩ := h.exists_session
  have horder : stepper.order = Chart.order session := by rw [order, hsession]
  rw [horder]
  exact ⟨hcoherent.order_ne_nil, hcoherent.grown.laidOut.nodup, fun _ => hcoherent.mem_order⟩

/-! ## One key -/

/-- A selecting key selects the term that it goes to. There always is one, and the view stays. -/
theorem press (h : stepper.Browses view) (hkey : key ∈ selectingKeys) :
    ∃ id, stepper.goal? key = some id ∧ (stepper.press key).Browses view ∧
      (stepper.press key).selected? = some id := by
  obtain ⟨session, hsession, rfl, -⟩ := h.exists_session
  obtain ⟨id, hgoal, hid⟩ := exists_goal? hkey h.order_spec.1
  have hpointed := h.pointed
  rw [Pointed, hsession] at hpointed
  have hshown : session.view.shows id = true := by
    rcases hid with hcursor | hmem
    · exact hpointed.of_loaded.2.1 id hcursor
    · exact (h.order_spec.2.2 id).mp hmem
  have hselects := press_of_mem_selectingKeys hkey h.help_eq
  rw [hgoal, selectFrom] at hselects
  rw [hselects]
  refine ⟨id, hgoal, ⟨h.pointed.select hsession hshown, ?_, ?_⟩, ?_⟩
  · rw [select_of_shows hsession hshown]
    exact h.help_eq
  · rw [select_of_shows hsession hshown]
    rfl
  · rw [select_of_shows hsession hshown]
    rfl

private theorem selected?_press (h : stepper.Browses view) (hkey : key ∈ selectingKeys) :
    (stepper.press key).selected? = stepper.goal? key := by
  obtain ⟨id, hgoal, -, hselected⟩ := h.press hkey
  rw [hselected, hgoal]

/-- The current term is found at its position. -/
theorem idxOf?_eq (h : stepper.Browses view) (hcurrent : stepper.current? = some id)
    (hposition : stepper.order[position]? = some id) :
    stepper.current?.bind (stepper.order.idxOf? ·) = some position := by
  obtain ⟨hlt, hid⟩ := List.getElem?_eq_some_iff.mp hposition
  rw [hcurrent, Option.bind_some, List.idxOf?_eq_some_iff]
  refine ⟨hlt, hid, ?_⟩
  intro other hother hsame
  have hequal := h.order_spec.2.1.getElem_inj_iff.mp (hsame.trans hid.symm)
  omega

/-- The key for the next term goes one position on, and stays on the last. -/
theorem goal?_next (h : stepper.Browses view) (hcurrent : stepper.current? = some id)
    (hposition : stepper.order[position]? = some id) :
    stepper.goal? (.char 'j') = stepper.order[min (position + 1) (stepper.order.length - 1)]? := by
  rw [goal?, nextPosition, h.idxOf?_eq hcurrent hposition]

/-- The key for the previous term goes one position back, and stays on the first. -/
theorem goal?_previous (h : stepper.Browses view) (hcurrent : stepper.current? = some id)
    (hposition : stepper.order[position]? = some id) :
    stepper.goal? (.char 'k') = stepper.order[position - 1]? := by
  rw [goal?, previousPosition, h.idxOf?_eq hcurrent hposition]

end Browses

/-- The current term is the selected one, or that under the cursor if nothing is selected. -/
theorem current?_eq_some_iff :
    stepper.current? = some id ↔
      stepper.selected? = some id ∨ stepper.selected? = none ∧ stepper.cursor = some id :=
  Option.or_eq_some_iff

private theorem nextPosition_of_current?_eq_none (h : stepper.current? = none) :
    stepper.nextPosition = 0 := by
  rw [nextPosition, h, Option.bind_none]

private theorem previousPosition_of_current?_eq_none (h : stepper.current? = none) :
    stepper.previousPosition = stepper.order.length - 1 := by
  rw [previousPosition, h, Option.bind_none]

/-! ## Many keys -/

/-- One key, and another one a number of times. -/
def walk (first next : Key) (count : Nat) : List Input :=
  .key first :: List.replicate count (.key next)

private theorem run_walk_succ (stepper : Stepper) (first next : Key) (count : Nat) :
    stepper.run (walk first next (count + 1)) =
      (stepper.run (walk first next count)).press next := by
  rw [walk, List.replicate_succ', ← List.cons_append, run, List.foldl_append]
  rfl

namespace Browses

/-- If the first key goes to the first of some positions, and the next key from each of them to the
one after it, then this is where they lead. -/
theorem walk_spec (h : stepper.Browses view) (first next : Key) (positions : Nat → Nat)
    (hfirst : first ∈ selectingKeys) (hnext : next ∈ selectingKeys)
    (hstart : stepper.goal? first = stepper.order[positions 0]?)
    (hstep : ∀ (later : Stepper) (count : Nat) (id : TermId), later.Browses view →
      later.order = stepper.order → later.current? = some id →
      later.order[positions count]? = some id →
      later.goal? next = later.order[positions (count + 1)]?) (count : Nat) :
    ∃ id, stepper.order[positions count]? = some id ∧
      (stepper.run (walk first next count)).Browses view ∧
      (stepper.run (walk first next count)).selected? = some id := by
  induction count with
  | zero => exact hstart ▸ h.press hfirst
  | succ count ih =>
    obtain ⟨id, hid, hbrowses, hselected⟩ := ih
    have horder : (stepper.run (walk first next count)).order = stepper.order :=
      hbrowses.order_eq.trans h.order_eq.symm
    have hgoal := hstep _ count id hbrowses horder (current?_eq_some_iff.mpr (.inl hselected))
      (horder ▸ hid)
    rw [run_walk_succ, ← horder, ← hgoal]
    exact hbrowses.press hnext

/-- From the first term on, forward: every term in its order. -/
theorem selected?_walk_forward (h : stepper.Browses view) {count : Nat}
    (hcount : count < stepper.order.length) :
    (stepper.run (walk (.char 'g') (.char 'j') count)).selected? = stepper.order[count]? := by
  have hstart : stepper.goal? (.char 'g') =
      stepper.order[min 0 (stepper.order.length - 1)]? := by
    rw [Nat.zero_min]
    exact List.head?_eq_getElem?
  have hstep (later : Stepper) (count : Nat) (id : TermId) (hlater : later.Browses view)
      (horder : later.order = stepper.order) (hcurrent : later.current? = some id)
      (hposition : later.order[min count (stepper.order.length - 1)]? = some id) :
      later.goal? (.char 'j') = later.order[min (count + 1) (stepper.order.length - 1)]? := by
    rw [hlater.goal?_next hcurrent hposition, horder]
    congr 1
    omega
  obtain ⟨id, hid, -, hselected⟩ := h.walk_spec (.char 'g') (.char 'j')
    (fun count => min count (stepper.order.length - 1)) (by decide) (by decide) hstart hstep count
  rw [hselected, ← hid]
  congr 1
  omega

/-- From the last term on, backward: every term in the reverse of its order. -/
theorem selected?_walk_backward (h : stepper.Browses view) {count : Nat}
    (hcount : count < stepper.order.length) :
    (stepper.run (walk (.char 'G') (.char 'k') count)).selected? =
      stepper.order.reverse[count]? := by
  obtain ⟨id, hid, -, hselected⟩ := h.walk_spec (.char 'G') (.char 'k')
    (fun count => stepper.order.length - 1 - count) (by decide) (by decide)
    List.getLast?_eq_getElem?
    (fun _ _ _ hlater _ hcurrent hposition => hlater.goal?_previous hcurrent hposition) count
  rw [hselected, List.getElem?_reverse hcount, ← hid]

/-- The current term stands in the order. -/
theorem mem_order_of_current? (h : stepper.Browses view) (hcurrent : stepper.current? = some id) :
    id ∈ stepper.order := by
  obtain ⟨session, hsession, rfl, -⟩ := h.exists_session
  have hpointed := h.pointed
  rw [Pointed, hsession] at hpointed
  obtain ⟨-, hshown, hselected⟩ := hpointed.of_loaded
  rw [current?_eq_some_iff, selected?, hsession, Option.bind_some] at hcurrent
  refine (h.order_spec.2.2 id).mpr (hshown id ?_)
  exact hcurrent.elim (hselected id) And.right

end Browses

private theorem map_range_eq {α : Type} {read : Nat → Option α} {entries : List α}
    (h : ∀ position, position < entries.length → read position = entries[position]?) :
    (List.range entries.length).map read = entries.map some := by
  apply List.ext_getElem
  · simp
  · intro position hleft hright
    have hlt : position < entries.length := by simpa using hright
    simp [h position hlt, hlt]

/-- Whatever a stepper is given, from a workbench on which nothing is selected: with a session and
the help hidden, the order holds every shown term once, and the keys for the next and the previous,
for the first and the last term leave the view and the order as they are. From the selected term, or
from that under the cursor if nothing is selected, they go to the next or the previous one, as far
as there is one; without either to the first or the last. So walking from one end to the other
selects every term once, in the order or in its reverse. -/
theorem walks_select_every_term {program function : String} {before : List Workbench.Input}
    (hfree : ∀ session, ((Workbench.start program function).run before).session = some session →
      session.selected? = none) (theme : Theme) (canCheck : Bool) (inputs : List Input)
    {session : Session} :
    let stepper := (start ((Workbench.start program function).run before) theme canCheck).run inputs
    let order := stepper.order
    stepper.session? = some session → stepper.help = none →
      (order ≠ [] ∧ order.Nodup ∧ ∀ id, id ∈ order ↔ session.view.shows id = true) ∧
      (∀ key ∈ [Key.char 'j', .char 'k', .char 'g', .char 'G'],
        (stepper.press key).session?.map Session.view = some session.view ∧
          (stepper.press key).order = order) ∧
      (∀ id, session.selected? = some id ∨ session.selected? = none ∧ stepper.cursor = some id →
        ∃ position, order[position]? = some id ∧
          (stepper.press (.char 'j')).selected? = order[min (position + 1) (order.length - 1)]? ∧
          (stepper.press (.char 'k')).selected? = order[position - 1]?) ∧
      (session.selected? = none ∧ stepper.cursor = none →
        (stepper.press (.char 'j')).selected? = order[0]? ∧
          (stepper.press (.char 'k')).selected? = order[order.length - 1]?) ∧
      (List.range order.length).map
          (fun count => (stepper.run (walk (.char 'g') (.char 'j') count)).selected?) =
        order.map some ∧
      (List.range order.length).map
          (fun count => (stepper.run (walk (.char 'G') (.char 'k') count)).selected?) =
        order.reverse.map some := by
  intro stepper order hsession hhelp
  have hbench := (Workbench.Coherent.start program function).run before
  have hbrowses : stepper.Browses session.view :=
    { pointed := (pointed_start hbench hfree theme canCheck).run inputs
      help_eq := hhelp
      view_eq := by rw [hsession, Option.map_some] }
  have hselected : stepper.selected? = session.selected? := by
    rw [selected?, hsession, Option.bind_some]
  have hnext : (stepper.press (.char 'j')).selected? = stepper.goal? (.char 'j') :=
    hbrowses.selected?_press (by decide)
  have hprevious : (stepper.press (.char 'k')).selected? = stepper.goal? (.char 'k') :=
    hbrowses.selected?_press (by decide)
  refine ⟨hbrowses.order_spec, ?_, ?_, ?_,
    map_range_eq fun _ => hbrowses.selected?_walk_forward, ?_⟩
  · intro key hkey
    have hselecting : ∀ key ∈ [Key.char 'j', .char 'k', .char 'g', .char 'G'],
        key ∈ selectingKeys := by
      decide
    obtain ⟨id, -, hpress, -⟩ := hbrowses.press (hselecting key hkey)
    exact ⟨hpress.view_eq, hpress.order_eq.trans hbrowses.order_eq.symm⟩
  · intro id hid
    rw [← hselected, ← current?_eq_some_iff] at hid
    obtain ⟨position, hposition⟩ := List.getElem?_of_mem (hbrowses.mem_order_of_current? hid)
    rw [hnext, hprevious, hbrowses.goal?_next hid hposition,
      hbrowses.goal?_previous hid hposition]
    exact ⟨position, hposition, rfl, rfl⟩
  · rintro ⟨hunselected, hcursor⟩
    have hnone : stepper.current? = none := by
      rw [current?, hsession, Option.bind_some, hunselected, hcursor, Option.or_none]
    rw [hnext, hprevious, goal?, goal?, nextPosition_of_current?_eq_none hnone,
      previousPosition_of_current?_eq_none hnone]
    exact ⟨rfl, rfl⟩
  · have hlength : order.length = order.reverse.length := List.length_reverse.symm
    rw [hlength]
    apply map_range_eq
    intro count hcount
    exact hbrowses.selected?_walk_backward (hlength ▸ hcount)

/-- After stepping into the call nothing is selected, and the cursor is still on the root. The chain
that was revealed on its own comes last in the order. -/
theorem walks_select_every_term_nestedCall :
    let result : CheckResult := .ok (.listing Graph.nestedCall)
    let before : List Workbench.Input := [.beginCheck, .finishCheck ⟨1⟩ result]
    let inputs : List Input := [.key (.char 'g'), .key (.char 'i')]
    let bench := (Workbench.start "" "main").run before
    let stepper := (start bench ⟨none⟩ true).run inputs
    (∀ session, bench.session = some session → session.selected? = none) ∧
      stepper.session?.isSome = true ∧ stepper.help = none ∧ stepper.selected? = none ∧
      stepper.order.map TermId.text = ["r", "v", "f", "h"] ∧
      (List.range 4).map
          (fun count => (stepper.run (walk (.char 'G') (.char 'k') count)).selected?) =
        stepper.order.reverse.map some := by
  intro result before inputs bench stepper
  have hselected : bench.session.bind Session.selected? = none := by decide +kernel
  have hfree : ∀ session, bench.session = some session → session.selected? = none := by
    intro session hsession
    rw [hsession] at hselected
    exact hselected
  have hloaded : stepper.session?.isSome = true := by decide +kernel
  have hhelp : stepper.help = none := by decide +kernel
  have horder : stepper.order.map TermId.text = ["r", "v", "f", "h"] := by decide +kernel
  have hlength : stepper.order.length = 4 := by
    rw [← List.length_map TermId.text, horder]
    rfl
  obtain ⟨session, hsession⟩ := Option.isSome_iff_exists.mp hloaded
  obtain ⟨-, -, -, -, -, hbackward⟩ :=
    walks_select_every_term hfree ⟨none⟩ true inputs hsession hhelp
  rw [hlength] at hbackward
  exact ⟨hfree, hloaded, hhelp, by decide +kernel, horder, hbackward⟩

end Stepper

end ReductionStepper
