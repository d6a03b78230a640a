import Mathlib.Order.Compare
import ReductionStepper.Json.Value

/-!
# Canonical JSON values

An object in canonical form has its keys in strict order, so bringing a value into canonical form
a second time changes nothing. What holds of every value that an object keeps held of the value
it was made from.
-/

namespace ReductionStepper.Json

/-! ## Induction over values -/

/-- A property that lists and objects take over from their parts holds of all values. -/
@[elab_as_elim]
theorem induction {motive : Json → Prop} (null : motive .null)
    (bool : ∀ value, motive (.bool value)) (number : ∀ value, motive (.number value))
    (string : ∀ text, motive (.string text))
    (array : ∀ items, (∀ item ∈ items, motive item) → motive (.array items))
    (object : ∀ entries, (∀ entry ∈ entries, motive entry.2) → motive (.object entries)) :
    ∀ value, motive value
  | .null => null
  | .bool value => bool value
  | .number value => number value
  | .string text => string text
  | .array items =>
    array items fun item _ => induction null bool number string array object item
  | .object entries =>
    object entries fun entry _ => induction null bool number string array object entry.2
termination_by value => sizeOf value
decreasing_by
  · have := List.sizeOf_lt_of_mem ‹item ∈ items›
    simp only [Json.array.sizeOf_spec]
    omega
  · have := List.sizeOf_lt_of_mem ‹entry ∈ entries›
    obtain ⟨key, value⟩ := entry
    simp only [Json.object.sizeOf_spec, Prod.mk.sizeOf_spec] at this ⊢
    omega

/-! ## Depth -/

/-- The value opens at most `depth` brackets at a time, and its negative numbers fit 64 bits. -/
inductive Fits : Nat → Json → Prop
  | null {depth : Nat} : Fits depth .null
  | bool {depth : Nat} (value : Bool) : Fits depth (.bool value)
  | natural {depth : Nat} (value : UInt64) : Fits depth (.number (.natural value))
  | negative {depth : Nat} {magnitude : UInt64} (positive : 0 < magnitude.toNat)
      (bounded : magnitude.toNat ≤ Nat.pow 2 63) : Fits depth (.number (.negative magnitude))
  | double {depth : Nat} (value : Float) : Fits depth (.number (.double value))
  | string {depth : Nat} (text : String) : Fits depth (.string text)
  | array {depth : Nat} {items : List Json} (fit : ∀ item ∈ items, Fits depth item) :
      Fits (depth + 1) (.array items)
  | object {depth : Nat} {entries : List (String × Json)}
      (fit : ∀ entry ∈ entries, Fits depth entry.2) : Fits (depth + 1) (.object entries)

/-! ## Doubles -/

mutual

/-- Whether a double occurs in a value. -/
def hasDouble : Json → Bool
  | .number (.double _) => true
  | .array items => itemsHaveDouble items
  | .object entries => entriesHaveDouble entries
  | _ => false

/-- Whether a double occurs in one of the items. -/
def itemsHaveDouble : List Json → Bool
  | [] => false
  | item :: later => hasDouble item || itemsHaveDouble later

/-- Whether a double occurs in one of the entries. -/
def entriesHaveDouble : List (String × Json) → Bool
  | [] => false
  | (_, value) :: later => hasDouble value || entriesHaveDouble later

end

private theorem itemsHaveDouble_eq_any (items : List Json) :
    itemsHaveDouble items = items.any hasDouble := by
  induction items with
  | nil => rfl
  | cons item later ih => rw [itemsHaveDouble, ih, List.any_cons]

private theorem entriesHaveDouble_eq_any (entries : List (String × Json)) :
    entriesHaveDouble entries = entries.any (hasDouble ·.2) := by
  induction entries with
  | nil => rfl
  | cons entry later ih => rw [entriesHaveDouble, ih, List.any_cons]

/-- A list is without doubles if its items are. -/
theorem hasDouble_array_eq_false {items : List Json} :
    (array items).hasDouble = false ↔ ∀ item ∈ items, item.hasDouble = false := by
  simp [hasDouble, itemsHaveDouble_eq_any]

/-- An object is without doubles if the values of its entries are. -/
theorem hasDouble_object_eq_false {entries : List (String × Json)} :
    (object entries).hasDouble = false ↔ ∀ entry ∈ entries, entry.2.hasDouble = false := by
  simp [hasDouble, entriesHaveDouble_eq_any]

/-! ## Sorted entries -/

variable {key : String} {value : Json} {entry : String × Json}
  {sorted entries : List (String × Json)}

/-- The keys are in strict order. -/
def SortedKeys (entries : List (String × Json)) : Prop :=
  entries.Pairwise (compare ·.1 ·.1 = .lt)

private theorem mem_putEntry (h : entry ∈ putEntry key value sorted) :
    entry = (key, value) ∨ entry ∈ sorted := by
  induction sorted with
  | nil => exact .inl (List.mem_singleton.1 h)
  | cons head later ih =>
    simp only [putEntry] at h
    split at h
    · exact List.mem_cons.1 h
    · exact (List.mem_cons.1 h).imp_right (List.mem_cons_of_mem _)
    · obtain rfl | h := List.mem_cons.1 h
      · exact .inr List.mem_cons_self
      · exact (ih h).imp_right (List.mem_cons_of_mem _)

private theorem SortedKeys.putEntry (h : SortedKeys sorted) :
    SortedKeys (putEntry key value sorted) := by
  induction sorted with
  | nil => exact List.pairwise_singleton ..
  | cons head later ih =>
    obtain ⟨hhead, hlater⟩ := List.pairwise_cons.1 h
    simp only [Json.putEntry]
    split
    · next hlt =>
      refine List.pairwise_cons.2 ⟨?_, h⟩
      intro other hother
      obtain rfl | hother := List.mem_cons.1 hother
      · exact hlt
      · exact Std.TransCmp.lt_trans hlt (hhead other hother)
    · next heq =>
      rw [Std.LawfulEqCmp.eq_of_compare heq]
      exact List.pairwise_cons.2 ⟨hhead, hlater⟩
    · next hgt =>
      refine List.pairwise_cons.2 ⟨?_, ih hlater⟩
      intro other hother
      obtain rfl | hother := mem_putEntry hother
      · exact Std.OrientedCmp.lt_of_gt hgt
      · exact hhead other hother

/-- An entry whose key comes last is put at the end. -/
theorem putEntry_of_last (h : ∀ entry ∈ sorted, compare entry.1 key = .lt) :
    putEntry key value sorted = sorted ++ [(key, value)] := by
  induction sorted with
  | nil => rfl
  | cons head later ih =>
    have hgt : compare key head.1 = .gt :=
      Std.OrientedCmp.gt_of_lt (h head List.mem_cons_self)
    simp only [putEntry, hgt, List.cons_append,
      ih fun entry hentry => h entry (List.mem_cons_of_mem _ hentry)]

/-! ## Canonical form -/

private theorem canonicalItems_eq_map (items : List Json) :
    canonicalItems items = items.map canonical := by
  induction items with
  | nil => rfl
  | cons item later ih => rw [canonicalItems, ih, List.map_cons]

private theorem canonical_array (items : List Json) :
    (array items).canonical = array (items.map canonical) := by
  rw [canonical, canonicalItems_eq_map]

/-- Every entry in canonical form was there before or comes from one of the entries put in. -/
theorem mem_canonicalEntries (h : entry ∈ canonicalEntries sorted entries) :
    entry ∈ sorted ∨ ∃ source ∈ entries, entry = (source.1, source.2.canonical) := by
  induction entries generalizing sorted with
  | nil => exact .inl h
  | cons source later ih =>
    rw [canonicalEntries] at h
    obtain h | ⟨other, hother, rfl⟩ := ih h
    · obtain rfl | h := mem_putEntry h
      · exact .inr ⟨source, List.mem_cons_self, rfl⟩
      · exact .inl h
    · exact .inr ⟨other, List.mem_cons_of_mem _ hother, rfl⟩

private theorem SortedKeys.canonicalEntries (h : SortedKeys sorted) :
    SortedKeys (canonicalEntries sorted entries) := by
  induction entries generalizing sorted with
  | nil => exact h
  | cons source later ih => exact ih h.putEntry

/-- Entries with sorted keys and canonical values are in canonical form. -/
theorem canonicalEntries_of_sortedKeys (hsorted : SortedKeys (sorted ++ entries))
    (hvalues : ∀ entry ∈ entries, entry.2.canonical = entry.2) :
    canonicalEntries sorted entries = sorted ++ entries := by
  induction entries generalizing sorted with
  | nil => rw [canonicalEntries, List.append_nil]
  | cons entry later ih =>
    have hlast : ∀ other ∈ sorted, compare other.1 entry.1 = .lt := fun other hother =>
      (List.pairwise_append.1 hsorted).2.2 other hother entry List.mem_cons_self
    rw [List.append_cons] at hsorted ⊢
    rw [canonicalEntries, hvalues entry List.mem_cons_self, putEntry_of_last hlast,
      ih hsorted fun other hother => hvalues other (List.mem_cons_of_mem _ hother)]

/-- Canonical form is a normal form. -/
theorem canonical_canonical (value : Json) : value.canonical.canonical = value.canonical := by
  induction value using induction with
  | null | bool | number | string => rfl
  | array items ih =>
    rw [canonical_array, canonical_array, List.map_map]
    exact congrArg array (List.map_congr_left ih)
  | object entries ih =>
    rw [canonical, canonical]
    refine congrArg object (canonicalEntries_of_sortedKeys ?_ ?_)
    · exact SortedKeys.canonicalEntries List.Pairwise.nil
    · intro entry hentry
      obtain h | ⟨source, hsource, rfl⟩ := mem_canonicalEntries hentry
      · exact absurd h List.not_mem_nil
      · exact ih source hsource

/-- Canonical form drops entries and reorders them, but opens no more brackets. -/
theorem Fits.canonical {depth : Nat} (h : Fits depth value) : Fits depth value.canonical := by
  induction value using Json.induction generalizing depth with
  | null | bool | number | string => exact h
  | array items ih =>
    cases h with
    | array fit =>
      rw [canonical_array]
      refine .array fun item hitem => ?_
      obtain ⟨source, hsource, rfl⟩ := List.mem_map.1 hitem
      exact ih source hsource (fit source hsource)
  | object entries ih =>
    cases h with
    | object fit =>
      rw [Json.canonical]
      refine .object fun entry hentry => ?_
      obtain h | ⟨source, hsource, rfl⟩ := mem_canonicalEntries hentry
      · exact absurd h List.not_mem_nil
      · exact ih source hsource (fit source hsource)

end ReductionStepper.Json
