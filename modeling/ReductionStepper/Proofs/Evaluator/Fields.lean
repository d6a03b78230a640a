import ReductionStepper.Evaluator.Reply.Decoder
import ReductionStepper.Evaluator.Reply.Encoder
import ReductionStepper.Proofs.Json.Reading

/-!
# The fields of a reply, written and read

Every record of a reply is read as it was written. Of a timeout this holds if its root is a value
that reading can leave: not null and in canonical form. Reading leaves no other root.
-/

namespace ReductionStepper.Reply

open Fallible (bind_eq_ok_iff)

/-! ## Parts of replies -/

section Parts

variable {α : Type} {encode : α → Json} {read : Json → Except Mismatch α}

private theorem fill_none {name : String} {found : Json} {a : α} (h : read found = .ok a) :
    fill name none read found = .ok (some a) := by
  rw [fill, h]
  rfl

private theorem readOptional_of_ne_null {found : Json} {a : α} (hnull : found ≠ .null)
    (h : read found = .ok a) : readOptional read found = .ok (some a) := by
  unfold readOptional
  split
  · contradiction
  · rw [h]
    rfl

private theorem readList_map (h : ∀ a, read (encode a) = .ok a) (items : List α) :
    readList read (.array (items.map encode)) = .ok items :=
  Fallible.mapM_map_eq_ok h items

end Parts

private theorem readText_string (content : String) : readText (.string content) = .ok content := rfl

private theorem readName_encode (name : Name) : readName name.encode = .ok name := by
  cases name <;> rfl

private theorem Name.encode_ne_null (name : Name) : name.encode ≠ .null := by
  cases name <;> exact nofun

private theorem readCount_encodeCount (n : UInt32) : readCount (encodeCount n) = .ok n := by
  have h : n.toUInt64.toNat < UInt32.size := by
    rw [UInt32.toNat_toUInt64]
    exact n.toNat_lt
  rw [encodeCount, readCount, if_pos h, UInt32.toUInt32_toUInt64]

private theorem readSpan_encodeSpan (span : Source.Span) :
    readSpan (encodeSpan span) = .ok span := by
  simp [readSpan, readRecord, encodeSpan, SpanDraft.take, fill_none (readCount_encodeCount _),
    require, pure, Except.pure]

private theorem readNode_encode (node : Node) : readNode node.encode = .ok node := by
  obtain ⟨id, label, span⟩ := node
  have hspan (span : Source.Span) :
      readOptional readSpan (encodeSpan span) = .ok (some span) :=
    readOptional_of_ne_null nofun (readSpan_encodeSpan span)
  cases span <;>
    simp [readNode, readRecord, Node.encode, optionalField, NodeDraft.take,
      fill_none (readName_encode _), fill_none (readText_string _), fill_none (hspan _), require,
      pure, Except.pure]

private theorem readArrow_encode (arrow : Arrow) : readArrow arrow.encode = .ok arrow := by
  simp [readArrow, readRecord, Arrow.encode, ArrowDraft.take, fill_none (readName_encode _),
    fill_none (readText_string _), require, pure, Except.pure]

/-! ## Roots of timeouts -/

/-- A root of a timeout that reading can leave. -/
structure Root (root : Json) : Prop where
  present : root ≠ .null
  canonical : root.canonical = root
  fits : root.Fits (nestingLimit - 1)

/-- Reading can leave the root of the reply, if it has one. -/
def Readable (reply : Reply) : Prop := ∀ root, reply = .timeout (some root) → Root root

private theorem canonical_ne_null {found : Json} (h : found ≠ .null) : found.canonical ≠ .null := by
  cases found with
  | null => contradiction
  | _ => exact nofun

private theorem root_canonical {found : Json} (hnull : found ≠ .null)
    (hfits : found.Fits (nestingLimit - 1)) : Root found.canonical :=
  ⟨canonical_ne_null hnull, found.canonical_canonical, hfits.canonical⟩

/-! ## All fields -/

/-- The fields of a reply are read as they were written. -/
theorem readFields_encodeFields {reply : Reply} (h : reply.Readable) :
    readFields reply.kind (.object reply.encodeFields) = .ok reply := by
  have hnodes := readList_map readNode_encode
  have hedges := readList_map readArrow_encode
  have hname (name : Name) : readOptional readName name.encode = .ok (some name) :=
    readOptional_of_ne_null name.encode_ne_null (readName_encode name)
  cases reply with
  | value nodes edges root value =>
    simp [kind, readFields, readValueFields, readRecord, encodeFields, Draft.takeValue,
      Draft.takeShared, fill_none (hnodes _), fill_none (hedges _), fill_none (readName_encode _),
      require, pure, Except.pure]
  | stuck nodes edges root stuck bad reason =>
    cases stuck <;> cases bad <;>
      simp [kind, readFields, readStuckFields, readRecord, encodeFields, optionalField,
        Draft.takeStuck, Draft.takeShared, fill_none (hnodes _), fill_none (hedges _),
        fill_none (readName_encode _), fill_none (hname _), fill_none (readText_string _), require,
        pure, Except.pure]
  | timeout root =>
    cases root with
    | none => rfl
    | some root =>
      obtain ⟨hnull, hcanonical, -⟩ := h root rfl
      have hroot : readOptional readAny root = .ok (some root) :=
        readOptional_of_ne_null hnull (congrArg Except.ok hcanonical)
      simp [kind, readFields, readTimeoutFields, readRecord, encodeFields, optionalField,
        takeTimeout, fill_none hroot, pure, Except.pure]
  | parseError error => rfl

/-! ## What reading leaves -/

private theorem kind_of_readFields {kind : Kind} {fields : Json} {reply : Reply}
    (h : readFields kind fields = .ok reply) : reply.kind = kind := by
  cases kind <;> cases fields <;> try contradiction
  all_goals
    repeat obtain ⟨_, _, h⟩ := bind_eq_ok_iff.1 h
    cases h
    rfl

/-- A root that is read at all is one that reading can leave. -/
theorem root_of_readOptional {found root : Json} (hfits : found.Fits (nestingLimit - 1))
    (h : readOptional readAny found = .ok (some root)) : Root root := by
  unfold readOptional at h
  split at h
  · cases h
  · next hnull =>
    cases h
    exact root_canonical hnull hfits

/-- An entry of a timeout is passed over or gives its root. -/
theorem takeTimeout_eq_ok {start last : Option (Option Json)} {entry : String × Json}
    (h : takeTimeout start entry = .ok last) :
    last = start ∨ ∃ root, readOptional readAny entry.2 = .ok root ∧ last = some root := by
  unfold takeTimeout at h
  split at h
  · cases start with
    | some => cases h
    | none =>
      cases hread : readOptional readAny entry.2 with
      | error mismatch =>
        rw [fill, hread] at h
        cases h
      | ok root =>
        rw [fill_none hread] at h
        exact .inr ⟨root, rfl, (Except.ok.inj h).symm⟩
  · exact .inl (Except.ok.inj h).symm

private theorem root_of_foldlM_takeTimeout {entries : List (String × Json)}
    {start last : Option (Option Json)} {root : Json}
    (hfits : ∀ entry ∈ entries, entry.2.Fits (nestingLimit - 1))
    (h : entries.foldlM takeTimeout start = .ok last) (hlast : last = some (some root))
    (hstart : start = some (some root) → Root root) : Root root := by
  induction entries generalizing start with
  | nil => exact hstart ((Except.ok.inj h).trans hlast)
  | cons entry later ih =>
    rw [List.foldlM_cons] at h
    obtain ⟨next, hnext, hlater⟩ := bind_eq_ok_iff.1 h
    refine ih (fun other hother => hfits other (List.mem_cons_of_mem _ hother)) hlater ?_
    rintro rfl
    obtain hsame | ⟨read, hread, hsome⟩ := takeTimeout_eq_ok hnext
    · exact hstart hsame.symm
    · cases hsome
      exact root_of_readOptional (hfits entry List.mem_cons_self) hread

/-- Reading leaves nothing but readable replies. -/
theorem readable_of_readFields {kind : Kind} {fields : Json} {reply : Reply}
    (hfits : fields.Fits nestingLimit) (h : readFields kind fields = .ok reply) :
    reply.Readable := by
  rintro root rfl
  obtain rfl : Kind.timeout = kind := kind_of_readFields h
  cases hfits with
  | object fit =>
    obtain ⟨last, hlast, h⟩ := bind_eq_ok_iff.1 h
    cases last with
    | none => cases h
    | some last =>
      cases h
      exact root_of_foldlM_takeTimeout fit hlast rfl nofun
  | @array _ items fit =>
    obtain ⟨last, hlast, h⟩ := bind_eq_ok_iff.1 h
    obtain ⟨_, -, h⟩ := bind_eq_ok_iff.1 h
    cases h
    unfold itemOr at hlast
    split at hlast
    · next found hfound =>
      exact root_of_readOptional (fit found (List.mem_of_getElem? hfound)) hlast
    · cases hlast
  | _ => cases h

end ReductionStepper.Reply
