import Mathlib
import ReductionStepper.Proofs.Evaluator.Fields
import ReductionStepper.Proofs.Json.Depth

/-!
# Replies that are written and read

A reply that was read is written as an object whose fields nest within the limit, so it is read
again: as the same reply, unless the root of a timeout holds a double.
-/

namespace ReductionStepper.Reply

open Fallible (bind_eq_ok_iff ok_bind)
open Json (Exact ReadsBack writeEntries)

variable {rest text : List Char} {kind : Kind} {reply : Reply}

/-! ## Written fields -/

/-- Whether a double occurs in the root of a timeout. -/
def hasDouble : Reply → Bool
  | .timeout (some root) => root.hasDouble
  | _ => false

private theorem Name.exact_encode {depth : Nat} (name : Name) : Exact depth name.encode := by
  cases name with
  | number n => exact .natural n
  | text content => exact .string content

private theorem exact_encodeSpan {depth : Nat} (span : Source.Span) :
    Exact (depth + 1) (encodeSpan span) := by
  refine .object ?_
  simp [encodeCount, Exact.natural]

private theorem Node.exact_encode {depth : Nat} (node : Node) : Exact (depth + 2) node.encode := by
  refine .object ?_
  cases node.span <;>
    simp [optionalField, Name.exact_encode, Exact.string, exact_encodeSpan]

private theorem Arrow.exact_encode {depth : Nat} (arrow : Arrow) :
    Exact (depth + 1) arrow.encode := by
  refine .object ?_
  simp [Name.exact_encode, Exact.string]

/-- No field is taken for the kind, and every field is read back. -/
theorem exact_encodeFields (h : reply.Readable) (hdouble : reply.hasDouble = false) :
    ∀ entry ∈ reply.encodeFields, entry.1 ≠ "result" ∧ Exact (nestingLimit - 1) entry.2 := by
  have hnodes (nodes : List Node) : Exact (nestingLimit - 1) (.array (nodes.map Node.encode)) :=
    .array (List.forall_mem_map.2 fun node _ => node.exact_encode)
  have hedges (edges : List Arrow) : Exact (nestingLimit - 1) (.array (edges.map Arrow.encode)) :=
    .array (List.forall_mem_map.2 fun arrow _ => arrow.exact_encode)
  cases reply with
  | value nodes edges root value =>
    simp [encodeFields, hnodes, hedges, Name.exact_encode]
  | stuck nodes edges root stuck bad reason =>
    cases stuck <;> cases bad <;>
      simp [encodeFields, optionalField, hnodes, hedges, Name.exact_encode,
        Exact.string]
  | timeout root =>
    cases root with
    | none => simp [encodeFields, optionalField]
    | some root =>
      have hroot : Exact (nestingLimit - 1) root := ⟨(h root rfl).fits, hdouble⟩
      simp [encodeFields, optionalField, hroot]
  | parseError error => simp [encodeFields, Exact.string]

/-! ## Reading a written reply -/

@[simp] private theorem lift_ok {α : Type} (a : α) : lift (.ok a) = .ok a := rfl

private theorem lift_eq_ok_iff {α : Type} {result : Except Json.Fault α} {a : α} :
    lift result = .ok a ↔ result = .ok a := by
  cases result <;> simp [lift]

private theorem readKind_write (kind : Kind) (rest : List Char) :
    readKind (Json.write (.string kind.word) ++ rest) = .ok (kind, rest) := by
  have hskip (content : List Char) : Json.skipGap ('"' :: content) = '"' :: content := rfl
  rw [Json.write, Json.writeString_append]
  simp [readKind, hskip, Json.quoted_flatMap, pure, Except.pure]

/-- Behind the kind of a reply the other entries are read as they were written. -/
theorem readTagged_writeEntries {steps : Nat} {entries : List (String × Json)}
    (hentries : ∀ entry ∈ entries, entry.1 ≠ "result" ∧ ReadsBack (nestingLimit - 1) entry.2)
    (hsteps : (writeEntries false entries).length ≤ steps) :
    readTagged steps false (some kind) (writeEntries false entries ++ rest) =
      .ok ((kind, entries), rest) := by
  induction entries generalizing steps with
  | nil =>
    obtain ⟨steps, rfl⟩ := Nat.exists_eq_add_one.2 hsteps
    rfl
  | cons entry later ih =>
    obtain ⟨key, value⟩ := entry
    obtain ⟨hkey, hvalue⟩ := hentries (key, value) List.mem_cons_self
    have hread := hvalue.readValue (Json.endsNumber_writeEntries later rest)
    simp only [writeEntries, Json.writeString, List.length_append, List.length_cons] at hsteps
    obtain ⟨steps, rfl⟩ : ∃ s, steps = s + 1 := ⟨steps - 1, by omega⟩
    have hlater : readTagged steps false (some kind) (writeEntries false later ++ rest) =
        .ok ((kind, later), rest) :=
      ih (fun other hother => hentries other (List.mem_cons_of_mem _ hother)) (by omega)
    rw [Json.writeEntries_append, readTagged, Json.nextKey_cons]
    simp [Json.quoted_flatMap, hkey, Json.colon_cons, hread, hlater, pure, Except.pure]

/-- The kind of a reply stands before its fields. -/
theorem readTagged_kind (steps : Nat) (kind : Kind) (entries : List (String × Json))
    (rest : List Char) :
    readTagged (steps + 1) true none
        (writeEntries true (("result", .string kind.word) :: entries) ++ rest) =
      readTagged steps false (some kind) (writeEntries false entries ++ rest) := by
  rw [Json.writeEntries_append, readTagged, Json.nextKey_cons]
  simp only [Json.quoted_flatMap, Json.colon_cons, readKind_write, lift_ok, ok_bind, if_true,
    Option.isSome_none, Bool.false_eq_true, if_false]

/-- The bound on the steps is enough for the entries of a written reply. -/
theorem readTagged_written {entries : List (String × Json)} {body : List Char}
    (hentries : ∀ entry ∈ entries, entry.1 ≠ "result" ∧ ReadsBack (nestingLimit - 1) entry.2)
    (hbody : body = writeEntries true (("result", .string kind.word) :: entries)) :
    readTagged (Json.stepBound body) true none body = .ok ((kind, entries), []) := by
  have hlength : (writeEntries false entries).length ≤ 2 * body.length + 1 := by
    rw [hbody, writeEntries, List.length_append]
    omega
  calc
    readTagged (Json.stepBound body) true none body
    _ = readTagged (2 * body.length + 1 + 1) true none
          (writeEntries true (("result", .string kind.word) :: entries) ++ []) := by
      rw [List.append_nil, ← hbody, Json.stepBound]
    _ = readTagged (2 * body.length + 1) false (some kind) (writeEntries false entries ++ []) :=
      readTagged_kind ..
    _ = .ok ((kind, entries), []) := readTagged_writeEntries hentries hlength

private theorem readHead_brace (body : List Char) :
    readHead ('\x7b' :: body) = do
      let ((kind, entries), rest) ← readTagged (Json.stepBound body) true none body
      return ((kind, .object entries), rest) := rfl

private theorem readHead_encode
    (hfields : ∀ entry ∈ reply.encodeFields,
      entry.1 ≠ "result" ∧ ReadsBack (nestingLimit - 1) entry.2) :
    readHead (Json.write reply.encode) = .ok ((reply.kind, .object reply.encodeFields), []) := by
  rw [encode, Json.write, readHead_brace, readTagged_written hfields rfl]
  rfl

private theorem decode_text_of_readable (h : reply.Readable) (hdouble : reply.hasDouble = false) :
    decode reply.text = .ok reply := by
  have hfields : ∀ entry ∈ reply.encodeFields,
      entry.1 ≠ "result" ∧ ReadsBack (nestingLimit - 1) entry.2 := fun entry hentry =>
    (exact_encodeFields h hdouble entry hentry).imp_right Exact.readsBack
  rw [decode, text, Json.compact, String.toList_ofList, decodeList, readHead_encode hfields]
  simp only [readFields_encodeFields h]
  rfl

/-! ## What reading leaves -/

/-- The entries beside the kind are read with one bracket open. -/
theorem fits_of_readTagged {steps : Nat} {first : Bool} {kind? : Option Kind}
    {entries : List (String × Json)}
    (h : readTagged steps first kind? text = .ok ((kind, entries), rest)) :
    ∀ entry ∈ entries, entry.2.Fits (nestingLimit - 1) := by
  induction steps generalizing first kind? text kind entries rest with
  | zero => cases h
  | succ steps ih =>
    rw [readTagged] at h
    obtain ⟨⟨more, _⟩, -, h⟩ := bind_eq_ok_iff.1 h
    cases more with
    | false =>
      cases kind? with
      | none => cases h
      | some =>
        cases h
        exact List.forall_mem_nil _
    | true =>
      simp only [if_true] at h
      obtain ⟨⟨key, _⟩, -, h⟩ := bind_eq_ok_iff.1 h
      simp only at h
      split at h
      · split at h
        · cases h
        · obtain ⟨_, -, h⟩ := bind_eq_ok_iff.1 h
          obtain ⟨_, -, h⟩ := bind_eq_ok_iff.1 h
          exact ih h
      · obtain ⟨_, -, h⟩ := bind_eq_ok_iff.1 h
        obtain ⟨⟨found, _⟩, hfound, h⟩ := bind_eq_ok_iff.1 h
        obtain ⟨⟨⟨_, later⟩, _⟩, hlater, h⟩ := bind_eq_ok_iff.1 h
        cases h
        have hfits : found.Fits (nestingLimit - 1) :=
          ((Json.stepsAnswer _).value _ _).holds (lift_eq_ok_iff.1 hfound)
        exact List.forall_mem_cons.2 ⟨hfits, ih hlater⟩

private theorem refuse_ne_ok {α : Type} (expected : String) (text : List Char) (a : α) :
    refuse expected text ≠ .ok a := by
  intro h
  unfold refuse at h
  split at h
  · cases h
  · cases h
  · obtain ⟨_, -, h⟩ := bind_eq_ok_iff.1 h
    cases h

private theorem fits_of_readHead {fields : Json} (h : readHead text = .ok ((kind, fields), rest)) :
    fields.Fits nestingLimit := by
  unfold readHead at h
  split at h
  · obtain ⟨⟨⟨_, entries⟩, _⟩, hentries, h⟩ := bind_eq_ok_iff.1 h
    cases h
    exact .object (fits_of_readTagged hentries)
  · obtain ⟨⟨more, _⟩, -, h⟩ := bind_eq_ok_iff.1 h
    cases more with
    | false => cases h
    | true =>
      simp only [if_true] at h
      obtain ⟨_, -, h⟩ := bind_eq_ok_iff.1 h
      obtain ⟨⟨items, _⟩, hitems, h⟩ := bind_eq_ok_iff.1 h
      cases h
      exact .array (((Json.stepsAnswer _).items _ _ _).holds (lift_eq_ok_iff.1 hitems))
  · exact absurd h (refuse_ne_ok _ _ _)

private theorem readable_of_decode {source : String} (h : decode source = .ok reply) :
    reply.Readable := by
  unfold decode decodeList at h
  split at h
  · cases h
  · next kind fields rest hhead =>
    split at h
    · cases h
    · next found hfields =>
      split at h
      · cases h
        exact readable_of_readFields (fits_of_readHead hhead) hfields
      · cases h

/-! ## The round trip -/

/-- A reply that was read is read again as it was written, unless the root of a timeout holds a
double. -/
theorem decoded_reply_reads_back {source : String} {reply : Reply} (h : decode source = .ok reply)
    (hdouble : reply.hasDouble = false) : decode reply.text = .ok reply :=
  decode_text_of_readable (readable_of_decode h) hdouble

/-- A timeout as it is read from an array whose object repeats a key. -/
def repeatedKey : Reply :=
  .timeout (some (.object [("a", .null), ("b", .array [.number (.natural 12), .string "\n"])]))

set_option maxRecDepth 2000 in
/-- The reply reads back, although the key that it repeated is written once and its text is escaped
in another way. -/
theorem decoded_reply_reads_back_repeatedKey :
    decode "[\"timeout\", \x7b\"b\": [12, \"\\u000a\"], \"a\": [], \"a\": null\x7d ]" =
        .ok repeatedKey ∧
      repeatedKey.hasDouble = false ∧ decode repeatedKey.text = .ok repeatedKey := by
  have hread : decode "[\"timeout\", \x7b\"b\": [12, \"\\u000a\"], \"a\": [], \"a\": null\x7d ]" =
      .ok repeatedKey := by cbv
  exact ⟨hread, rfl, decoded_reply_reads_back hread rfl⟩

end ReductionStepper.Reply
