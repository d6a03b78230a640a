import ReductionStepper.Json.Reader
import ReductionStepper.Proofs.Json.Canonical

/-!
# The depth of what was read

A reader that may open so many brackets answers values that open no more, whatever the text. A
negative number that it keeps exactly is at least `-2 ^ 63`.
-/

namespace ReductionStepper.Json

/-! ## Answers of readers -/

section Answers

variable {α β : Type} {P : α → Prop} {Q : β → Prop}

/-- Whatever the reader answers has the property. -/
structure Answers (P : α → Prop) (result : Except Fault (α × List Char)) : Prop where
  holds {a : α} {rest : List Char} (h : result = .ok (a, rest)) : P a

private theorem Answers.ok {a : α} (h : P a) (rest : List Char) : Answers P (.ok (a, rest)) where
  holds := by
    rintro _ _ ⟨⟩
    exact h

private theorem Answers.error (fault : Fault) : Answers P (.error fault) := ⟨nofun⟩

private theorem Answers.failBefore (error : SyntaxError) (text : List Char) :
    Answers P (failBefore error text) := .error _

private theorem Answers.failAt (error : SyntaxError) (text : List Char) :
    Answers P (failAt error text) := .error _

/-- A reader goes on behind the answer of another one. -/
theorem Answers.bind {result : Except Fault (α × List Char)}
    {next : α × List Char → Except Fault (β × List Char)} (h : Answers P result)
    (hnext : ∀ a rest, P a → Answers Q (next (a, rest))) : Answers Q (result >>= next) := by
  cases result with
  | error fault => exact .error fault
  | ok answer => exact hnext answer.1 answer.2 (h.holds rfl)

/-- A reader goes on behind something it needs no answer of. -/
theorem Answers.after {γ : Type} {result : Except Fault γ}
    {next : γ → Except Fault (β × List Char)} (hnext : ∀ c, Answers Q (next c)) :
    Answers Q (result >>= next) := by
  cases result with
  | error fault => exact .error fault
  | ok c => exact hnext c

end Answers

variable {depth : Nat}

/-! ## Numbers -/

/-- The number fits as a value. -/
def NumberFits (number : Number) : Prop := ∀ depth, Fits depth (.number number)

private theorem numberFits_double (value : Float) :
    NumberFits (.double value) := fun _ => .double value

private theorem double_answers (positive : Bool) (number : Nat) (exponent : Int)
    (text : List Char) :
    Answers NumberFits (double positive number exponent text) := by
  unfold double
  split
  · exact .failBefore _ _
  · exact .ok (numberFits_double _) _

private theorem exponentDigits_answers (positive : Bool) (number : Nat) (start : Int)
    (upward : Bool) (exponent : Nat) (text : List Char) :
    Answers NumberFits (exponentDigits positive number start upward exponent text) := by
  induction text generalizing exponent with
  | nil => exact double_answers ..
  | cons c cs ih =>
    simp only [exponentDigits]
    split
    · split
      · exact ih _
      · split
        · exact .failBefore _ _
        · exact .ok (numberFits_double _) _
    · exact double_answers ..

private theorem exponentPart_answers (positive : Bool) (number : Nat) (start : Int)
    (text : List Char) :
    Answers NumberFits (exponentPart positive number start text) := by
  simp only [exponentPart]
  split
  · exact .failBefore _ _
  · split
    · exact exponentDigits_answers ..
    · exact .failAt _ _

private theorem exponentOrDouble_answers (positive : Bool) (number : Nat) (exponent : Int)
    (text : List Char) : Answers NumberFits (exponentOrDouble positive number exponent text) := by
  unfold exponentOrDouble
  split
  · exact exponentPart_answers ..
  · exact exponentPart_answers ..
  · exact double_answers ..

private theorem fractionPart_answers (positive : Bool) (number : Nat) (start : Int)
    (text : List Char) :
    Answers NumberFits (fractionPart positive number start text) := by
  simp only [fractionPart]
  split
  · exact exponentOrDouble_answers ..
  · split
    · exact .failAt _ _
    · exact exponentOrDouble_answers ..

private theorem wholeNumber_answers (positive : Bool) (number : Nat) (text : List Char) :
    Answers NumberFits (wholeNumber positive number text) := by
  unfold wholeNumber
  split
  · exact fractionPart_answers ..
  · exact exponentPart_answers ..
  · exact exponentPart_answers ..
  · split
    · exact .ok (fun _ => .natural _) _
    · split
      · next hbound =>
        have hnumber : (UInt64.ofNat number).toNat = number :=
          UInt64.toNat_ofNat_of_lt' (Nat.lt_of_le_of_lt hbound.2 (by decide))
        refine .ok (fun _ => .negative ?_ ?_) _
        · rw [hnumber]
          exact Nat.pos_of_ne_zero hbound.1
        · rw [hnumber]
          exact hbound.2
      · exact .ok (numberFits_double _) _

private theorem longNumber_answers (positive : Bool) (number : Nat) (text : List Char) :
    Answers NumberFits (longNumber positive number text) := by
  unfold longNumber
  split
  · exact fractionPart_answers ..
  · exact exponentOrDouble_answers ..

private theorem readNumber_answers (positive : Bool) (text : List Char) :
    Answers NumberFits (readNumber positive text) := by
  cases text with
  | nil => exact .failBefore _ _
  | cons c cs =>
    simp only [readNumber]
    split
    · split
      · exact .failAt _ _
      · exact wholeNumber_answers ..
    · split
      · split
        · exact longNumber_answers ..
        · exact wholeNumber_answers ..
      · exact .failAt _ _

/-! ## Values -/

private theorem keyword_answers {α : Type} {P : α → Prop} {result : α} (h : P result)
    (word text : List Char) : Answers P (keyword result word text) := by
  induction word generalizing text with
  | nil => exact .ok h _
  | cons k ks ih =>
    cases text with
    | nil => exact .failBefore _ _
    | cons c cs =>
      rw [keyword]
      split
      · exact ih cs
      · exact .failAt _ _

/-- What holds of the reader of values and of those of items and of entries with so many steps. -/
structure StepsAnswer (steps : Nat) : Prop where
  value (depth : Nat) (text : List Char) : Answers (Fits depth) (valueWithin steps depth text)
  items (depth : Nat) (first : Bool) (text : List Char) :
    Answers (∀ item ∈ ·, Fits depth item) (itemsWithin steps depth first text)
  entries (depth : Nat) (first : Bool) (text : List Char) :
    Answers (∀ entry ∈ ·, Fits depth entry.2) (entriesWithin steps depth first text)

private theorem StepsAnswer.value_succ {steps : Nat} (h : StepsAnswer steps) (depth : Nat)
    (text : List Char) : Answers (Fits depth) (valueWithin (steps + 1) depth text) := by
  rw [valueWithin]
  split
  · exact .failAt _ _
  · exact keyword_answers .null ..
  · exact keyword_answers (.bool true) ..
  · exact keyword_answers (.bool false) ..
  · exact .after fun (content, rest) => .ok (.string content) rest
  · exact .bind (readNumber_answers ..) fun number rest hnumber => .ok (hnumber depth) rest
  · cases depth with
    | zero => exact .failAt _ _
    | succ depth =>
      exact .bind (h.items depth true _) fun items rest hitems => .ok (.array hitems) rest
  · cases depth with
    | zero => exact .failAt _ _
    | succ depth =>
      exact .bind (h.entries depth true _) fun entries rest hentries => .ok (.object hentries) rest
  · split
    · exact .bind (readNumber_answers ..) fun number rest hnumber => .ok (hnumber depth) rest
    · exact .failAt _ _

private theorem StepsAnswer.items_succ {steps : Nat} (h : StepsAnswer steps) (depth : Nat)
    (first : Bool) (text : List Char) :
    Answers (∀ item ∈ ·, Fits depth item) (itemsWithin (steps + 1) depth first text) := by
  rw [itemsWithin]
  refine .after fun (more, rest) => ?_
  simp only
  split
  · refine .bind (h.value depth rest) fun item rest hitem => ?_
    refine .bind (h.items depth false rest) fun items rest hitems => .ok ?_ rest
    exact List.forall_mem_cons.2 ⟨hitem, hitems⟩
  · exact .ok (List.forall_mem_nil _) rest

private theorem StepsAnswer.entries_succ {steps : Nat} (h : StepsAnswer steps) (depth : Nat)
    (first : Bool) (text : List Char) :
    Answers (∀ entry ∈ ·, Fits depth entry.2) (entriesWithin (steps + 1) depth first text) := by
  rw [entriesWithin]
  refine .after fun (more, rest) => ?_
  simp only
  split
  · refine .after fun (key, rest) => .after fun rest => ?_
    refine .bind (h.value depth rest) fun value rest hvalue => ?_
    refine .bind (h.entries depth false rest) fun entries rest hentries => .ok ?_ rest
    exact List.forall_mem_cons.2 ⟨hvalue, hentries⟩
  · exact .ok (List.forall_mem_nil _) rest

/-- Whatever the number of steps, values that are read open no more brackets than they may. -/
theorem stepsAnswer (steps : Nat) : StepsAnswer steps := by
  induction steps with
  | zero =>
    exact ⟨fun _ _ => .failBefore _ _, fun _ _ _ => .failBefore _ _, fun _ _ _ => .failBefore _ _⟩
  | succ steps ih => exact ⟨ih.value_succ, ih.items_succ, ih.entries_succ⟩

end ReductionStepper.Json
