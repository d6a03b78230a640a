/-!
# Positions in a program text

The evaluator gives spans with lines and columns counted from one and both ends included. Inside
the library positions count from zero and a range excludes its end. All numbers have 32 bits.
-/

namespace ReductionStepper.Source

/-- A stretch of program text as the evaluator gives it. -/
structure Span where
  startLine : UInt32
  startColumn : UInt32
  endLine : UInt32
  endColumn : UInt32
  deriving DecidableEq, Repr

/-- A line and a character in it, both counted from zero. -/
structure Position where
  line : UInt32
  column : UInt32
  deriving DecidableEq, Repr

/-- The order of the text: by line, then by column. -/
def Position.before (p q : Position) : Bool :=
  p.line < q.line || p.line == q.line && p.column < q.column

/-- The positions from `start` up to but not including `stop`. -/
structure Range where
  start : Position
  stop : Position
  deriving DecidableEq, Repr

/-- Whether a position lies in a range. -/
def Range.contains (range : Range) (p : Position) : Bool :=
  !p.before range.start && p.before range.stop

/-- A number counted from one as a number counted from zero; zero stays zero. -/
def fromZero (n : UInt32) : UInt32 := if n = 0 then 0 else n - 1

/-- A number counted from one, counted from zero; zero counts as one. -/
theorem toNat_fromZero (n : UInt32) : (fromZero n).toNat = n.toNat - 1 := by
  unfold fromZero
  split
  · next hzero => rw [hzero]; rfl
  · next hne =>
    have hpos : n.toNat ≠ 0 := fun hzero => hne (UInt32.toNat_inj.mp hzero)
    exact UInt32.toNat_sub_of_le n 1 (UInt32.le_iff_toNat_le.mpr (Nat.one_le_iff_ne_zero.mpr hpos))

/-- Counted from zero, no number is the largest one. -/
theorem toNat_fromZero_lt (n : UInt32) : (fromZero n).toNat < UInt32.size - 1 := by
  have hlt : n.toNat < UInt32.size := n.toNat_lt_size
  have hsize : UInt32.size = 4294967296 := rfl
  rw [toNat_fromZero]
  omega

/-- Counting from one again loses nothing but a zero. -/
theorem toNat_fromZero_add_one (n : UInt32) : (fromZero n + 1).toNat = max 1 n.toNat := by
  have hlt := toNat_fromZero_lt n
  have hsize : UInt32.size = 4294967296 := rfl
  rw [UInt32.toNat_add, UInt32.toNat_one, Nat.mod_eq_of_lt (by omega), toNat_fromZero]
  omega

/-- The range of a span. The last column, counted from one and included, is the end column,
counted from zero and excluded. -/
def Span.toRange (span : Span) : Range :=
  { start := ⟨fromZero span.startLine, fromZero span.startColumn⟩
    stop := ⟨fromZero span.endLine, span.endColumn⟩ }

/-- A count as a 32-bit number; beyond the largest one it stays there. -/
def clamp (n : Nat) : UInt32 := UInt32.ofNat (min n (UInt32.size - 1))

end ReductionStepper.Source
