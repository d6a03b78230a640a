/-!
# Shortest decimals

The shortest decimal that reads back as a given double, and of several shortest ones the nearest.
A positive finite double is `m * 2 ^ q`; the reals that round to it form an interval around it,
ends included exactly when `m` is even. On the grid of decimals with a given number of digits the
interval holds a point exactly when it holds one of the two points next to the double, so
trying one digit, two digits and so on finds the shortest. All arithmetic is exact.
-/

namespace ReductionStepper

/-- A positive decimal, `digits * 10 ^ exponent`. -/
structure Decimal where
  digits : Nat
  exponent : Int
  deriving DecidableEq, Repr

namespace Decimal

/-- A positive double's value and the ends of the interval that rounds to it, over one
denominator. -/
structure Rounding where
  low : Nat
  mid : Nat
  high : Nat
  den : Nat
  closed : Bool

/-- The interval of `m * 2 ^ q`; the gap below a power of two is half the gap above it. -/
def Rounding.of (m : Nat) (q : Int) (powerOfTwo : Bool) : Rounding :=
  let scale := Nat.pow 2 (q - 2).toNat
  { low := (4 * m - if powerOfTwo then 1 else 2) * scale
    mid := 4 * m * scale
    high := (4 * m + 2) * scale
    den := Nat.pow 2 (2 - q).toNat
    closed := m % 2 == 0 }

/-- The interval of a finite double from its bits, none for zero. -/
def Rounding.ofBits? (bits : UInt64) : Option Rounding :=
  let fraction : Nat := bits.toNat % Nat.pow 2 52
  let biased : Nat := bits.toNat / Nat.pow 2 52 % Nat.pow 2 11
  if biased = 0 then
    if fraction = 0 then none else some (.of fraction (-1074) false)
  else some (.of (Nat.pow 2 52 + fraction) ((biased : Int) - 1075) (fraction == 0 && biased != 1))

/-- Whether the decimal lies in the interval. -/
def Rounding.contains (r : Rounding) (d : Decimal) : Bool :=
  let point := d.digits * Nat.pow 10 d.exponent.toNat * r.den
  let unit := Nat.pow 10 (-d.exponent).toNat
  if r.closed then r.low * unit ≤ point && point ≤ r.high * unit
  else r.low * unit < point && point < r.high * unit

/-- The number of digits before the decimal point, negative for leading zeros behind it. -/
def Rounding.magnitude (r : Rounding) : Int :=
  ((Nat.toDigits 10 (r.mid * Nat.pow 10 400 / r.den)).length : Int) - 400

/-- The nearest point of the interval on the grid of decimals with `count` digits. -/
def Rounding.onGrid? (r : Rounding) (count : Nat) : Option Decimal :=
  let exponent := r.magnitude - count
  let num := r.mid * Nat.pow 10 (-exponent).toNat
  let den := r.den * Nat.pow 10 exponent.toNat
  let below : Decimal := ⟨num / den, exponent⟩
  let above : Decimal := ⟨num / den + 1, exponent⟩
  match r.contains below, r.contains above with
  | true, true =>
    let rest := num % den
    some (if 2 * rest < den || 2 * rest == den && below.digits % 2 == 0 then below else above)
  | true, false => some below
  | false, true => some above
  | false, false => none

/-- Moves the zeros at the end of the digits into the exponent. -/
def trimmed (d : Decimal) : Decimal :=
  if h : d.digits ≠ 0 ∧ d.digits % 10 = 0 then trimmed ⟨d.digits / 10, d.exponent + 1⟩
  else d
termination_by d.digits
decreasing_by exact Nat.div_lt_self (Nat.pos_of_ne_zero h.1) (by decide)

/-- The shortest decimal of a finite double's magnitude; none for zero. -/
def shortest? (value : Float) : Option Decimal := do
  let r ← Rounding.ofBits? value.toBits
  let d ← (List.range' 1 17).findSome? r.onGrid?
  return d.trimmed

end Decimal

end ReductionStepper
