import Outlier.Text.Digits

/-! # Decimals as doubles

A decimal is a whole significand of at most 64 bits times a power of ten. It becomes a double in two
roundings, of the significand and of its product with the power or quotient by it. With a
significand up to `2 ^ 53` and a power up to `10 ^ 22` only the last step rounds, so that the result
is the nearest double; otherwise it may be off by a last place. -/

namespace Outlier.Decimal

/-- The number `significand * 10 ^ exponent`. -/
structure Scaled where
  significand : Nat
  exponent : Int

/-- Append digits to a number while it stays below `2 ^ 64`, and count those left over. -/
def appendDigits (n : Nat) : List Char → Nat × Nat
  | [] => (n, 0)
  | c :: rest =>
    let next := Text.decimalValue [c] + 10 * n
    if next < UInt64.size then appendDigits next rest else (n, rest.length + 1)

/-- The decimal with the given digits before and after its point, times a power of ten. Digits left
over before the point count as zeros, those after it are dropped. -/
def Scaled.ofDigits (whole fraction : List Char) (exponent : Int) : Scaled :=
  let (n, missing) := appendDigits 0 whole
  let (significand, dropped) := appendDigits n fraction
  ⟨significand, exponent + missing - (fraction.length - dropped : Nat)⟩

/-- The greatest exponent of a power of ten among the doubles. -/
def greatestPower : Nat := 308

/-- The double nearest to `10 ^ n`. -/
def tenPower (n : Nat) : Float := Float.ofScientific 1 false n

/-- The double times `10 ^ places`, if that is finite. -/
def raise? (f : Float) (places : Nat) : Option Float :=
  if f == 0.0 then some f
  else
    let raised := f * tenPower places
    if greatestPower < places || raised.isInf then none else some raised

/-- The double divided by `10 ^ places`, which takes more than one division where the power itself
is no double. -/
def lower (f : Float) (places : Nat) : Float :=
  if places ≤ greatestPower then f / tenPower places
  else if f == 0.0 then f
  else lower (f / tenPower greatestPower) (places - greatestPower)
termination_by places
decreasing_by
  have : 0 < greatestPower := by decide
  omega

/-- The bits of the decimal as a double, if it is in range. -/
def Scaled.toBits? (d : Scaled) (negative : Bool) : Option UInt64 := do
  let significand := (UInt64.ofNat d.significand).toFloat
  let magnitude ←
    if d.exponent < 0 then some (lower significand d.exponent.natAbs)
    else raise? significand d.exponent.natAbs
  return (if negative then -magnitude else magnitude).toBits

end Outlier.Decimal
