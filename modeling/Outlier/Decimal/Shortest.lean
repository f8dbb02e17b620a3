/-! # The shortest decimal of a double

A finite double stands for every real number that rounds to it. Its shortest decimal is the one
with the fewest significant digits among those numbers, and of several the nearest to the double.
`shortest?` finds it in exact arithmetic: on each decimal grid, from one digit on, it tests the two
grid points next to the double. `Layout` then says how digits and exponent become text. -/

namespace Outlier.Decimal

/-- A positive fraction together with the ends of the interval of reals that round to it, all over
the common denominator `den`. -/
structure Interval where
  low : Nat
  mid : Nat
  high : Nat
  den : Nat
  /-- Do the ends themselves round to the double? -/
  closed : Bool

/-- The interval of the positive double with the given bits, its sign bit apart. -/
def Interval.ofBits (bits : Nat) : Interval :=
  let fraction := bits % 1 <<< 52
  let exponent := bits >>> 52 % 1 <<< 11
  let m := if exponent = 0 then fraction else fraction + 1 <<< 52
  let shift := (max exponent 1) - 1
  -- the double is `m * 2 ^ (shift - 1074)`; quarters of its last place are whole here
  let up := 1 <<< (shift - 1076)
  let below := if fraction = 0 && exponent > 1 then 1 else 2
  { low := (4 * m - below) * up
    mid := 4 * m * up
    high := (4 * m + 2) * up
    den := 1 <<< (1076 - shift)
    closed := m % 2 == 0 }

/-- Does the fraction `num / den` round to the double? -/
def Interval.holds (i : Interval) (num den : Nat) : Bool :=
  if i.closed then i.low * den ≤ num * i.den && num * i.den ≤ i.high * den
  else i.low * den < num * i.den && num * i.den < i.high * den

/-- Decimal digits with the power of ten of the last one. -/
structure Digits where
  value : Nat
  exponent : Int

/-- The power `10 ^ e` as numerator and denominator. -/
def tenTo (e : Int) : Nat × Nat := (Nat.pow 10 e.toNat, Nat.pow 10 (-e).toNat)

/-- The least `k` with `mid / den < 10 ^ k`, when the fraction is below one: counted down from zero
while one more power of ten still leaves it below one. -/
def leadingBelow (i : Interval) : Nat → Nat → Int
  | 0, j => -(j : Int)
  | fuel + 1, j =>
    if i.mid * Nat.pow 10 (j + 1) < i.den then leadingBelow i fuel (j + 1) else -(j : Int)

/-- The position of the first digit: the least `k` with `mid / den < 10 ^ k`. -/
def leading (i : Interval) : Int :=
  if i.mid < i.den then leadingBelow i 400 0 else ((Nat.toDigits 10 (i.mid / i.den)).length : Int)

/-- The grid point with `n` significant digits that rounds to the double, nearest first. Of two that
are equally near, the even one comes first. -/
def onGrid? (i : Interval) (k : Int) (n : Nat) : Option Digits :=
  let e := k - n
  let (up, down) := tenTo e
  let floor := i.mid * down / (i.den * up)
  let rest := i.mid * down % (i.den * up)
  let isIn := fun (d : Nat) => i.holds (d * up) down
  let isBelow := 2 * rest < i.den * up || (2 * rest = i.den * up && floor % 2 == 0)
  let (near, far) := if isBelow then (floor, floor + 1) else (floor + 1, floor)
  if isIn near then some ⟨near, e⟩ else if isIn far then some ⟨far, e⟩ else none

/-- Move trailing zeros into the exponent. -/
def Digits.trim (d : Digits) : Nat → Digits
  | 0 => d
  | fuel + 1 =>
    if d.value ≠ 0 && d.value % 10 == 0 then trim ⟨d.value / 10, d.exponent + 1⟩ fuel else d

/-- The shortest decimal that rounds to the positive double, if the bits are those of one. -/
def shortest? (bits : Nat) : Option Digits :=
  let i := Interval.ofBits bits
  let k := leading i
  ((List.range 17).findSome? fun n => onGrid? i k (n + 1)).map (·.trim 20)

/-- How a decimal is laid out as text. -/
structure Layout where
  /-- Least power of ten of the first digit that is written out. -/
  least : Int
  /-- Greatest power of ten of the first digit that is written out. -/
  greatest : Int

/-- Numbers from `1e-5` up to `1e16` are written out, others with a signed exponent. -/
def Layout.standard : Layout := ⟨-5, 15⟩

/-- The decimal as text; a whole number keeps one zero after the point when it is written out. -/
def Layout.text (l : Layout) (d : Digits) : String :=
  let digits := Nat.toDigits 10 d.value
  let first := d.exponent + digits.length - 1
  if l.least ≤ first && first ≤ l.greatest then
    if first < 0 then
      String.ofList (['0', '.'] ++ List.replicate (-first - 1).toNat '0' ++ digits)
    else
      let places := first.toNat + 1
      let whole := (digits ++ List.replicate (places - digits.length) '0').take places
      let rest := digits.drop places
      String.ofList (whole ++ ['.'] ++ (if rest.isEmpty then ['0'] else rest))
  else
    let tail := digits.drop 1
    String.ofList (digits.take 1 ++ (if tail.isEmpty then [] else '.' :: tail)
      ++ ['e', if first < 0 then '-' else '+'] ++ Nat.toDigits 10 first.natAbs)

/-- The text of a double given by its bits. -/
def ofBits (bits : UInt64) : String :=
  let n := bits.toNat
  let sign := if n >>> 63 = 1 then "-" else ""
  let magnitude := n % 1 <<< 63
  if magnitude = 0 then sign ++ "0.0"
  else match shortest? magnitude with
    | some d => sign ++ Layout.standard.text d
    | none => sign

end Outlier.Decimal
