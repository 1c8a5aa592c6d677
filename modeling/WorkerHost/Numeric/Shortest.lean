import WorkerHost.Numeric.Binary64
/-!
The fewest decimal digits that read back as a given float, and of those the ones nearest to it.

A finite positive float `m * 2 ^ q` stands for an interval of reals, those that round to it; its
ends belong to it exactly when `m` is even. For one digit, two digits and so on the two neighbours
of the float on that decimal grid are tried, in exact arithmetic; the first grid with a hit wins.
-/

namespace WorkerHost.Shortest

/-- Which of two equally near digit strings is taken. -/
inductive Tie where
  | up
  | even

/-- Digits `d₁d₂…` and the exponent `k` of `d₁.d₂… * 10 ^ k`. -/
structure Digits where
  digits : Nat
  count : Nat
  exponent : Int

/-- The reals that round to a float, over a common positive denominator. -/
structure Interval where
  low : Nat
  value : Nat
  high : Nat
  den : Nat
  closed : Bool

/-- The interval of a finite positive float. The gap below a power of two is half the gap above,
except at the bottom of the range. -/
def Interval.of (x : Binary64) : Interval :=
  let m := x.significand
  let narrow := x.fractionField = 0 && x.exponentField > 1
  let low := if narrow then 4 * m - 1 else 4 * m - 2
  let closed := m % 2 = 0
  if x.exponent ≥ 0 then
    let p := 2 ^ x.exponent.toNat
    ⟨low * p, 4 * m * p, (4 * m + 2) * p, 4, closed⟩
  else
    ⟨low, 4 * m, 4 * m + 2, 4 * 2 ^ (-x.exponent).toNat, closed⟩

/-- Whether the point `n / unit` lies in the interval, both over denominator `den * unit`. -/
def Interval.holds (i : Interval) (scaleUp scaleDown n : Nat) : Bool :=
  let point := n * i.den * scaleUp
  let low := i.low * scaleDown
  let high := i.high * scaleDown
  if i.closed then low ≤ point && point ≤ high else low < point && point < high

/-- The decimal exponent of the leading digit: the greatest `k` with `10 ^ k ≤ num / den`, found by
stepping up or down from an estimate. -/
def leading (num den : Nat) : Int :=
  let estimate : Int := ((Nat.log2 num : Int) - (Nat.log2 den : Int)) * 30103 / 100000
  let reaches (k : Int) : Bool :=
    if k ≥ 0 then den * 10 ^ k.toNat ≤ num else den ≤ num * 10 ^ (-k).toNat
  if reaches (estimate + 1) then estimate + 1
  else if reaches estimate then estimate
  else estimate - 1

/-- The neighbour of the float on the grid of `count` digits that lies in the interval, the nearer
if both do. -/
def onGrid (tie : Tie) (i : Interval) (k : Int) (count : Nat) : Option Nat :=
  let unit : Int := k - (count - 1 : Nat)
  let up := if unit ≥ 0 then 10 ^ unit.toNat else 1
  let down := if unit ≥ 0 then 1 else 10 ^ (-unit).toNat
  -- The float is `value * down / (den * up)` units of the grid.
  let num := i.value * down
  let den := i.den * up
  let lo := num / den
  let r := num % den
  let lower := i.holds up down lo
  let upper := i.holds up down (lo + 1)
  if lower && (r == 0 || !upper) then some lo
  else if upper && !lower then some (lo + 1)
  else if lower && upper then
    if 2 * r < den then some lo
    else if den < 2 * r then some (lo + 1)
    else
      match tie with
      | .up => some (lo + 1)
      | .even => some (lo + lo % 2)
  else none

/-- Tries grids of more and more digits; seventeen always suffice. -/
def search (tie : Tie) (i : Interval) (k : Int) : Nat → Nat → Nat × Nat
  | 0, count => (i.value / i.den, count)
  | fuel + 1, count =>
    match onGrid tie i k count with
    | some n => (n, count)
    | none => search tie i k fuel (count + 1)

/-- Drops zeros at the end of the digits. -/
def dropZeros : Nat → Nat → Nat → Nat × Nat
  | 0, n, count => (n, count)
  | fuel + 1, n, count => if n % 10 == 0 && count > 1 then dropZeros fuel (n / 10) (count - 1)
    else (n, count)

/-- The shortest digits of a finite positive float. -/
def digits (tie : Tie) (x : Binary64) : Digits :=
  let i := Interval.of x
  let k := leading i.value i.den
  let (n, count) := search tie i k 17 1
  -- Rounding up may reach the next power of ten.
  let (n, count, k) := if n ≥ 10 ^ count then (n, count + 1, k + 1) else (n, count, k)
  let (n, count) := dropZeros 17 n count
  ⟨n, count, k⟩

end WorkerHost.Shortest
