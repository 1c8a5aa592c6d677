import WorkerHost.Numeric.Shortest
/-!
How a float is written. The digits are always the shortest that read back; a `Layout` holds the
decisions a format makes about them.
-/

namespace WorkerHost

/-- The decisions of a format that writes floats. -/
structure FloatLayout where
  /-- the least exponent of the leading digit that is written with a plain point -/
  plainFrom : Int
  /-- the first exponent too large for a plain point -/
  plainBelow : Int
  /-- whether a positive exponent has a sign -/
  plusSign : Bool
  /-- which of two equally near digit strings is written -/
  tie : Shortest.Tie

namespace FloatLayout

/-- A float shown to a person: plain from `0.0001` up to `1e16`, a tie goes up. -/
def display : FloatLayout := ⟨-4, 16, false, .up⟩

/-- A float in JSON text: plain from `0.00001` up to `1e16`, the exponent always signed, a tie goes
to the even digit. -/
def json : FloatLayout := ⟨-5, 16, true, .even⟩

/-- A float with a plain point whatever its size. -/
def positional : FloatLayout := ⟨-400, 400, false, .up⟩

/-- Digits with a point, at least one on each side of it. -/
def plain (ds : List Char) (exponent : Int) : List Char :=
  if exponent < 0 then
    '0' :: '.' :: List.replicate (-exponent - 1).toNat '0' ++ ds
  else
    let whole := exponent.toNat + 1
    let before := ds.take whole ++ List.replicate (whole - ds.length) '0'
    let after := ds.drop whole
    before ++ '.' :: if after.isEmpty then ['0'] else after

/-- Digits with an exponent, and a point after the first if there are more. -/
def scientific (layout : FloatLayout) (ds : List Char) (exponent : Int) : List Char :=
  let mantissa :=
    match ds with
    | d :: rest => d :: if rest.isEmpty then [] else '.' :: rest
    | [] => []
  let sign := if exponent < 0 then ['-'] else if layout.plusSign then ['+'] else []
  mantissa ++ 'e' :: sign ++ Nat.toDigits 10 exponent.natAbs

/-- The text of a finite float. -/
def finite (layout : FloatLayout) (x : Binary64) : String :=
  let sign := if x.isNegative then ['-'] else []
  if x.isZero then String.ofList (sign ++ "0.0".toList)
  else
    let d := Shortest.digits layout.tie x
    let ds := Nat.toDigits 10 d.digits
    let isPlain := decide (layout.plainFrom ≤ d.exponent) && decide (d.exponent < layout.plainBelow)
    String.ofList (sign ++
      if isPlain then plain ds d.exponent else layout.scientific ds d.exponent)

end FloatLayout

/-- The text of any float as shown to a person. -/
def Binary64.display (x : Binary64) : String :=
  if x.isNaN then "NaN"
  else if !x.isFinite then (if x.isNegative then "-inf" else "inf")
  else FloatLayout.display.finite x

end WorkerHost
