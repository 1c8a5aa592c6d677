import WorkerHost.Numeric.Binary64
import WorkerHost.Text.Scan
import WorkerHost.Text.Words
/-!
Floats written in decimal, rounded to nearest.
-/

namespace WorkerHost

open Text

namespace Binary64

/-- The float nearest to the number with these digits before and after the point, times a power of
ten. Beyond the bounds on the exponent the number is an infinity or zero. -/
def ofDigits (negative : Bool) (whole fraction : List Char) (exponent : Int) : Binary64 :=
  let count : Int := whole.length + fraction.length
  let e := exponent - fraction.length
  ofDecimal negative (decimal (whole ++ fraction)) (max (-400 - count) (min e 400))

end Binary64

/-- The exponent after an `e`. -/
def decimalExponent : Scan Int := do
  let _ ← Scan.one fun c => c == 'e' || c == 'E'
  let sign ← Scan.option (Scan.one fun c => c == '+' || c == '-')
  let ds ← Scan.takeSome Char.isDigit
  let e : Int := decimal ds
  return if sign == some '-' then -e else e

/-- A float: a sign, digits with a point anywhere among them, and an exponent, of which only the
digits are needed. -/
def decimalFloat : Scan Binary64 := do
  let sign ← Scan.option (Scan.one fun c => c == '+' || c == '-')
  let whole ← Scan.takeWhile Char.isDigit
  let fraction ← Scan.option (do Scan.char '.'; Scan.takeWhile Char.isDigit)
  let fraction := fraction.getD []
  guard !(whole.isEmpty && fraction.isEmpty)
  let e ← Scan.option decimalExponent
  return Binary64.ofDigits (sign == some '-') whole fraction (e.getD 0)

end WorkerHost
