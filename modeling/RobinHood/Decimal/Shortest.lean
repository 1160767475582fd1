import RobinHood.Decimal.Binary
import RobinHood.Search

/-! The fewest decimal digits that read back as the same binary64 number, and of those the
nearest. -/

namespace RobinHood.Decimal

structure Scaled where
  digits : Nat
  exponent : Int

/-- A positive number and the bounds of what rounds to it, all over one denominator. -/
structure Neighbourhood where
  lower : Nat
  value : Nat
  upper : Nat
  denominator : Nat
  /-- The bounds themselves round to the number. -/
  closed : Bool

namespace Neighbourhood

/-- Half the gap to the next number on either side; below a power of two the gap is halved. -/
def ofBinary (value : Binary) : Neighbourhood :=
  let quarters := 4 * value.significand
  let below := if value.significand = Nat.pow 2 52 ∧ -1074 < value.exponent then 1 else 2
  let scale (count : Nat) : Nat := count * Nat.pow 2 (value.exponent - 2).toNat
  { lower := scale (quarters - below)
    value := scale quarters
    upper := scale (quarters + 2)
    denominator := Nat.pow 2 (2 - value.exponent).toNat
    closed := value.significand % 2 == 0 }

def holds (around : Neighbourhood) (digits : Nat) (exponent : Int) : Bool :=
  let count := digits * Nat.pow 10 exponent.toNat * around.denominator
  let unit := Nat.pow 10 (-exponent).toNat
  if around.closed then around.lower * unit ≤ count && count ≤ around.upper * unit
  else around.lower * unit < count && count < around.upper * unit

def leading (around : Neighbourhood) : Int :=
  if around.denominator ≤ around.value then
    ((Nat.toDigits 10 (around.value / around.denominator)).length : Int) - 1
  else
    match firstWhere (fun power => around.denominator ≤ around.value * Nat.pow 10 power) 1 400 with
    | some power => -(power : Int)
    | none => 0

/-- The neighbour on a decimal grid that rounds to the number; if both do the nearer one, and if
they are equally near the even one. -/
def onGrid (around : Neighbourhood) (exponent : Int) : Option Nat :=
  let numerator := around.value * Nat.pow 10 (-exponent).toNat
  let denominator := around.denominator * Nat.pow 10 exponent.toNat
  let floor := numerator / denominator
  match around.holds floor exponent, around.holds (floor + 1) exponent with
  | true, false => some floor
  | false, true => some (floor + 1)
  | true, true => some (roundQuotient numerator denominator)
  | false, false => none

end Neighbourhood

def trimZeros : Nat → Scaled → Scaled
  | 0, scaled => scaled
  | fuel + 1, scaled =>
      if scaled.digits % 10 = 0 then
        trimZeros fuel { digits := scaled.digits / 10, exponent := scaled.exponent + 1 }
      else scaled

/-- Tries grids of one, two and more digits; seventeen digits tell all numbers apart. -/
def shortest (value : Binary) : Scaled :=
  let around := Neighbourhood.ofBinary value
  let onGridOf (count : Nat) : Option Scaled :=
    let exponent := around.leading - count + 1
    (around.onGrid exponent).map fun digits => trimZeros 20 { digits, exponent }
  (firstAnswer onGridOf 1 17).getD { digits := value.significand, exponent := value.exponent }

/-- Writes the digits plainly while the point stands within sixteen digits, and not more than five
places before them; otherwise with a signed power of ten. -/
def Scaled.text (scaled : Scaled) : String :=
  let digits := Nat.toDigits 10 scaled.digits
  let point := (digits.length : Int) + scaled.exponent
  let zeros (count : Int) : String := "".pushn '0' count.toNat
  if 0 ≤ scaled.exponent ∧ point ≤ 16 then
    String.ofList digits ++ zeros scaled.exponent ++ ".0"
  else if 0 < point ∧ point ≤ 16 then
    String.ofList (digits.take point.toNat) ++ "." ++ String.ofList (digits.drop point.toNat)
  else if -5 < point ∧ point ≤ 0 then
    "0." ++ zeros (-point) ++ String.ofList digits
  else
    let fraction := digits.drop 1
    let mantissa := if fraction.isEmpty then "" else "." ++ String.ofList fraction
    let sign := if 0 < point then "+" else ""
    String.ofList (digits.take 1) ++ mantissa ++ "e" ++ sign ++ toString (point - 1)

def shortestText (value : Float) : String :=
  let sign := if Binary.negative value.toBits then "-" else ""
  match Binary.ofBits? value.toBits with
  | none => if value.isNaN then "NaN" else sign ++ "inf"
  | some magnitude =>
      if magnitude.significand = 0 then sign ++ "0.0" else sign ++ (shortest magnitude).text

end RobinHood.Decimal
