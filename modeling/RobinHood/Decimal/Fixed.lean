import RobinHood.Decimal.Binary

/-! Numbers with a fixed count of decimal places, rounded from the exact binary value; a tie goes to
the even digit. -/

namespace RobinHood.Decimal

def placePoint (places count : Nat) : String :=
  let unit := Nat.pow 10 places
  let digits := (Nat.toDigits 10 (count % unit)).length
  let zeros := "".pushn '0' (places - digits)
  s!"{count / unit}.{zeros}{count % unit}"

/-- The magnitude in units of the last of `places` decimal places. -/
def inPlaces (places : Nat) (value : Binary) : Nat :=
  match value.exponent with
  | .ofNat power => value.significand * Nat.pow 2 power * Nat.pow 10 places
  | .negSucc power => roundQuotient (value.significand * Nat.pow 10 places) (Nat.pow 2 (power + 1))

def fixed (places : Nat) (value : Float) : String :=
  if value.isNaN then "NaN"
  else
    let sign := if Binary.negative value.toBits then "-" else ""
    match Binary.ofBits? value.toBits with
    | none => sign ++ "inf"
    | some magnitude => sign ++ placePoint places (inPlaces places magnitude)

end RobinHood.Decimal
