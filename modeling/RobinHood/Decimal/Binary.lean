/-! The exact value of a binary64 number, as a whole significand and a power of two, and the
rounding of what it is divided into. -/

namespace RobinHood

/-- The magnitude `significand * 2 ^ exponent` of a finite number. -/
structure Binary where
  significand : Nat
  exponent : Int

namespace Binary

def fractionBits (bits : UInt64) : Nat :=
  bits.toNat % Nat.pow 2 52

def exponentBits (bits : UInt64) : Nat :=
  bits.toNat / Nat.pow 2 52 % Nat.pow 2 11

def negative (bits : UInt64) : Bool :=
  bits.toNat / Nat.pow 2 63 % 2 == 1

def ofBits? (bits : UInt64) : Option Binary :=
  match exponentBits bits with
  | 0 => some { significand := fractionBits bits, exponent := -1074 }
  | 2047 => none
  | biased =>
      some { significand := Nat.pow 2 52 + fractionBits bits, exponent := (biased : Int) - 1075 }

end Binary

namespace Decimal

/-- The whole number nearest to a quotient, the even one of two. -/
def roundQuotient (numerator denominator : Nat) : Nat :=
  let whole := numerator / denominator
  let rest := numerator % denominator
  if 2 * rest < denominator then whole
  else if denominator < 2 * rest then whole + 1
  else whole + whole % 2

end Decimal

end RobinHood
