import RobinHood.Json.Value

/-! Numbers in documents. Digits are taken while the number fits 64 bits; with a fraction, an
exponent or too many digits the number is a float, scaled once by a power of ten. -/

namespace RobinHood.Json

inductive ReadError where
  | unfinished
  | malformed
deriving DecidableEq

def digitValue (char : Char) : Nat :=
  char.toNat - '0'.toNat

def digits (chars : List Char) : List Char × List Char :=
  chars.span Char.isDigit

def appendDigits (limit : Nat) (number : Nat) : List Char → Nat × List Char
  | [] => (number, [])
  | digit :: rest =>
      let longer := number * 10 + digitValue digit
      if longer < limit then appendDigits limit longer rest else (number, digit :: rest)

/-- A number as written: its sign, its digits, and the power of ten of the last digit. -/
structure Written where
  negative : Bool
  significand : Nat
  exponent : Int

/-- Scales by a power of ten; powers beyond the largest that fits are applied in steps. -/
def Written.scale (number : Written) : Except ReadError Float := do
  let magnitude ← go 4 (UInt64.ofNat number.significand).toFloat number.exponent
  pure (if number.negative then -magnitude else magnitude)
where
  go : Nat → Float → Int → Except ReadError Float
    | 0, value, _ => pure value
    | fuel + 1, value, exponent =>
        if exponent.natAbs ≤ 308 then
          let power := Float.ofScientific 1 false exponent.natAbs
          if 0 ≤ exponent then
            if (value * power).isInf then throw .malformed else pure (value * power)
          else pure (value / power)
        else if value == 0 then pure value
        else if 0 ≤ exponent then throw .malformed
        else go fuel (value / Float.ofScientific 1 false 308) (exponent + 308)

def readExponent (number : Written) (chars : List Char) : Except ReadError (Json × List Char) := do
  let (down, chars) := match chars with
    | '+' :: rest => (false, rest)
    | '-' :: rest => (true, rest)
    | _ => (false, chars)
  match digits chars with
  | ([], []) => throw .unfinished
  | ([], _) => throw .malformed
  | (run, rest) =>
      match appendDigits (1 <<< 31) 0 run with
      | (power, []) =>
          let exponent := if down then number.exponent - power else number.exponent + power
          let value ← { number with exponent }.scale
          pure (.float value, rest)
      | (_, _ :: _) =>
          if number.significand ≠ 0 ∧ ¬ down then throw .malformed
          else pure (.float (if number.negative then -0.0 else 0.0), rest)

def readScale (number : Written) : List Char → Except ReadError (Json × List Char)
  | 'e' :: rest => readExponent number rest
  | 'E' :: rest => readExponent number rest
  | rest => do pure (.float (← number.scale), rest)

def readFraction (number : Written) (chars : List Char) : Except ReadError (Json × List Char) :=
  match digits chars with
  | ([], []) => throw .unfinished
  | ([], _) => throw .malformed
  | (run, rest) =>
      let (significand, left) := appendDigits UInt64.size number.significand run
      let exponent := number.exponent - ((run.length - left.length : Nat) : Int)
      readScale { number with significand, exponent } rest

/-- A whole number; a negative zero and what lies below all 64-bit integers are floats. -/
def wholeNumber (negative : Bool) (significand : Nat) : Json :=
  if ¬ negative then .integer significand
  else if significand = 0 ∨ UInt64.size / 2 < significand then
    .float (-(UInt64.ofNat significand).toFloat)
  else .integer (-(significand : Int))

def readMagnitude (negative : Bool) (chars : List Char) : Except ReadError (Json × List Char) :=
  match digits chars with
  | ([], []) => throw .unfinished
  | ([], _) => throw .malformed
  | ('0' :: _ :: _, _) => throw .malformed
  | (run, rest) =>
      let (significand, left) := appendDigits UInt64.size 0 run
      let number : Written := { negative, significand, exponent := left.length }
      match rest with
      | '.' :: after => readFraction number after
      | 'e' :: after => readExponent number after
      | 'E' :: after => readExponent number after
      | _ =>
          if left.isEmpty then pure (wholeNumber negative significand, rest)
          else readScale number rest

def readNumber : List Char → Except ReadError (Json × List Char)
  | '-' :: rest => readMagnitude true rest
  | chars => readMagnitude false chars

end RobinHood.Json
