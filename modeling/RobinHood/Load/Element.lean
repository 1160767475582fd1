import RobinHood.Json.Reader
import RobinHood.Load.Fault

/-! What keys and values are read from: a document value, or the name of a field. -/

namespace RobinHood

class Element (α : Type) where
  ofHead : Json.Head → Except LoadFault α
  /-- Reads the name of a field whose opening quote has been read. -/
  readName : List Char → Except LoadFault (α × List Char)
  ofName : String → Except LoadFault α

namespace Element

def readHead (chars : List Char) : Except LoadFault (Json.Head × List Char) :=
  LoadFault.ofReading (Json.readHead (Json.skipBlank chars))

def read {α : Type} [Element α] (chars : List Char) : Except LoadFault (α × List Char) := do
  let (head, rest) ← readHead chars
  return (← ofHead head, rest)

instance : Element String where
  ofHead
    | .text value => .ok value
    | head => .error (.wrongType head "a string")
  readName chars := LoadFault.ofReading (Json.readText chars)
  ofName name := .ok name

def integerOfHead : Json.Head → Except LoadFault Int64
  | .integer value =>
      if value ≤ Int64.maxValue.toInt then .ok (Int64.ofInt value)
      else .error (.outOfRange value "i64")
  | head => .error (.wrongType head "i64")

def readInteger (chars : List Char) : Except LoadFault (Int64 × List Char) :=
  match chars with
  | [] => .error .malformed
  | char :: _ =>
      if char == '-' || char.isDigit then do
        let (value, rest) ← LoadFault.ofReading (Json.readNumber chars)
        return (← integerOfHead value.head, rest)
      else .error .malformed

instance : Element Int64 where
  ofHead := integerOfHead
  readName chars := do
    match ← readInteger chars with
    | (key, '"' :: rest) => return (key, rest)
    | _ => throw .malformed
  ofName name := do
    match ← readInteger name.toList with
    | (key, []) => return key
    | _ => throw .malformed

end Element

end RobinHood
