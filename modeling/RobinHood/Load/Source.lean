import RobinHood.Load.Element

/-! Where the entries of a map or the members of a set come from: a source may announce how many
there are, gives some, and may fail after those. -/

namespace RobinHood

structure Source (α : Type) where
  announced : Option Nat
  items : List α
  /-- What the source met after its items, if that is not its end. -/
  fault : Option LoadFault

namespace Source

variable {α β : Type}

def failing (fault : LoadFault) : Source α :=
  { announced := none, items := [], fault := some fault }

/-- Decodes items up to the first that is refused. -/
def decode (announced : Option Nat) (decodeItem : β → Except LoadFault α)
    (ending : Option LoadFault) : List β → Source α
  | [] => { announced, items := [], fault := ending }
  | first :: rest =>
      match decodeItem first with
      | .error fault => { announced, items := [], fault := some fault }
      | .ok item =>
          let source := decode announced decodeItem ending rest
          { source with items := item :: source.items }

def readItems (closing : Char) (readItem : List Char → Except LoadFault (α × List Char)) :
    Nat → Bool → List Char → Source α
  | 0, _, _ => failing .unfinished
  | fuel + 1, first, chars =>
      match LoadFault.ofReading (Json.readNext closing first chars) with
      | .error fault => failing fault
      | .ok (.closed rest) =>
          { announced := none
            items := []
            fault := if (Json.skipBlank rest).isEmpty then none else some .malformed }
      | .ok (.item chars) =>
          match readItem chars with
          | .error fault => failing fault
          | .ok (item, rest) =>
              let source := readItems closing readItem fuel false rest
              { source with items := item :: source.items }

section Map

variable {K V : Type} [Element K] [Element V]

def readField (chars : List Char) : Except LoadFault ((K × V) × List Char) := do
  let ((), rest) ← LoadFault.ofReading (Json.expectChar '"' chars)
  let (key, rest) ← Element.readName rest
  let ((), rest) ← LoadFault.ofReading (Json.readColon rest)
  let (value, rest) ← Element.read rest
  return ((key, value), rest)

def decodeField (field : String × Json) : Except LoadFault (K × V) := do
  let key ← Element.ofName field.1
  return (key, ← Element.ofHead field.2.head)

def decodePair (pair : Json × Json) : Except LoadFault (K × V) := do
  let key ← Element.ofHead pair.1.head
  return (key, ← Element.ofHead pair.2.head)

/-- The fields of an object in a text, which announces nothing. -/
def ofObjectText (text : String) : Source (K × V) :=
  match Element.readHead text.toList with
  | .error fault => failing fault
  | .ok (.map, rest) => readItems '\x7d' readField (rest.length + 1) true rest
  | .ok (head, _) => failing (.wrongType head "a map")

/-- The fields of an object, which announces their number. -/
def ofObject : Json → Source (K × V)
  | .object fields => decode (some fields.length) decodeField none fields
  | value => failing (.wrongType value.head "a map")

end Map

section Set

variable {T : Type} [Element T]

def decodeItem (item : Json) : Except LoadFault T :=
  Element.ofHead item.head

def ofArrayText (text : String) : Source T :=
  match Element.readHead text.toList with
  | .error fault => failing fault
  | .ok (.sequence, rest) => readItems ']' Element.read (rest.length + 1) true rest
  | .ok (head, _) => failing (.wrongType head "a set")

def ofArray : Json → Source T
  | .array items => decode (some items.length) decodeItem none items
  | value => failing (.wrongType value.head "a set")

end Set

end Source

end RobinHood
