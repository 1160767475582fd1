/-! What a value gives to a hasher: a sequence of writes, each a byte string or a whole word. -/

namespace RobinHood

inductive Write where
  | bytes (content : List UInt8)
  | word (content : UInt64)
deriving DecidableEq

abbrev Feed := List Write

namespace Feed

def littleEndian : (width value : Nat) → List UInt8
  | 0, _ => []
  | width + 1, value => UInt8.ofNat value :: littleEndian width (value / 256)

def littleEndianInt (width : Nat) (value : Int) : List UInt8 :=
  littleEndian width (value % Nat.pow 256 width).toNat

/-- A number of fewer than eight bytes, or of sixteen, is written as its bytes. -/
def number (width : Nat) (value : Int) : Feed :=
  [.bytes (littleEndianInt width value)]

def word (value : UInt64) : Feed :=
  [.word value]

def length (count : Nat) : Feed :=
  word (UInt64.ofNat count)

def bool (value : Bool) : Feed :=
  number 1 (if value then 1 else 0)

def char (value : Char) : Feed :=
  number 4 value.toNat

/-- A text is its UTF-8 bytes and a closing byte that UTF-8 never uses. -/
def text (value : String) : Feed :=
  [.bytes value.toUTF8.toList, .bytes [0xff]]

def byteString (content : List UInt8) : Feed :=
  length content.length ++ [.bytes content]

def texts (values : List String) : Feed :=
  length values.length ++ values.flatMap text

def words (values : List UInt64) : Feed :=
  length values.length ++ [.bytes (values.flatMap fun value => littleEndian 8 value.toNat)]

def optionalWord : Option UInt64 → Feed
  | none => word 0
  | some value => word 1 ++ word value

end Feed

end RobinHood
