import RobinHood.Hash.Feed
import RobinHood.Json.Value
import RobinHood.Text.Outline

/-! What keys and values must offer: values are shown and written to documents; keys are also
compared and fed to a hasher. Equal keys give equal feeds. -/

namespace RobinHood

/-- A text whose ASCII letters are compared without regard to case. -/
structure Caseless where
  text : String

instance : Inhabited Caseless := ⟨⟨""⟩⟩

namespace Caseless

def folded (key : Caseless) : String :=
  String.ofList (key.text.toList.map Char.toLower)

instance : BEq Caseless where
  beq first second := first.folded == second.folded

end Caseless

class Shown (α : Type) where
  outline : α → Outline
  json : α → Json

class Key (K : Type) extends BEq K, Shown K where
  feed : K → Feed
  /-- The name of the field that stands for a key in a document. -/
  fieldName : K → String

instance : Shown Int64 where
  outline number := .integer number.toInt
  json number := .integer number.toInt

instance : Shown String where
  outline := .quoted
  json := .text

instance : Shown Caseless where
  outline key := .quoted key.text
  json key := .text key.text

instance : Key Int64 where
  feed key := Feed.word key.toUInt64
  fieldName key := toString key.toInt

instance : Key String where
  feed := Feed.text
  fieldName key := key

instance : Key Caseless where
  feed key := Feed.text key.folded
  fieldName key := key.text

end RobinHood
