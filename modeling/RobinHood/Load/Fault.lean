import RobinHood.Decimal.Shortest
import RobinHood.Json.Number
import RobinHood.TableError
import RobinHood.Text.Quoted

/-! Why a map or a set cannot be loaded. -/

namespace RobinHood

inductive LoadFault where
  | unfinished
  | malformed
  | wrongType (found : Json.Head) (expected : String)
  | outOfRange (found : Int) (expected : String)
  | sourceFailed
  | table (error : TableError)

namespace LoadFault

def describe : Json.Head → String
  | .null => "null"
  | .bool value => s!"boolean `{value}`"
  | .integer value => s!"integer `{value}`"
  | .float value => s!"floating point `{Decimal.shortestText value}`"
  | .text value => s!"string {Quoted.quote value}"
  | .sequence => "sequence"
  | .map => "map"

def message : LoadFault → String
  | unfinished => "unexpected end"
  | malformed => "malformed document"
  | wrongType found expected => s!"invalid type: {describe found}, expected {expected}"
  | outOfRange found expected => s!"invalid value: integer `{found}`, expected {expected}"
  | sourceFailed => "source failed"
  | table error => error.message

def ofReading {α : Type} (reading : Except Json.ReadError α) : Except LoadFault α :=
  reading.mapError fun
    | .unfinished => .unfinished
    | .malformed => .malformed

end LoadFault

end RobinHood
