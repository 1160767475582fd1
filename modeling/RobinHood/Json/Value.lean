/-! Documents: a value is a scalar, an array, or an object whose fields keep their order. -/

namespace RobinHood

inductive Json where
  | null
  | bool (value : Bool)
  | integer (value : Int)
  | float (value : Float)
  | text (value : String)
  | array (items : List Json)
  | object (fields : List (String × Json))

namespace Json

/-- What a value shows before its contents are read: a whole scalar, or that a container opens. -/
inductive Head where
  | null
  | bool (value : Bool)
  | integer (value : Int)
  | float (value : Float)
  | text (value : String)
  | sequence
  | map

def head : Json → Head
  | null => .null
  | bool value => .bool value
  | integer value => .integer value
  | float value => .float value
  | text value => .text value
  | array _ => .sequence
  | object _ => .map

/-- Adds a field; a repeated name keeps its place and takes the new value. -/
def addField (name : String) (value : Json) : List (String × Json) → List (String × Json)
  | [] => [(name, value)]
  | (other, old) :: rest =>
      if other == name then (name, value) :: rest else (other, old) :: addField name value rest

end Json

end RobinHood
