import RobinHood.Json.Value
import RobinHood.Decimal.Shortest

/-! Compact document text: no blanks, fields in their order, only what must be escaped escaped. -/

namespace RobinHood.Json

def escape (char : Char) : String :=
  match char with
  | '"' => "\\\""
  | '\\' => "\\\\"
  | '\x08' => "\\b"
  | '\x0c' => "\\f"
  | '\n' => "\\n"
  | '\r' => "\\r"
  | '\t' => "\\t"
  | char =>
      if char.toNat < 0x20 then
        "\\u00" ++ String.ofList [Nat.digitChar (char.toNat / 16), Nat.digitChar (char.toNat % 16)]
      else char.toString

def quote (text : String) : String :=
  "\"" ++ String.join (text.toList.map escape) ++ "\""

mutual

def render : Json → String
  | null => "null"
  | bool value => if value then "true" else "false"
  | integer value => toString value
  | float value => Decimal.shortestText value
  | text value => quote value
  | array items => "[" ++ ",".intercalate (renderItems items) ++ "]"
  | object fields => "\x7b" ++ ",".intercalate (renderFields fields) ++ "\x7d"

def renderItems : List Json → List String
  | [] => []
  | item :: rest => render item :: renderItems rest

def renderFields : List (String × Json) → List String
  | [] => []
  | (name, value) :: rest => (quote name ++ ":" ++ render value) :: renderFields rest

end

end RobinHood.Json
