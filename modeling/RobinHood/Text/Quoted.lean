import RobinHood.Text.Unprinted

/-! Quoted text for people: in double quotes, with whatever would not show written as an escape. -/

namespace RobinHood.Quoted

def hexDigits (value : Nat) : String :=
  String.ofList (Nat.toDigits 16 value)

/-- Code points that would not show, or would alter the character before them, go by number. -/
def escape : Char → String
  | '\x00' => "\\0"
  | '\t' => "\\t"
  | '\r' => "\\r"
  | '\n' => "\\n"
  | '\\' => "\\\\"
  | '"' => "\\\""
  | char =>
      if Unprinted.joins char || Unprinted.hidden char then
        "\\u\x7b" ++ hexDigits char.toNat ++ "\x7d"
      else char.toString

def quote (text : String) : String :=
  "\"" ++ String.join (text.toList.map escape) ++ "\""

end RobinHood.Quoted
