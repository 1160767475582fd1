import RobinHood.Text.Quoted

/-! Structured text with two renderings: on one line, and spread over indented lines. -/

namespace RobinHood

structure Outline where
  inline : String
  lines : List String

namespace Outline

def atom (text : String) : Outline :=
  { inline := text, lines := [text] }

def number (value : Nat) : Outline :=
  atom (toString value)

def integer (value : Int) : Outline :=
  atom (toString value)

def quoted (text : String) : Outline :=
  atom (Quoted.quote text)

def labelled (label : String) (outline : Outline) : Outline where
  inline := label ++ outline.inline
  lines :=
    match outline.lines with
    | [] => [label]
    | first :: rest => (label ++ first) :: rest

def closeWithComma : List String → List String
  | [] => []
  | [last] => [last ++ ","]
  | line :: rest => line :: closeWithComma rest

/-- Items between brackets. Spread out, each has a comma after it and four spaces before its
lines. -/
def block (opening closing padding : String) (items : List Outline) : Outline :=
  if items.isEmpty then atom (opening ++ closing)
  else
    { inline :=
        opening ++ padding ++ ", ".intercalate (items.map Outline.inline) ++ padding ++ closing
      lines :=
        opening :: items.flatMap (fun item => (closeWithComma item.lines).map ("    " ++ ·))
          ++ [closing] }

def sequence (items : List Outline) : Outline :=
  block "[" "]" "" items

def members (items : List Outline) : Outline :=
  block "\x7b" "\x7d" "" items

def entry (key value : Outline) : Outline :=
  labelled (key.inline ++ ": ") value

def record (name : String) (fields : List (String × Outline)) : Outline :=
  let shown := fields.map fun (label, value) => labelled (label ++ ": ") value
  block (name ++ " \x7b") "\x7d" " " shown

def pretty (outline : Outline) : String :=
  "\n".intercalate outline.lines

end Outline

end RobinHood
