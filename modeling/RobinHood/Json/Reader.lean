import RobinHood.Json.Number

/-! Reading documents from text, from left to right, up to the first fault. -/

namespace RobinHood.Json

def isBlank (char : Char) : Bool :=
  char == ' ' || char == '\n' || char == '\t' || char == '\r'

def skipBlank (chars : List Char) : List Char :=
  chars.dropWhile isBlank

def expectWord {α : Type} (value : α) :
    (word chars : List Char) → Except ReadError (α × List Char)
  | [], rest => pure (value, rest)
  | _ :: _, [] => throw .unfinished
  | expected :: word, char :: rest =>
      if char == expected then expectWord value word rest else throw .malformed

def hexValue? (char : Char) : Option Nat :=
  if char.isDigit then some (digitValue char)
  else if 'a' ≤ char ∧ char ≤ 'f' then some (char.toNat - 'a'.toNat + 10)
  else if 'A' ≤ char ∧ char ≤ 'F' then some (char.toNat - 'A'.toNat + 10)
  else none

def readUnit (chars : List Char) : Except ReadError (Nat × List Char) :=
  match chars with
  | a :: b :: c :: d :: rest =>
      match hexValue? a, hexValue? b, hexValue? c, hexValue? d with
      | some a, some b, some c, some d => pure (((a * 16 + b) * 16 + c) * 16 + d, rest)
      | _, _, _, _ => throw .malformed
  | _ => if (String.ofList chars).utf8ByteSize < 4 then throw .unfinished else throw .malformed

def expectChar (expected : Char) : List Char → Except ReadError (Unit × List Char)
  | [] => throw .unfinished
  | char :: rest => if char == expected then pure ((), rest) else throw .malformed

/-- Reads a numbered character; one beyond the basic plane takes two units, and half of one is
refused. -/
def readNumbered (chars : List Char) : Except ReadError (Char × List Char) := do
  let (first, rest) ← readUnit chars
  if 0xdc00 ≤ first ∧ first ≤ 0xdfff then throw .malformed
  else if first < 0xd800 ∨ 0xdbff < first then pure (Char.ofNat first, rest)
  else
    let ((), rest) ← expectChar '\\' rest
    let ((), rest) ← expectChar 'u' rest
    let (second, rest) ← readUnit rest
    if second < 0xdc00 ∨ 0xdfff < second then throw .malformed
    else pure (Char.ofNat (0x10000 + (first - 0xd800) * 0x400 + (second - 0xdc00)), rest)

def readEscape : List Char → Except ReadError (Char × List Char)
  | [] => throw .unfinished
  | '"' :: rest => pure ('"', rest)
  | '\\' :: rest => pure ('\\', rest)
  | '/' :: rest => pure ('/', rest)
  | 'b' :: rest => pure ('\x08', rest)
  | 'f' :: rest => pure ('\x0c', rest)
  | 'n' :: rest => pure ('\n', rest)
  | 'r' :: rest => pure ('\r', rest)
  | 't' :: rest => pure ('\t', rest)
  | 'u' :: rest => readNumbered rest
  | _ => throw .malformed

def readText (chars : List Char) : Except ReadError (String × List Char) :=
  go chars.length [] chars
where
  go : Nat → List Char → List Char → Except ReadError (String × List Char)
    | _, _, [] => throw .unfinished
    | _, read, '"' :: rest => pure (String.ofList read.reverse, rest)
    | 0, _, _ => throw .unfinished
    | fuel + 1, read, '\\' :: rest => do
        let (char, rest) ← readEscape rest
        go fuel (char :: read) rest
    | fuel + 1, read, char :: rest =>
        if char.toNat < 0x20 then throw .malformed else go fuel (char :: read) rest

def readHead (chars : List Char) : Except ReadError (Head × List Char) :=
  match chars with
  | [] => throw .unfinished
  | 'n' :: rest => expectWord .null "ull".toList rest
  | 't' :: rest => expectWord (.bool true) "rue".toList rest
  | 'f' :: rest => expectWord (.bool false) "alse".toList rest
  | '"' :: rest => do
      let (content, rest) ← readText rest
      pure (.text content, rest)
  | '[' :: rest => pure (.sequence, rest)
  | '\x7b' :: rest => pure (.map, rest)
  | char :: _ =>
      if char == '-' || char.isDigit then do
        let (number, rest) ← readNumber chars
        pure (number.head, rest)
      else throw .malformed

inductive Next where
  | closed (rest : List Char)
  | item (chars : List Char)

def readNext (closing : Char) (first : Bool) (chars : List Char) : Except ReadError Next :=
  match skipBlank chars with
  | [] => throw .unfinished
  | char :: rest =>
      if char == closing then pure (.closed rest)
      else if first then pure (.item (char :: rest))
      else if char == ',' then
        match skipBlank rest with
        | [] => throw .unfinished
        | char :: rest => if char == closing then throw .malformed else pure (.item (char :: rest))
      else throw .malformed

def readColon (chars : List Char) : Except ReadError (Unit × List Char) :=
  expectChar ':' (skipBlank chars)

mutual

/-- Reads a whole value. Each call spends one character at least, so a text's length is enough. -/
def readValue : Nat → List Char → Except ReadError (Json × List Char)
  | 0, _ => throw .unfinished
  | fuel + 1, chars => do
      let (head, rest) ← readHead (skipBlank chars)
      match head with
      | .null => pure (.null, rest)
      | .bool value => pure (.bool value, rest)
      | .integer value => pure (.integer value, rest)
      | .float value => pure (.float value, rest)
      | .text value => pure (.text value, rest)
      | .sequence =>
          let (items, rest) ← readItems fuel true rest
          pure (.array items, rest)
      | .map =>
          let (fields, rest) ← readFields fuel true [] rest
          pure (.object fields, rest)

def readItems : Nat → Bool → List Char → Except ReadError (List Json × List Char)
  | 0, _, _ => throw .unfinished
  | fuel + 1, first, chars => do
      match ← readNext ']' first chars with
      | .closed rest => pure ([], rest)
      | .item chars =>
          let (item, rest) ← readValue fuel chars
          let (items, rest) ← readItems fuel false rest
          pure (item :: items, rest)

def readFields : Nat → Bool → List (String × Json) → List Char →
    Except ReadError (List (String × Json) × List Char)
  | 0, _, _, _ => throw .unfinished
  | fuel + 1, first, fields, chars => do
      match ← readNext '\x7d' first chars with
      | .closed rest => pure (fields, rest)
      | .item chars =>
          let ((), rest) ← expectChar '"' chars
          let (name, rest) ← readText rest
          let ((), rest) ← readColon rest
          let (value, rest) ← readValue fuel rest
          readFields fuel false (addField name value fields) rest

end

def parse (text : String) : Except ReadError Json := do
  let chars := text.toList
  let (value, rest) ← readValue (chars.length + 1) chars
  if (skipBlank rest).isEmpty then pure value else throw .malformed

end RobinHood.Json
