import RobinHood.Hash.Feed

/-! Hash functions that spread badly. They are lawful, so a table must answer the same with them,
only along longer runs. -/

namespace RobinHood.Weak

def constant (_ : Feed) : UInt64 := 0

def lowBits (feed : Feed) : UInt64 :=
  feed.foldl step 0
where
  step (state : UInt64) : Write → UInt64
    | .bytes [] => state
    | .bytes (first :: _) => first.toUInt64 &&& 7
    | .word content => content &&& 7

/-- A word is its own hash; bytes are the digits of a number in base 31. -/
def positional (feed : Feed) : UInt64 :=
  feed.foldl step 0
where
  step (state : UInt64) : Write → UInt64
    | .bytes content => content.foldl (fun state byte => state * 31 + byte.toUInt64) state
    | .word content => content

end RobinHood.Weak
