import RobinHood.Hash.Feed
import RobinHood.Text.Outline

/-! Finalizing a raw hash, and a small seeded hasher: words are folded into a state one after the
other, and the state is mixed once, together with the number of bytes taken in, when the hash is
asked for. -/

namespace RobinHood

def foldHigh (word : UInt64) : UInt64 :=
  word ^^^ (word >>> 33)

/-- Spreads every bit of a word over all the others; distinct words stay distinct. -/
def mix (word : UInt64) : UInt64 :=
  foldHigh (foldHigh (foldHigh word * 0xff51afd7ed558ccd) * 0xc4ceb9fe1a85ec53)

/-- The hash kept beside a value: the raw hash, mixed and then made odd. -/
def storedHash (raw : UInt64) : UInt64 :=
  mix raw ||| 1

structure Mixer where
  state : UInt64
  written : UInt64
deriving DecidableEq

namespace Mixer

def defaultSeed : UInt64 := 0x243f6a8885a308d3

def multiplier : UInt64 := 0x9e3779b97f4a7c15

def start (seed : UInt64) : Mixer :=
  { state := seed, written := 0 }

def rotate (word : UInt64) : UInt64 :=
  (word <<< 23) ||| (word >>> 41)

def fold (state word : UInt64) : UInt64 :=
  (rotate state ^^^ word) * multiplier

def wordOfBytes : List UInt8 → UInt64
  | [] => 0
  | byte :: rest => byte.toUInt64 ||| (wordOfBytes rest <<< 8)

/-- Cuts a byte string into words of eight bytes; a shorter last word is filled up with zeros. -/
def wordsOfBytes : List UInt8 → List UInt64
  | [] => []
  | a :: b :: c :: d :: e :: f :: g :: h :: rest =>
      wordOfBytes [a, b, c, d, e, f, g, h] :: wordsOfBytes rest
  | tail => [wordOfBytes tail]

def absorb (mixer : Mixer) : Write → Mixer
  | .bytes content =>
      { state := (wordsOfBytes content).foldl fold mixer.state
        written := mixer.written + UInt64.ofNat content.length }
  | .word content =>
      { state := fold mixer.state content, written := mixer.written + 8 }

def absorbAll (mixer : Mixer) (feed : Feed) : Mixer :=
  feed.foldl absorb mixer

def finish (mixer : Mixer) : UInt64 :=
  mix (mixer.state ^^^ mixer.written)

def hash (seed : UInt64) (feed : Feed) : UInt64 :=
  ((start seed).absorbAll feed).finish

def outline (mixer : Mixer) : Outline :=
  .record "MixHasher"
    [("state", .number mixer.state.toNat), ("written", .number mixer.written.toNat)]

def seedOutline (seed : UInt64) : Outline :=
  .record "MixState" [("seed", .number seed.toNat)]

end Mixer

end RobinHood
