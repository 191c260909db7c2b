import DiceTables.Roller.Basic

/-!
A roller seeded with a number. Its state is a word of 64 bits that a fixed odd step carries around
the whole circle of 2⁶⁴ states. Each state is multiplied with a mask of itself, and the two halves
of the product are folded into a word of 32 bits.

A die multiplies such a word by its number of sides; the high half of the product is the side. The
low half tells whether the word lies in the short remainder that would favour some sides: such words
are drawn again, so that every side stands for equally many words.
-/

namespace DiceTables.Roller.Seeded

/-- The distance between one state and the next. -/
def stride : UInt64 := 0x2d358dccaa6c78a5

/-- What a state is masked with before it is multiplied by itself. -/
def mask : UInt64 := 0x8bb84b93962eacc9

/-- Number of states, 2⁶⁴. -/
def stateCount : Nat := 18446744073709551616

/-- Number of words that are drawn, 2³². -/
def wordCount : Nat := 4294967296

/-- A state as a word of 32 bits: the halves of the product folded, the lower bits kept. -/
def word (state : UInt64) : Nat :=
  let product := state.toNat * (state ^^^ mask).toNat
  (product % stateCount ^^^ product / stateCount) % wordCount

/-- A side of a die from the states after `state`, where a word that would favour some sides is
drawn again at most `tries` times. -/
def side (sides : Nat) (state : UInt64) : (tries : Nat) → Nat × UInt64
  | 0 => (1 + word (state + stride) * sides / wordCount, state + stride)
  | tries + 1 =>
    let next := state + stride
    if word next * sides % wordCount < wordCount % sides then side sides next tries
    else (1 + word next * sides / wordCount, next)

end Seeded

/-- The roller whose state starts at the seed. Its 2⁶⁴ tries go through every state there is, so
they never end before a fair word is found. A die without sides shows nothing and draws nothing. -/
def seeded : Roller UInt64 where
  draw := fun sides state =>
    if sides = 0 then some (0, state) else some (Seeded.side sides state Seeded.stateCount)

end DiceTables.Roller
