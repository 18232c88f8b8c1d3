import VersionedContent.Random.ChaCha

/-!
Random numbers from a seed. The seed is stretched to a key by a linear congruential generator whose
states are scrambled on their way out, and the blocks of that key, one after another, give the
random words. A number below a bound is the upper half of the bound times a random word; words
whose product has too large a lower half are passed over, so that all numbers are equally likely.
-/

set_option autoImplicit false

namespace VersionedContent.Random

/-- The state after another one in stretching a seed. -/
def nextState (state : UInt64) : UInt64 := state * 6364136223846793005 + 11634580027462260723

/-- The word that a state gives: some of its bits, turned to the right by its highest ones. -/
def scramble (state : UInt64) : UInt32 :=
  let bits : UInt64 := ((state >>> 18) ^^^ state) >>> 27
  let places : UInt64 := state >>> 59
  turnLeft bits.toUInt32 (32 - places.toUInt32)

/-- The next four words from a state, and the state after them. -/
def stretch (state : UInt64) : Row × UInt64 :=
  let p := nextState state
  let q := nextState p
  let r := nextState q
  let s := nextState r
  (⟨scramble p, scramble q, scramble r, scramble s⟩, s)

/-- A source of random words. -/
structure Generator where
  /-- The first half of the key. -/
  low : Row
  /-- The second half of the key. -/
  high : Row
  /-- The number of the next block. -/
  counter : UInt64
  /-- Words of the last block that have not been given out. -/
  pending : List UInt64

namespace Generator

/-- The source that belongs to a seed. -/
def ofSeed (seed : UInt64) : Generator :=
  let (low, state) := stretch seed
  ⟨low, (stretch state).1, 0, []⟩

/-- A random word. -/
def next (g : Generator) : UInt64 × Generator :=
  match g.pending with
  | word :: rest => (word, { g with pending := rest })
  | [] =>
    let words := (Block.ofKey g.low g.high g.counter).pairs
    (words.headD 0, { g with counter := g.counter + 1, pending := words.tail })

/-- A random number below a bound, or zero when so many words have all been passed over. -/
def tryBelow (bound : Nat) : Nat → Generator → Nat × Generator
  | 0, g => (0, g)
  | tries + 1, g =>
    let (word, g) := g.next
    let product := bound * word.toNat
    if product % UInt64.size < bound * Nat.pow 2 (63 - bound.log2) then
      (product / UInt64.size, g)
    else tryBelow bound tries g

/-- A random number below a bound. At most every second word is passed over, so a run of more words
than are tried does not occur. -/
def below (g : Generator) (bound : Nat) : Nat × Generator := tryBelow bound 1000 g

end Generator

end VersionedContent.Random
