/-!
The ChaCha block function with twelve rounds. It turns a key of eight words and a counter into
sixteen words that look random. The words are held in four rows of four, so that a round works on
all four columns at once, and on the diagonals after the rows have been turned against each other.
-/

set_option autoImplicit false

namespace VersionedContent.Random

/-- Four words. -/
structure Row where
  first : UInt32
  second : UInt32
  third : UInt32
  fourth : UInt32
deriving DecidableEq, Inhabited

/-- The word with its bits moved to the left, those that fall off coming back on the right. -/
def turnLeft (word : UInt32) (places : UInt32) : UInt32 :=
  (word <<< places) ||| (word >>> (32 - places))

namespace Row

/-- The sums of the words of two rows. -/
def add (r s : Row) : Row :=
  ⟨r.first + s.first, r.second + s.second, r.third + s.third, r.fourth + s.fourth⟩

/-- The differences of the words of two rows in their bits, turned to the left. -/
def mix (places : UInt32) (r s : Row) : Row :=
  ⟨turnLeft (r.first ^^^ s.first) places, turnLeft (r.second ^^^ s.second) places,
    turnLeft (r.third ^^^ s.third) places, turnLeft (r.fourth ^^^ s.fourth) places⟩

/-- The row with its first word at the end. -/
def rotate (r : Row) : Row := ⟨r.second, r.third, r.fourth, r.first⟩

/-- Each two words of a row as one, the first of them in the lower half. -/
def pairs (r : Row) : List UInt64 :=
  let pair (low high : UInt32) : UInt64 := low.toUInt64 ||| (high.toUInt64 <<< 32)
  [pair r.first r.second, pair r.third r.fourth]

end Row

/-- Sixteen words. -/
structure Block where
  a : Row
  b : Row
  c : Row
  d : Row
deriving DecidableEq, Inhabited

namespace Block

/-- The sums of the words of two blocks. -/
def add (s t : Block) : Block := ⟨s.a.add t.a, s.b.add t.b, s.c.add t.c, s.d.add t.d⟩

/-- One round on the columns. -/
def columnRound (s : Block) : Block :=
  let a := s.a.add s.b
  let d := s.d.mix 16 a
  let c := s.c.add d
  let b := s.b.mix 12 c
  let a := a.add b
  let d := d.mix 8 a
  let c := c.add d
  let b := b.mix 7 c
  ⟨a, b, c, d⟩

/-- One round on the diagonals. -/
def diagonalRound (s : Block) : Block :=
  let t := columnRound ⟨s.a, s.b.rotate, s.c.rotate.rotate, s.d.rotate.rotate.rotate⟩
  ⟨t.a, t.b.rotate.rotate.rotate, t.c.rotate.rotate, t.d.rotate⟩

/-- The block of a key, given in two rows, and a counter. -/
def ofKey (low high : Row) (counter : UInt64) : Block :=
  let start : Block :=
    ⟨⟨0x61707865, 0x3320646e, 0x79622d32, 0x6b206574⟩, low, high,
      ⟨counter.toUInt32, (counter >>> 32).toUInt32, 0, 0⟩⟩
  start.add (Nat.repeat (fun s ↦ s.columnRound.diagonalRound) 6 start)

/-- The words of a block, each two as one. -/
def pairs (s : Block) : List UInt64 := s.a.pairs ++ s.b.pairs ++ s.c.pairs ++ s.d.pairs

end Block

end VersionedContent.Random
