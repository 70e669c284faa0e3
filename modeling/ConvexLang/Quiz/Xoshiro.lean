import ConvexLang.Quiz.Draws

/-!
# The generator xoshiro256**

A source of random draws with 256 bits of state, filled from a seed of 64 bits by
the generator SplitMix64. The same seed gives the same draws.

A fraction is the upper 53 bits of a word over `2 ^ 53`. An index below `n` is the
upper word of the product of `n` and a word; words whose product has too great a
lower word are drawn again, so that each index is as likely as any other.
-/

namespace ConvexLang.Quiz

/-- The state of the generator. -/
structure Xoshiro where
  /-- The first word. -/
  a : UInt64
  /-- The second word. -/
  b : UInt64
  /-- The third word. -/
  c : UInt64
  /-- The fourth word. -/
  d : UInt64
  deriving DecidableEq, Repr

namespace Xoshiro

/-- The bits of a word turned to the left. -/
def rotate (x : UInt64) (n : UInt64) : UInt64 :=
  (x <<< n) ||| (x >>> (64 - n))

/-- The word that SplitMix64 makes of a state. -/
def splitMix (x : UInt64) : UInt64 :=
  let y := (x ^^^ (x >>> 30)) * 0xbf58476d1ce4e5b9
  let z := (y ^^^ (y >>> 27)) * 0x94d049bb133111eb
  z ^^^ (z >>> 31)

/-- The generator for a seed. -/
def ofSeed (seed : UInt64) : Xoshiro :=
  let step : UInt64 := 0x9e3779b97f4a7c15
  { a := splitMix (seed + step)
    b := splitMix (seed + 2 * step)
    c := splitMix (seed + 3 * step)
    d := splitMix (seed + 4 * step) }

/-- The next word, and the state behind it. -/
def next (s : Xoshiro) : UInt64 × Xoshiro :=
  let c := s.c ^^^ s.a
  let d := s.d ^^^ s.b
  (rotate (s.b * 5) 7 * 9,
    { a := s.a ^^^ d, b := s.b ^^^ c, c := c ^^^ (s.b <<< 17), d := rotate d 45 })

/-- The next fraction, at least zero and below one. -/
def fraction (s : Xoshiro) : Float × Xoshiro :=
  let (word, s') := s.next
  ((word >>> 11).toFloat / 9007199254740992, s')

/-- The number of values of a word. -/
def words : Nat := 18446744073709551616

/-- The greatest lower word that is accepted for `n` indices. -/
def zone (n : Nat) : Nat :=
  n <<< (63 - n.log2) - 1

/-- The next index below `n`. At least half of all words are accepted, so `tries`
    need not be many; the last of them is taken as it comes. -/
def indexWithin (tries n : Nat) (h : 0 < n) (s : Xoshiro) : Fin n × Xoshiro :=
  let (word, s') := s.next
  let product := word.toNat * n
  have hlt : product / words < n := by
    rw [Nat.div_lt_iff_lt_mul (by decide), Nat.mul_comm n]
    exact Nat.mul_lt_mul_of_pos_right word.toNat_lt h
  match tries with
  | 0 => (⟨product / words, hlt⟩, s')
  | tries + 1 =>
    if product % words ≤ zone n then (⟨product / words, hlt⟩, s')
    else indexWithin tries n h s'

instance : RandomSource Xoshiro where
  fraction := fraction
  index := indexWithin 512

end Xoshiro

end ConvexLang.Quiz
