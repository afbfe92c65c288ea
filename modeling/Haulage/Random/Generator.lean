/-
Module: Haulage.Random.Generator
Purpose: A generator of random words, and whole numbers below a bound drawn from it.
Main exports: Generator, Generator.ofSeed, Generator.next, Generator.below
-/

namespace Haulage

/-- The four words of a xoshiro256++ generator. -/
structure Generator where
  a : UInt64
  b : UInt64
  c : UInt64
  d : UInt64
deriving DecidableEq, Repr, Inhabited

namespace Generator

/-- The word that SplitMix64 makes of its state. -/
def mix (state : UInt64) : UInt64 :=
  let z := (state ^^^ (state >>> 30)) * 0xbf58476d1ce4e5b9
  let z := (z ^^^ (z >>> 27)) * 0x94d049bb133111eb
  z ^^^ (z >>> 31)

/-- The generator whose words are the first four that SplitMix64 makes of a seed. -/
def ofSeed (seed : UInt64) : Generator :=
  let step : UInt64 := 0x9e3779b97f4a7c15
  ⟨mix (seed + step), mix (seed + step + step), mix (seed + step + step + step),
    mix (seed + step + step + step + step)⟩

/-- Turns the bits of a word to the left, by less than the length of a word and more than none. -/
def rotateLeft (w : UInt64) (n : UInt64) : UInt64 := (w <<< n) ||| (w >>> (64 - n))

/-- The next word, and the generator after it. -/
def next (g : Generator) : UInt64 × Generator :=
  let word := rotateLeft (g.a + g.d) 23 + g.a
  let c := g.c ^^^ g.a
  let d := g.d ^^^ g.b
  (word, ⟨g.a ^^^ d, g.b ^^^ c, c ^^^ (g.b <<< 17), rotateLeft d 45⟩)

/-- The upper half of the next word. -/
def nextHalf (g : Generator) : Nat × Generator :=
  let (word, g) := g.next
  ((word >>> 32).toNat, g)

/-- The number of half words. -/
def halfWords : Nat := 4294967296

/-- A number below a positive bound of at most 32 bits.  Half a word is scaled to the bound; where
its rest might carry, another half word decides. -/
def below (g : Generator) (bound : Nat) : Nat × Generator :=
  let (half, g) := g.nextHalf
  let scaled := half * bound
  let high := scaled / halfWords
  let low := scaled % halfWords
  if halfWords - bound < low then
    let (half, g) := g.nextHalf
    let carry := half * bound / halfWords
    (if halfWords ≤ low + carry then high + 1 else high, g)
  else (high, g)

end Generator

end Haulage
