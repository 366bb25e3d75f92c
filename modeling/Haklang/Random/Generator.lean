import Haklang.Random.Keystream

/-!
# Generators

A generator gives words of 32 and of 64 bits on demand. It is either a keystream, of which a word
of 64 bits takes two words, the lower one first; or a tape of recorded words of 64 bits that is
read round and round, of which either kind takes one.

`Generator.below` draws a number below a bound. It scales a word to the bound, and settles with a
second word the few cases in which the part cut off could still carry; that its result is below the
bound is part of its type.
-/

namespace Haklang

-- Powers are those of the core library, whatever other instances are in sight.
attribute [local instance (high)] instPowNat

/-- Where the words of a generator come from. -/
inductive Generator.Source where
  /-- The keystream of a key. -/
  | keystream (key : Vector UInt32 8)
  /-- Recorded words. -/
  | tape (words : Array UInt64)

/-- A source and how many of its words are used up. -/
structure Generator where
  /-- Where the words come from. -/
  source : Generator.Source
  /-- How many words are used up. -/
  used : Nat := 0

namespace Generator

/-- The generator that belongs to a seed. -/
def ofSeed (seed : UInt64) : Generator := { source := .keystream (Keystream.keyOfSeed seed) }

/-- The generator that reads recorded words. -/
def ofTape (words : List UInt64) : Generator := { source := .tape words.toArray }

/-- The word of a tape at a position, counted round and round; an empty tape has zeros. -/
def tapeWord (words : Array UInt64) (i : Nat) : UInt64 := words.getD (i % words.size) 0

/-- A word of 32 bits. -/
def next32 (g : Generator) : BitVec 32 × Generator :=
  match g.source with
  | .keystream key => ((Keystream.word key g.used).toBitVec, { g with used := g.used + 1 })
  | .tape words => ((tapeWord words g.used).toUInt32.toBitVec, { g with used := g.used + 1 })

/-- A word of 64 bits. -/
def next64 (g : Generator) : BitVec 64 × Generator :=
  match g.source with
  | .keystream key =>
    let low := (Keystream.word key g.used).toUInt64
    let high := (Keystream.word key (g.used + 1)).toUInt64
    ((low ||| (high <<< 32)).toBitVec, { g with used := g.used + 2 })
  | .tape words => ((tapeWord words g.used).toBitVec, { g with used := g.used + 1 })

/-- A word of the given width scaled to a bound, corrected by what a second word `y`, scaled in the
same way, carries over. -/
def scaled (w : Nat) (x carry bound : Nat) : Nat :=
  if 2 ^ w ≤ x * bound % 2 ^ w + carry then x * bound / 2 ^ w + 1 else x * bound / 2 ^ w

theorem scaled_lt {w x carry bound : Nat} (hx : x < 2 ^ w) (hc : carry < bound) :
    scaled w x carry bound < bound := by
  have hpos : 0 < 2 ^ w := Nat.two_pow_pos w
  have hm := Nat.div_add_mod (x * bound) (2 ^ w)
  have hle : (x + 1) * bound ≤ 2 ^ w * bound := Nat.mul_le_mul_right bound hx
  rw [Nat.add_mul, Nat.one_mul] at hle
  unfold scaled
  split
  case isTrue h =>
    refine Nat.lt_of_mul_lt_mul_left (a := 2 ^ w) ?_
    rw [Nat.mul_add, Nat.mul_one]
    omega
  case isFalse h =>
    refine Nat.lt_of_mul_lt_mul_left (a := 2 ^ w) ?_
    omega

theorem carry_lt {w y bound : Nat} (hy : y < 2 ^ w) (hb : 0 < bound) :
    y * bound / 2 ^ w < bound := by
  rw [Nat.div_lt_iff_lt_mul (Nat.two_pow_pos w), Nat.mul_comm bound]
  exact Nat.mul_lt_mul_of_pos_right hy hb

/-- A number below a bound, from one word of the given width or two. -/
def below (w : Nat) (draw : Generator → BitVec w × Generator) (bound : Nat) (h : 0 < bound)
    (g : Generator) : Fin bound × Generator :=
  let x := draw g
  if 2 ^ w - bound < x.1.toNat * bound % 2 ^ w then
    let y := draw x.2
    let carry := y.1.toNat * bound / 2 ^ w
    (⟨scaled w x.1.toNat carry bound,
      scaled_lt x.1.isLt (carry_lt y.1.isLt h)⟩, y.2)
  else
    (⟨scaled w x.1.toNat 0 bound, scaled_lt x.1.isLt h⟩, x.2)

/-- A number below a bound, from words of 32 bits. -/
def below32 (bound : Nat) (h : 0 < bound) (g : Generator) : Fin bound × Generator :=
  below 32 next32 bound h g

/-- A number below a bound, from words of 64 bits. -/
def below64 (bound : Nat) (h : 0 < bound) (g : Generator) : Fin bound × Generator :=
  below 64 next64 bound h g

end Generator

end Haklang
