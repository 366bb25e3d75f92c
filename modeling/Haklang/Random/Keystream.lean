/-!
# The keystream

Random draws come from the ChaCha keystream with twelve rounds. The key has eight words, computed
from a seed of 64 bits by a congruential generator with a permuted output; the block counter starts
at zero, and the remaining two words of the input are zero. The words of the blocks, in order, make
up one endless stream of words, `Keystream.word`.
-/

namespace Haklang

namespace Keystream

/-- The next state of the generator of keys. -/
def advance (state : UInt64) : UInt64 := state * 6364136223846793005 + 11634580027462260723

/-- Turns the bits of a word to the right. -/
def rotateRight (x r : UInt32) : UInt32 := (x >>> r) ||| (x <<< (32 - r))

/-- Turns the bits of a word to the left. -/
def rotateLeft (x r : UInt32) : UInt32 := rotateRight x (32 - r)

/-- The word that a state of the generator of keys puts out. -/
def permute (state : UInt64) : UInt32 :=
  rotateRight (((state >>> 18) ^^^ state) >>> 27).toUInt32 (state >>> 59).toUInt32

/-- The key that belongs to a seed. -/
def keyOfSeed (seed : UInt64) : Vector UInt32 8 :=
  Vector.ofFn fun i ↦ permute (Nat.repeat advance (i + 1) seed)

/-- The words of a block while it is mixed. -/
abbrev Block : Type := Vector UInt32 16

/-- Mixes four words of a block. -/
def quarterRound (a b c d : Fin 16) (v : Block) : Block :=
  let v := v.set a (v[a] + v[b])
  let v := v.set d (rotateLeft (v[d] ^^^ v[a]) 16)
  let v := v.set c (v[c] + v[d])
  let v := v.set b (rotateLeft (v[b] ^^^ v[c]) 12)
  let v := v.set a (v[a] + v[b])
  let v := v.set d (rotateLeft (v[d] ^^^ v[a]) 8)
  let v := v.set c (v[c] + v[d])
  v.set b (rotateLeft (v[b] ^^^ v[c]) 7)

/-- Mixes the four columns of a block and then its four diagonals. -/
def doubleRound (v : Block) : Block :=
  let v := quarterRound 0 4 8 12 v
  let v := quarterRound 1 5 9 13 v
  let v := quarterRound 2 6 10 14 v
  let v := quarterRound 3 7 11 15 v
  let v := quarterRound 0 5 10 15 v
  let v := quarterRound 1 6 11 12 v
  let v := quarterRound 2 7 8 13 v
  quarterRound 3 4 9 14 v

/-- What block number `n` is mixed from: four constants, the key, the number, and zeros. -/
def input (key : Vector UInt32 8) (n : UInt64) : Block :=
  #v[0x61707865, 0x3320646e, 0x79622d32, 0x6b206574, key[0], key[1], key[2], key[3], key[4],
    key[5], key[6], key[7], n.toUInt32, (n >>> 32).toUInt32, 0, 0]

/-- Block number `n` of the keystream: twelve rounds on its input, added to the input. -/
def block (key : Vector UInt32 8) (n : UInt64) : Block :=
  (Nat.repeat doubleRound 6 (input key n)).zipWith (· + ·) (input key n)

/-- Word number `i` of the keystream. -/
def word (key : Vector UInt32 8) (i : Nat) : UInt32 :=
  (block key (i / 16).toUInt64).get ⟨i % 16, Nat.mod_lt _ (by decide)⟩

end Keystream

end Haklang
