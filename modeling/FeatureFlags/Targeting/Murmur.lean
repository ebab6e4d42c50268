/-!
# Targeting/Murmur — the 32-bit MurmurHash3

Bytes are taken four at a time, least significant first, and mixed into a state; what is left over
is mixed in without the block step, then the length, then the bits are spread.
-/

namespace FeatureFlags.Murmur

def rotateLeft (x : UInt32) (n : UInt32) : UInt32 := (x <<< n) ||| (x >>> (32 - n))

/-- The word of up to four bytes, least significant first. -/
def word : List UInt8 → UInt32
  | [] => 0
  | b :: rest => b.toUInt32 ||| (word rest <<< 8)

/-- A word made ready to be mixed in. -/
def scramble (k : UInt32) : UInt32 := rotateLeft (k * 0xcc9e2d51) 15 * 0x1b873593

/-- Mixes one block into the state. -/
def mix (h k : UInt32) : UInt32 := rotateLeft (h ^^^ scramble k) 13 * 5 + 0xe6546b64

/-- All the blocks, then the bytes left over. -/
def absorb (h : UInt32) : List UInt8 → UInt32
  | a :: b :: c :: d :: rest => absorb (mix h (word [a, b, c, d])) rest
  | [] => h
  | tail => h ^^^ scramble (word tail)

/-- Spreads the bits. -/
def finish (h : UInt32) : UInt32 :=
  let h := (h ^^^ (h >>> 16)) * 0x85ebca6b
  let h := (h ^^^ (h >>> 13)) * 0xc2b2ae35
  h ^^^ (h >>> 16)

/-- **The hash of a row of bytes.** -/
def hash (seed : UInt32) (bytes : List UInt8) : UInt32 :=
  finish (absorb seed bytes ^^^ UInt32.ofNat bytes.length)

end FeatureFlags.Murmur
