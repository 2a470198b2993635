import ScopeChain.Bytes

/-! # SHA-256

The digest of FIPS 180-4. A message is padded to whole blocks of sixty-four bytes; each block is
expanded to sixty-four words, and a round for each word mixes it into the eight words of the state.
-/

namespace ScopeChain.Sha256

/-- The words that the rounds add: the first bits of the fractional parts of the cube roots of the
first sixty-four primes. -/
def roundConstants : List UInt32 := [
  0x428a2f98, 0x71374491, 0xb5c0fbcf, 0xe9b5dba5, 0x3956c25b, 0x59f111f1, 0x923f82a4, 0xab1c5ed5,
  0xd807aa98, 0x12835b01, 0x243185be, 0x550c7dc3, 0x72be5d74, 0x80deb1fe, 0x9bdc06a7, 0xc19bf174,
  0xe49b69c1, 0xefbe4786, 0x0fc19dc6, 0x240ca1cc, 0x2de92c6f, 0x4a7484aa, 0x5cb0a9dc, 0x76f988da,
  0x983e5152, 0xa831c66d, 0xb00327c8, 0xbf597fc7, 0xc6e00bf3, 0xd5a79147, 0x06ca6351, 0x14292967,
  0x27b70a85, 0x2e1b2138, 0x4d2c6dfc, 0x53380d13, 0x650a7354, 0x766a0abb, 0x81c2c92e, 0x92722c85,
  0xa2bfe8a1, 0xa81a664b, 0xc24b8b70, 0xc76c51a3, 0xd192e819, 0xd6990624, 0xf40e3585, 0x106aa070,
  0x19a4c116, 0x1e376c08, 0x2748774c, 0x34b0bcb5, 0x391c0cb3, 0x4ed8aa4a, 0x5b9cca4f, 0x682e6ff3,
  0x748f82ee, 0x78a5636f, 0x84c87814, 0x8cc70208, 0x90befffa, 0xa4506ceb, 0xbef9a3f7, 0xc67178f2]

/-- The eight words that a block changes. -/
structure State where
  a : UInt32
  b : UInt32
  c : UInt32
  d : UInt32
  e : UInt32
  f : UInt32
  g : UInt32
  h : UInt32
  deriving DecidableEq, Repr

def initial : State :=
  ⟨0x6a09e667, 0xbb67ae85, 0x3c6ef372, 0xa54ff53a, 0x510e527f, 0x9b05688c, 0x1f83d9ab, 0x5be0cd19⟩

/-- A word turned right by a number of bits between one and thirty-one. -/
def rotate (word count : UInt32) : UInt32 := (word >>> count) ||| (word <<< (32 - count))

/-- The word that follows the words of a schedule, which are given from the last to the first. -/
def nextWord (schedule : List UInt32) : UInt32 :=
  let early := schedule.getD 14 0
  let late := schedule.getD 1 0
  schedule.getD 15 0 + (rotate early 7 ^^^ rotate early 18 ^^^ (early >>> 3)) + schedule.getD 6 0 +
    (rotate late 17 ^^^ rotate late 19 ^^^ (late >>> 10))

/-- A schedule, from the last word to the first, with as many further words. -/
def extend : Nat → List UInt32 → List UInt32
  | 0, schedule => schedule
  | count + 1, schedule => extend count (nextWord schedule :: schedule)

def words : Bytes → List UInt32
  | a :: b :: c :: d :: rest =>
    (a.toUInt32 <<< 24 ||| b.toUInt32 <<< 16 ||| c.toUInt32 <<< 8 ||| d.toUInt32) :: words rest
  | _ => []

def schedule (block : Bytes) : List UInt32 := (extend 48 (words block).reverse).reverse

/-- One round: the state after a word and the constant of the round. -/
def round (state : State) (word constant : UInt32) : State :=
  let mixed := state.h + (rotate state.e 6 ^^^ rotate state.e 11 ^^^ rotate state.e 25) +
    ((state.e &&& state.f) ^^^ (~~~state.e &&& state.g)) + constant + word
  let spread := (rotate state.a 2 ^^^ rotate state.a 13 ^^^ rotate state.a 22) +
    ((state.a &&& state.b) ^^^ (state.a &&& state.c) ^^^ (state.b &&& state.c))
  ⟨mixed + spread, state.a, state.b, state.c, state.d + mixed, state.e, state.f, state.g⟩

def compress (state : State) (block : Bytes) : State :=
  let last := ((schedule block).zip roundConstants).foldl
    (fun state (word, constant) => round state word constant) state
  ⟨state.a + last.a, state.b + last.b, state.c + last.c, state.d + last.d,
    state.e + last.e, state.f + last.f, state.g + last.g, state.h + last.h⟩

/-- The bytes of a number, the most significant first. -/
def bytesOf (count value : Nat) : Bytes :=
  (List.range count).reverse.map fun place => UInt8.ofNat (value >>> (8 * place))

/-- A message with a final one bit, zeros up to eight bytes before the end of a block, and its own
length in bits. -/
def pad (message : Bytes) : Bytes :=
  message ++ 0x80 :: List.replicate ((119 - message.length % 64) % 64) 0 ++
    bytesOf 8 (8 * message.length)

/-- The state after the first `count` blocks of a padded message. -/
def absorb : Nat → State → Bytes → State
  | 0, state, _ => state
  | count + 1, state, message => absorb count (compress state (message.take 64)) (message.drop 64)

def State.bytes (state : State) : Bytes :=
  [state.a, state.b, state.c, state.d, state.e, state.f, state.g, state.h].flatMap fun word =>
    bytesOf 4 word.toNat

def digest (message : Bytes) : Bytes :=
  let padded := pad message
  (absorb (padded.length / 64) initial padded).bytes

end ScopeChain.Sha256
