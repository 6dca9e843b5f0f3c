import ExtraAccounts.Bytes

/-!
# SHA-256

The hash of a message: it is padded to whole blocks of 64 bytes, and each block is mixed into a
state of eight words in 64 rounds. Words are big endian.
-/

namespace ExtraAccounts.Sha256

/-! ## Words -/

/-- The word rotated right by `n` places, for `n` from 1 to 31. -/
def rotateRight (x n : UInt32) : UInt32 := (x >>> n) ||| (x <<< (32 - n))

/-- Where the bits of `x` are set those of `y`, elsewhere those of `z`. -/
def choose (x y z : UInt32) : UInt32 := (x &&& y) ^^^ (~~~x &&& z)

/-- At each place the bit that at least two of the words have. -/
def majority (x y z : UInt32) : UInt32 := (x &&& y) ^^^ (x &&& z) ^^^ (y &&& z)

def bigSigma0 (x : UInt32) : UInt32 := rotateRight x 2 ^^^ rotateRight x 13 ^^^ rotateRight x 22

def bigSigma1 (x : UInt32) : UInt32 := rotateRight x 6 ^^^ rotateRight x 11 ^^^ rotateRight x 25

def smallSigma0 (x : UInt32) : UInt32 := rotateRight x 7 ^^^ rotateRight x 18 ^^^ (x >>> 3)

def smallSigma1 (x : UInt32) : UInt32 := rotateRight x 17 ^^^ rotateRight x 19 ^^^ (x >>> 10)

/-- The word of four bytes, most significant first. -/
def wordOfBytes (b₀ b₁ b₂ b₃ : UInt8) : UInt32 :=
  (b₀.toUInt32 <<< 24) ||| (b₁.toUInt32 <<< 16) ||| (b₂.toUInt32 <<< 8) ||| b₃.toUInt32

/-- The four bytes of a word, most significant first. -/
def bytesOfWord (x : UInt32) : Bytes :=
  [(x >>> 24).toUInt8, (x >>> 16).toUInt8, (x >>> 8).toUInt8, x.toUInt8]

/-! ## Padding -/

/-- The `n` lowest base-256 digits of a number, most significant first. -/
def beBytes (n value : Nat) : Bytes := (Bytes.leBytes n value).reverse

/-- The message, a one bit, zeros up to the last eight bytes of a block, and its length in bits. -/
def pad (message : Bytes) : Bytes :=
  message ++ 0x80 :: List.replicate ((119 - message.length % 64) % 64) 0
    ++ beBytes 8 (8 * message.length)

theorem length_pad_mod (message : Bytes) : (pad message).length % 64 = 0 := by
  simp only [pad, beBytes, List.length_append, List.length_cons, List.length_replicate,
    List.length_reverse, Bytes.length_leBytes]
  omega

/-- The first `count` whole blocks of the bytes. -/
def blocks : (count : Nat) → Bytes → List (Block 64)
  | 0, _ => []
  | count + 1, bytes =>
    match bytes.block? 64 0 with
    | none => []
    | some block => block :: blocks count (bytes.drop 64)

/-! ## Compression -/

/-- The word added in each round: the fractional parts of the cube roots of the first 64 primes. -/
def roundConstants : List UInt32 :=
  [0x428a2f98, 0x71374491, 0xb5c0fbcf, 0xe9b5dba5, 0x3956c25b, 0x59f111f1, 0x923f82a4, 0xab1c5ed5,
   0xd807aa98, 0x12835b01, 0x243185be, 0x550c7dc3, 0x72be5d74, 0x80deb1fe, 0x9bdc06a7, 0xc19bf174,
   0xe49b69c1, 0xefbe4786, 0x0fc19dc6, 0x240ca1cc, 0x2de92c6f, 0x4a7484aa, 0x5cb0a9dc, 0x76f988da,
   0x983e5152, 0xa831c66d, 0xb00327c8, 0xbf597fc7, 0xc6e00bf3, 0xd5a79147, 0x06ca6351, 0x14292967,
   0x27b70a85, 0x2e1b2138, 0x4d2c6dfc, 0x53380d13, 0x650a7354, 0x766a0abb, 0x81c2c92e, 0x92722c85,
   0xa2bfe8a1, 0xa81a664b, 0xc24b8b70, 0xc76c51a3, 0xd192e819, 0xd6990624, 0xf40e3585, 0x106aa070,
   0x19a4c116, 0x1e376c08, 0x2748774c, 0x34b0bcb5, 0x391c0cb3, 0x4ed8aa4a, 0x5b9cca4f, 0x682e6ff3,
   0x748f82ee, 0x78a5636f, 0x84c87814, 0x8cc70208, 0x90befffa, 0xa4506ceb, 0xbef9a3f7, 0xc67178f2]

structure State where
  (a b c d e f g h : UInt32)
deriving DecidableEq

/-- The state before the first block: the fractional parts of the square roots of the first eight
primes. -/
def State.initial : State where
  a := 0x6a09e667
  b := 0xbb67ae85
  c := 0x3c6ef372
  d := 0xa54ff53a
  e := 0x510e527f
  f := 0x9b05688c
  g := 0x1f83d9ab
  h := 0x5be0cd19

/-- One round; `x` is the sum of the round's constant and its schedule word. -/
def State.round (s : State) (x : UInt32) : State :=
  let t₁ := s.h + bigSigma1 s.e + choose s.e s.f s.g + x
  let t₂ := bigSigma0 s.a + majority s.a s.b s.c
  { a := t₁ + t₂, b := s.a, c := s.b, d := s.c, e := s.d + t₁, f := s.e, g := s.f, h := s.g }

def State.add (s t : State) : State where
  a := s.a + t.a
  b := s.b + t.b
  c := s.c + t.c
  d := s.d + t.d
  e := s.e + t.e
  f := s.f + t.f
  g := s.g + t.g
  h := s.h + t.h

def State.digest (s : State) : Block 32 where
  toBytes := [s.a, s.b, s.c, s.d, s.e, s.f, s.g, s.h].flatMap bytesOfWord
  length_toBytes := rfl

def blockWords (block : Block 64) : Vector UInt32 16 :=
  .ofFn fun i =>
    have := i.isLt
    wordOfBytes block[4 * i.val] block[4 * i.val + 1] block[4 * i.val + 2] block[4 * i.val + 3]

/-- The words of a block and `n` more, each mixed from words 16, 15, 7 and 2 places back. -/
def schedule (words : Vector UInt32 16) : (n : Nat) → Vector UInt32 (16 + n)
  | 0 => words
  | n + 1 =>
    let w := schedule words n
    w.push (smallSigma1 w[n + 14] + w[n + 9] + smallSigma0 w[n + 1] + w[n])

/-- Mixes a block into the state. -/
def compress (state : State) (block : Block 64) : State :=
  let words := (schedule (blockWords block) 48).toList
  state.add ((roundConstants.zip words).foldl (fun s (k, w) => s.round (k + w)) state)

/-- The hash of the message. -/
def hash (message : Bytes) : Block 32 :=
  let padded := pad message
  ((blocks (padded.length / 64) padded).foldl compress .initial).digest

end ExtraAccounts.Sha256
