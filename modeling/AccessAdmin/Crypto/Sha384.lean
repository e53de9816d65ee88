import AccessAdmin.Crypto.Words

/-!
# SHA-384

The hash function SHA-384: the longer rounds of SHA-2 on words of 64 bits, begun with constants of
its own and cut to 48 octets.

* `Sha384.digest`: the digest of some octets.
-/

namespace AccessAdmin.Crypto.Sha384

/-- Eight words that the rounds work on. -/
structure State where
  a : UInt64
  b : UInt64
  c : UInt64
  d : UInt64
  e : UInt64
  f : UInt64
  g : UInt64
  h : UInt64

/-- The words that a hash begins with. -/
def initial : State where
  a := 0xcbbb9d5dc1059ed8
  b := 0x629a292a367cd507
  c := 0x9159015a3070dd17
  d := 0x152fecd8f70e5939
  e := 0x67332667ffc00b31
  f := 0x8eb44a8768581511
  g := 0xdb0c2e0d64f98fa7
  h := 0x47b5481dbefa4fa4

/-- The constants of the rounds: 64 bits of the fractions of the cube roots of the first 80
primes. -/
def constants : List UInt64 :=
  [0x428a2f98d728ae22, 0x7137449123ef65cd, 0xb5c0fbcfec4d3b2f, 0xe9b5dba58189dbbc,
    0x3956c25bf348b538, 0x59f111f1b605d019, 0x923f82a4af194f9b, 0xab1c5ed5da6d8118,
    0xd807aa98a3030242, 0x12835b0145706fbe, 0x243185be4ee4b28c, 0x550c7dc3d5ffb4e2,
    0x72be5d74f27b896f, 0x80deb1fe3b1696b1, 0x9bdc06a725c71235, 0xc19bf174cf692694,
    0xe49b69c19ef14ad2, 0xefbe4786384f25e3, 0x0fc19dc68b8cd5b5, 0x240ca1cc77ac9c65,
    0x2de92c6f592b0275, 0x4a7484aa6ea6e483, 0x5cb0a9dcbd41fbd4, 0x76f988da831153b5,
    0x983e5152ee66dfab, 0xa831c66d2db43210, 0xb00327c898fb213f, 0xbf597fc7beef0ee4,
    0xc6e00bf33da88fc2, 0xd5a79147930aa725, 0x06ca6351e003826f, 0x142929670a0e6e70,
    0x27b70a8546d22ffc, 0x2e1b21385c26c926, 0x4d2c6dfc5ac42aed, 0x53380d139d95b3df,
    0x650a73548baf63de, 0x766a0abb3c77b2a8, 0x81c2c92e47edaee6, 0x92722c851482353b,
    0xa2bfe8a14cf10364, 0xa81a664bbc423001, 0xc24b8b70d0f89791, 0xc76c51a30654be30,
    0xd192e819d6ef5218, 0xd69906245565a910, 0xf40e35855771202a, 0x106aa07032bbd1b8,
    0x19a4c116b8d2d0c8, 0x1e376c085141ab53, 0x2748774cdf8eeb99, 0x34b0bcb5e19b48a8,
    0x391c0cb3c5c95a63, 0x4ed8aa4ae3418acb, 0x5b9cca4f7763e373, 0x682e6ff3d6b2b8a3,
    0x748f82ee5defb2fc, 0x78a5636f43172f60, 0x84c87814a1f0ab72, 0x8cc702081a6439ec,
    0x90befffa23631e28, 0xa4506cebde82bde9, 0xbef9a3f7b2c67915, 0xc67178f2e372532b,
    0xca273eceea26619c, 0xd186b8c721c0c207, 0xeada7dd6cde0eb1e, 0xf57d4f7fee6ed178,
    0x06f067aa72176fba, 0x0a637dc5a2c898a6, 0x113f9804bef90dae, 0x1b710b35131c471b,
    0x28db77f523047d84, 0x32caab7b40c72493, 0x3c9ebe0a15c9bebc, 0x431d67c49c100d4c,
    0x4cc5d4becb3e42b6, 0x597f299cfc657e2a, 0x5fcb6fab3ad6faec, 0x6c44198c4a475817]

/-- Two turns of a word and a shift of it laid over each other. -/
def scatter (x : UInt64) (i j k : Nat) : UInt64 :=
  rotateRight x i ^^^ rotateRight x j ^^^ (x >>> UInt64.ofNat k)

/-- Three turns of a word laid over each other. -/
def spread (x : UInt64) (i j k : Nat) : UInt64 :=
  rotateRight x i ^^^ rotateRight x j ^^^ rotateRight x k

/-- So many words of the schedule, from the next sixteen on. -/
def schedule : Nat → Vector UInt64 16 → List UInt64
  | 0, _ => []
  | n + 1, w =>
    let next := scatter w[14] 19 61 6 + w[9] + scatter w[1] 1 8 7 + w[0]
    w[0] :: schedule n (.ofFn fun i => if h : i.val < 15 then w[i.val + 1] else next)

/-- One round with its constant and its word. -/
def round (s : State) (x : UInt64 × UInt64) : State :=
  let choice := (s.e &&& s.f) ^^^ (~~~s.e &&& s.g)
  let majority := (s.a &&& s.b) ^^^ (s.a &&& s.c) ^^^ (s.b &&& s.c)
  let t := s.h + spread s.e 14 18 41 + choice + x.1 + x.2
  let u := spread s.a 28 34 39 + majority
  ⟨t + u, s.a, s.b, s.c, s.d + t, s.e, s.f, s.g⟩

/-- Takes a chunk of 128 octets into the state. -/
def compress (s : State) (chunk : List UInt8) : State :=
  let words := (inGroups 8 chunk).map fun g => UInt64.ofNat (ofBigEndian g)
  let r := (constants.zip (schedule 80 (.ofFn fun i => words.getD i 0))).foldl round s
  ⟨s.a + r.a, s.b + r.b, s.c + r.c, s.d + r.d, s.e + r.e, s.f + r.f, s.g + r.g, s.h + r.h⟩

/-- The octets filled up to whole chunks: a one, zeros, and the number of bits. -/
def padded (bs : List UInt8) : List UInt8 :=
  let zeros := (128 - (bs.length + 17) % 128) % 128
  bs ++ 0x80 :: List.replicate zeros 0 ++ bigEndian 16 (8 * bs.length)

/-- The digest of some octets. -/
def digest (bs : List UInt8) : List UInt8 :=
  let s := (inGroups 128 (padded bs)).foldl compress initial
  [s.a, s.b, s.c, s.d, s.e, s.f].flatMap fun w => bigEndian 8 w.toNat

end AccessAdmin.Crypto.Sha384
