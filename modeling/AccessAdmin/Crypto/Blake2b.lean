import AccessAdmin.Crypto.Words

/-!
# BLAKE2b

The hash function BLAKE2b without a key, for digests of one to 64 octets.

* `Blake2b.digest`: the digest of some octets.
-/

namespace AccessAdmin.Crypto.Blake2b

/-- The constants that a hash begins with. -/
def initial : Vector UInt64 8 :=
  #v[0x6a09e667f3bcc908, 0xbb67ae8584caa73b, 0x3c6ef372fe94f82b, 0xa54ff53a5f1d36f1,
    0x510e527fade682d1, 0x9b05688c2b3e6c1f, 0x1f83d9abfb41bd6b, 0x5be0cd19137e2179]

/-- The order in which each round takes the words of a chunk; after ten rounds it repeats. -/
def schedule : Vector (Vector (Fin 16) 16) 10 :=
  #v[#v[0, 1, 2, 3, 4, 5, 6, 7, 8, 9, 10, 11, 12, 13, 14, 15],
    #v[14, 10, 4, 8, 9, 15, 13, 6, 1, 12, 0, 2, 11, 7, 5, 3],
    #v[11, 8, 12, 0, 5, 2, 15, 13, 10, 14, 3, 6, 7, 1, 9, 4],
    #v[7, 9, 3, 1, 13, 12, 11, 14, 2, 6, 5, 10, 4, 0, 15, 8],
    #v[9, 0, 5, 7, 2, 4, 10, 15, 14, 1, 11, 12, 6, 8, 3, 13],
    #v[2, 12, 6, 10, 0, 11, 8, 3, 4, 13, 7, 5, 15, 14, 1, 9],
    #v[12, 5, 1, 15, 14, 13, 4, 10, 0, 7, 6, 3, 9, 2, 8, 11],
    #v[13, 11, 7, 14, 12, 1, 3, 9, 5, 0, 15, 4, 8, 6, 2, 10],
    #v[6, 15, 14, 9, 11, 3, 0, 8, 12, 2, 13, 7, 1, 4, 10, 5],
    #v[10, 2, 8, 4, 7, 6, 1, 5, 15, 11, 9, 14, 3, 12, 13, 0]]

/-- The four places that each of a round's eight mixings works on: columns, then diagonals. -/
def places : List (Fin 8 × Fin 16 × Fin 16 × Fin 16 × Fin 16) :=
  [(0, 0, 4, 8, 12), (1, 1, 5, 9, 13), (2, 2, 6, 10, 14), (3, 3, 7, 11, 15),
    (4, 0, 5, 10, 15), (5, 1, 6, 11, 12), (6, 2, 7, 8, 13), (7, 3, 4, 9, 14)]

/-- Mixes two words into four places. -/
def mix (v : Vector UInt64 16) (a b c d : Fin 16) (x y : UInt64) : Vector UInt64 16 :=
  let va := v[a] + v[b] + x
  let vd := rotateRight (v[d] ^^^ va) 32
  let vc := v[c] + vd
  let vb := rotateRight (v[b] ^^^ vc) 24
  let va := va + vb + y
  let vd := rotateRight (vd ^^^ va) 16
  let vc := vc + vd
  let vb := rotateRight (vb ^^^ vc) 63
  (((v.set a va).set b vb).set c vc).set d vd

/-- One round on the words of a chunk. -/
def round (m : Vector UInt64 16) (v : Vector UInt64 16) (order : Vector (Fin 16) 16) :
    Vector UInt64 16 :=
  places.foldl
    (fun v (i, a, b, c, d) =>
      mix v a b c d m[order[2 * i.val]] m[order[2 * i.val + 1]])
    v

/-- Takes a chunk of 128 octets into the state. -/
def compress (h : Vector UInt64 8) (chunk : List UInt8) (count : Nat) (last : Bool) :
    Vector UInt64 8 :=
  let words := wordsOf chunk
  let m : Vector UInt64 16 := .ofFn fun i => words.getD i 0
  let v : Vector UInt64 16 := h ++ initial
  let v := v.set 12 (v[12] ^^^ UInt64.ofNat count)
  let v := v.set 13 (v[13] ^^^ UInt64.ofNat (count / UInt64.size))
  let v := if last then v.set 14 (v[14] ^^^ 0xffffffffffffffff) else v
  let orders := schedule.toList ++ schedule.toList.take 2
  let v := orders.foldl (round m) v
  .ofFn fun i => h[i] ^^^ v[i.val] ^^^ v[i.val + 8]

/-- Takes the chunks of a text into the state; `done` octets were taken before. -/
def absorb (total : Nat) : Nat → Vector UInt64 8 → List (List UInt8) → Vector UInt64 8
  | _, h, [] => h
  | _, h, [chunk] => compress h chunk total true
  | done, h, chunk :: rest => absorb total (done + 128) (compress h chunk (done + 128) false) rest

/-- The digest of some octets, so many octets long. -/
def digest (size : Nat) (bs : List UInt8) : List UInt8 :=
  let h := initial.set 0 (initial[0] ^^^ 0x01010000 ^^^ UInt64.ofNat size)
  let chunks := if bs.isEmpty then [[]] else inGroups 128 bs
  (octetsOf (absorb bs.length 0 h chunks).toList).take size

end AccessAdmin.Crypto.Blake2b
