import AccessAdmin.Crypto.Blake2b

/-!
# Argon2

The memory-hard password hash Argon2 in its three variants and both versions. The memory is a
matrix of blocks, a row for each lane; every pass fills it column by column, each block from the
one before it and from another one that is chosen by the password's data or by counters alone.

* `Argon2.tag`: the tag of a password and a salt.
-/

namespace AccessAdmin.Crypto.Argon2

/-- How a block chooses the other one it is made of. -/
inductive Variant where
  /-- By the data of the block before it. -/
  | d
  /-- By counters. -/
  | i
  /-- By counters in the first half of the first pass, by data afterwards. -/
  | id
deriving DecidableEq, Repr

/-- The number of a variant. -/
def Variant.code : Variant → Nat
  | d => 0
  | i => 1
  | id => 2

/-- Whether later passes overwrite blocks or add to them. -/
inductive Version where
  | overwriting
  | adding
deriving DecidableEq, Repr

/-- The number of a version. -/
def Version.code : Version → Nat
  | overwriting => 16
  | adding => 19

/-- What a hash is asked for. -/
structure Params where
  variant : Variant := .id
  version : Version := .adding
  /-- The memory in blocks of 1024 octets. -/
  memory : Nat := 19456
  passes : Nat := 2
  lanes : Nat := 1
  tagLength : Nat := 32
  /-- Data that goes into the hash beside password and salt. -/
  extra : List UInt8 := []
deriving DecidableEq, Repr

namespace Params

/-- The columns of a quarter of a lane. -/
def segment (p : Params) : Nat := p.memory / (4 * p.lanes)

/-- The columns of a lane. -/
def columns (p : Params) : Nat := 4 * p.segment

end Params

/-- A block of memory. -/
abbrev Block : Type := Vector UInt64 128

/-- The block of zeros. -/
def zero : Block := .replicate 128 0

/-- The exclusive or of two blocks. -/
def plus (x y : Block) : Block := .zipWith (· ^^^ ·) x y

/-- Some octets with their number before them. -/
def counted (bs : List UInt8) : List UInt8 := littleEndian 4 bs.length ++ bs

/-- The pieces of a long digest: each one hashes the one before it, and the first half of each is
kept; the last piece is kept whole. -/
def pieces : Nat → Nat → List UInt8 → List UInt8
  | 0, rest, v => (Blake2b.digest rest v).take rest
  | n + 1, rest, v =>
    let v := Blake2b.digest 64 v
    v.take 32 ++ pieces n rest v

/-- A digest of any length. -/
def longDigest (size : Nat) (bs : List UInt8) : List UInt8 :=
  let text := littleEndian 4 size ++ bs
  if size ≤ 64 then Blake2b.digest size text
  else
    let halves := (size + 31) / 32 - 2
    pieces halves (size - 32 * halves) text

/-- The sum of two words, with twice the product of their lower halves. -/
def addMul (x y : UInt64) : UInt64 :=
  x + y + 2 * (x &&& 0xffffffff) * (y &&& 0xffffffff)

/-- Mixes four words of a block. -/
def mix (v : Block) (a b c d : Fin 128) : Block :=
  let va := addMul v[a] v[b]
  let vd := rotateRight (v[d] ^^^ va) 32
  let vc := addMul v[c] vd
  let vb := rotateRight (v[b] ^^^ vc) 24
  let va := addMul va vb
  let vd := rotateRight (vd ^^^ va) 16
  let vc := addMul vc vd
  let vb := rotateRight (vb ^^^ vc) 63
  (((v.set a va).set b vb).set c vc).set d vd

/-- Mixes sixteen words of a block, given by their places. -/
def permute (v : Block) (place : Fin 16 → Fin 128) : Block :=
  Blake2b.places.foldl (fun v (_, a, b, c, d) => mix v (place a) (place b) (place c) (place d)) v

/-- The places of a row of the block, which is a matrix of eight by eight pairs of words. -/
def row (i : Fin 8) (k : Fin 16) : Fin 128 := ⟨16 * i.val + k.val, by omega⟩

/-- The places of a column of the block. -/
def column (i : Fin 8) (k : Fin 16) : Fin 128 :=
  ⟨2 * i.val + 16 * (k.val / 2) + k.val % 2, by omega⟩

/-- The rows, or columns, of a block. -/
def eight : List (Fin 8) := List.finRange 8

/-- The block made of two others. -/
def compress (x y : Block) : Block :=
  let r := plus x y
  let z := eight.foldl (fun v i => permute v (row i)) r
  plus r (eight.foldl (fun v i => permute v (column i)) z)

/-- The block that some octets write. -/
def blockOf (bs : List UInt8) : Block :=
  let words := (wordsOf bs).toArray
  .ofFn fun i => words.getD i 0

/-- The digest that everything else starts from. -/
def seed (p : Params) (password salt : List UInt8) : List UInt8 :=
  Blake2b.digest 64 <|
    littleEndian 4 p.lanes ++ littleEndian 4 p.tagLength ++ littleEndian 4 p.memory ++
      littleEndian 4 p.passes ++ littleEndian 4 p.version.code ++ littleEndian 4 p.variant.code ++
      counted password ++ counted salt ++ counted [] ++ counted p.extra

/-- The memory: the blocks of the first lane, then those of the next. -/
abbrev Memory : Type := Array Block

/-- The memory before the first pass, with the first two blocks of each lane. -/
def start (p : Params) (h : List UInt8) : Memory :=
  let lane (l : Nat) : List Block :=
    let first (i : Nat) := blockOf (longDigest 1024 (h ++ littleEndian 4 i ++ littleEndian 4 l))
    first 0 :: first 1 :: List.replicate (p.columns - 2) zero
  ((List.range p.lanes).flatMap lane).toArray

/-- Where the work stands: the pass, the quarter of it, and the lane. -/
structure Position where
  pass : Nat
  slice : Nat
  lane : Nat

/-- Whether a position chooses by counters. -/
def byCounters (p : Params) (at' : Position) : Bool :=
  match p.variant with
  | .d => false
  | .i => true
  | .id => at'.pass == 0 && at'.slice < 2

/-- The words that choose, for each column of a segment. -/
def choices (p : Params) (at' : Position) : Array UInt64 :=
  let block (counter : Nat) : Block :=
    let header : List Nat :=
      [at'.pass, at'.lane, at'.slice, p.lanes * p.columns, p.passes, p.variant.code, counter]
    let input : Block := .ofFn fun i => UInt64.ofNat (header.getD i 0)
    compress zero (compress zero input)
  ((List.range ((p.segment + 127) / 128)).flatMap fun n => (block (n + 1)).toList).toArray

/-- How many blocks of a lane may be chosen for a column of a segment. -/
def candidates (p : Params) (at' : Position) (index : Nat) (sameLane : Bool) : Nat :=
  let before := if at'.pass = 0 then at'.slice * p.segment else p.columns - p.segment
  if sameLane then before + index - 1 else if index = 0 then before - 1 else before

/-- The block that a word chooses for a column of a segment. -/
def chosen (p : Params) (at' : Position) (index : Nat) (word : UInt64) : Nat :=
  let low := word.toNat % UInt32.size
  let lane :=
    if at'.pass = 0 ∧ at'.slice = 0 then at'.lane else word.toNat / UInt32.size % p.lanes
  let count := candidates p at' index (lane == at'.lane)
  let back := count * (low * low / UInt32.size) / UInt32.size
  let first := if at'.pass = 0 ∨ at'.slice = 3 then 0 else (at'.slice + 1) * p.segment
  lane * p.columns + (first + (count - 1 - back)) % p.columns

/-- Fills one block. -/
def fillBlock (p : Params) (at' : Position) (words : Array UInt64) (m : Memory) (index : Nat) :
    Memory :=
  let column := at'.slice * p.segment + index
  let here := at'.lane * p.columns + column
  let before := m.getD (at'.lane * p.columns + (column + p.columns - 1) % p.columns) zero
  let word := if byCounters p at' then words.getD index 0 else before[0]
  let new := compress before (m.getD (chosen p at' index word) zero)
  if at'.pass = 0 ∨ p.version = .overwriting then m.setIfInBounds here new
  else m.setIfInBounds here (plus (m.getD here zero) new)

/-- Fills a segment; the first two blocks of a lane are given. -/
def fillSegment (p : Params) (m : Memory) (at' : Position) : Memory :=
  let words := if byCounters p at' then choices p at' else #[]
  let given := if at'.pass = 0 ∧ at'.slice = 0 then 2 else 0
  ((List.range p.segment).drop given).foldl (fillBlock p at' words) m

/-- The order in which segments are filled. -/
def positions (p : Params) : List Position :=
  (List.range p.passes).flatMap fun pass =>
    (List.range 4).flatMap fun slice => (List.range p.lanes).map fun lane => ⟨pass, slice, lane⟩

/-- The tag of a password and a salt. -/
def tag (p : Params) (password salt : List UInt8) : List UInt8 :=
  let m := (positions p).foldl (fillSegment p) (start p (seed p password salt))
  let final := (List.range p.lanes).foldl
    (fun b l => plus b (m.getD (l * p.columns + (p.columns - 1)) zero)) zero
  longDigest p.tagLength (octetsOf final.toList)

end AccessAdmin.Crypto.Argon2
