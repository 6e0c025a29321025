/-
Module: AnotherWs.Core.Sha1
Purpose: sha1.cpp: the hash context, the unrolled transformation of a block, and the three calls that
  reset, feed and finish a context.
Trusted boundary: the host is little endian and `rol` is the portable macro; a word of the block buffer
  holds the four bytes that the byte stores put into it.
Main exports: SHA1Context, hash1Reset, hash1Transform, hash1Write, hash1WriteCall, hash1Final
-/
import AnotherWs.Core.Membuf

namespace AnotherWs

/-- `SHA1_CONTEXT`. `bFinal` is a one-bit field that is only tested against zero. -/
structure SHA1Context where
  bFinal : Bool
  h0 : UInt32
  h1 : UInt32
  h2 : UInt32
  h3 : UInt32
  h4 : UInt32
  nblocks : UInt32
  count : Nat
  buf : Bytes
  buf_length : buf.length = 64
deriving DecidableEq

/-- `hash1_reset` -/
def hash1Reset : SHA1Context where
  bFinal := false
  h0 := 0x67452301
  h1 := 0xefcdab89
  h2 := 0x98badcfe
  h3 := 0x10325476
  h4 := 0xc3d2e1f0
  nblocks := 0
  count := 0
  buf := List.replicate 64 0
  buf_length := List.length_replicate

/-! ### The transformation of a block -/

/-- `rol` -/
def rol (x n : UInt32) : UInt32 := (x <<< n) ||| (x >>> (32 - n))

/-- `K1` -/
def sha1K1 : UInt32 := 0x5A827999

/-- `K2` -/
def sha1K2 : UInt32 := 0x6ED9EBA1

/-- `K3` -/
def sha1K3 : UInt32 := 0x8F1BBCDC

/-- `K4` -/
def sha1K4 : UInt32 := 0xCA62C1D6

/-- `F1` -/
def sha1F1 (x y z : UInt32) : UInt32 := z ^^^ (x &&& (y ^^^ z))

/-- `F2` -/
def sha1F2 (x y z : UInt32) : UInt32 := x ^^^ y ^^^ z

/-- `F3` -/
def sha1F3 (x y z : UInt32) : UInt32 := (x &&& y) ||| (z &&& (x ||| y))

/-- `F4` -/
def sha1F4 (x y z : UInt32) : UInt32 := x ^^^ y ^^^ z

/-- The locals of `hash1_transform`: five registers and the sixteen words of `x`. -/
structure TransformLocals where
  a : UInt32
  b : UInt32
  c : UInt32
  d : UInt32
  e : UInt32
  x : List UInt32

/-- The message operand of line `i`: `x[i]` up to line 15, and from line 16 on `M(i)`, which also
stores into `x`. -/
def transformOperand (i : Nat) (x : List UInt32) : UInt32 × List UInt32 :=
  if i < 16 then (x.getD i 0, x)
  else
    let tm := x.getD (i % 16) 0 ^^^ x.getD ((i - 14) % 16) 0 ^^^ x.getD ((i - 8) % 16) 0 ^^^
      x.getD ((i - 3) % 16) 0
    (rol tm 1, x.set (i % 16) (rol tm 1))

/-- The macro `R`. It assigns to its second and to its fifth argument, and gives back the two. -/
def transformR (f : UInt32 → UInt32 → UInt32 → UInt32) (k m a b c d e : UInt32) : UInt32 × UInt32 :=
  (rol b 30, e + (rol a 5 + f b c d + k + m))

/-- Five lines of `hash1_transform`, from line `i` on. The arguments move round by one place from line
to line, so after five lines they stand as before. -/
def transformFive (f : UInt32 → UInt32 → UInt32 → UInt32) (k : UInt32) (locals : TransformLocals)
    (i : Nat) : TransformLocals :=
  let ⟨a, b, c, d, e, x⟩ := locals
  let (m, x) := transformOperand i x
  let (b, e) := transformR f k m a b c d e
  let (m, x) := transformOperand (i + 1) x
  let (a, d) := transformR f k m e a b c d
  let (m, x) := transformOperand (i + 2) x
  let (e, c) := transformR f k m d e a b c
  let (m, x) := transformOperand (i + 3) x
  let (d, b) := transformR f k m c d e a b
  let (m, x) := transformOperand (i + 4) x
  let (c, a) := transformR f k m b c d e a
  ⟨a, b, c, d, e, x⟩

/-- The eighty lines of `hash1_transform`. -/
def transformLines (locals : TransformLocals) : TransformLocals :=
  let locals := [0, 5, 10, 15].foldl (transformFive sha1F1 sha1K1) locals
  let locals := [20, 25, 30, 35].foldl (transformFive sha1F2 sha1K2) locals
  let locals := [40, 45, 50, 55].foldl (transformFive sha1F3 sha1K3) locals
  [60, 65, 70, 75].foldl (transformFive sha1F4 sha1K4) locals

/-- A word of `x` from its four bytes in memory. -/
def littleEndianWord (p0 p1 p2 p3 : UInt8) : UInt32 :=
  (p3.toUInt32 <<< 24) ||| (p2.toUInt32 <<< 16) ||| (p1.toUInt32 <<< 8) ||| p0.toUInt32

/-- The copy of `data` into `x`, which turns the bytes of every word round. -/
def transformWords (data : Bytes) : List UInt32 :=
  (List.range 16).map fun i =>
    littleEndianWord (data.getD (4 * i + 3) 0) (data.getD (4 * i + 2) 0) (data.getD (4 * i + 1) 0)
      (data.getD (4 * i) 0)

/-- `hash1_transform` -/
def hash1Transform (hd : SHA1Context) (data : Bytes) : SHA1Context :=
  let locals := transformLines ⟨hd.h0, hd.h1, hd.h2, hd.h3, hd.h4, transformWords data⟩
  { hd with
    h0 := hd.h0 + locals.a
    h1 := hd.h1 + locals.b
    h2 := hd.h2 + locals.c
    h3 := hd.h3 + locals.d
    h4 := hd.h4 + locals.e }

/-! ### Feeding a context -/

/-- `hd->buf[hd->count++] = byte` -/
def SHA1Context.push (hd : SHA1Context) (byte : UInt8) : SHA1Context :=
  { hd with
    buf := hd.buf.set hd.count byte
    count := hd.count + 1
    buf_length := by rw [List.length_set]; exact hd.buf_length }

/-- One transformed block is behind the context: `count = 0` and `nblocks++`. -/
def SHA1Context.nextBlock (hd : SHA1Context) (data : Bytes) : SHA1Context :=
  let hd := hash1Transform hd data
  { hd with count := 0, nblocks := hd.nblocks + 1 }

/-- `hash1_write(hd, NULL, 0)`: a finished context starts again, and a full buffer is flushed. -/
def hash1Flush (hd : SHA1Context) : SHA1Context :=
  let hd := if hd.bFinal then hash1Reset else hd
  if hd.count = 64 then hd.nextBlock hd.buf else hd

/-- `for (; inlen && hd->count < 64; inlen--) hd->buf[hd->count++] = *inbuf++;` with the input that is
left. -/
def fillBuf (hd : SHA1Context) : Bytes → SHA1Context × Bytes
  | [] => (hd, [])
  | byte :: inbuf => if hd.count < 64 then fillBuf (hd.push byte) inbuf else (hd, byte :: inbuf)

/-- `while (inlen >= 64)`: whole blocks are taken from the input, at most `fuel` of them. -/
def transformBlocks : Nat → SHA1Context → Bytes → SHA1Context × Bytes
  | 0, hd, inbuf => (hd, inbuf)
  | fuel + 1, hd, inbuf =>
      if 64 ≤ inbuf.length then
        transformBlocks fuel (hd.nextBlock (inbuf.take 64)) (inbuf.drop 64)
      else (hd, inbuf)

/-- The two loops at the end of `hash1_write`. The first one takes a pass for every 64 bytes. -/
def writeBlocks (hd : SHA1Context) (inbuf : Bytes) : SHA1Context :=
  let (hd, inbuf) := transformBlocks (inbuf.length / 64) hd inbuf
  (fillBuf hd inbuf).1

/-- What `hash1_write` does behind the return for a null input. -/
def writeInput (hd : SHA1Context) (inbuf : Bytes) : SHA1Context :=
  if hd.count ≠ 0 then
    let (hd, inbuf) := fillBuf hd inbuf
    let hd := hash1Flush hd
    if inbuf = [] then hd else writeBlocks hd inbuf
  else writeBlocks hd inbuf

/-- `hash1_write` with an input. -/
def hash1Write (hd : SHA1Context) (inbuf : Bytes) : SHA1Context := writeInput (hash1Flush hd) inbuf

/-- A call of `hash1_write`. A null pointer only flushes, and the length of an input is passed as a
`uint`. -/
def hash1WriteCall (hd : SHA1Context) : Option Bytes → SHA1Context
  | none => hash1Flush hd
  | some inbuf => hash1Write hd (inbuf.take (inbuf.length % 2 ^ 32))

/-! ### The digest -/

/-- `hd->buf[hd->count++] = 0`, `n` times. -/
def pushZeros : Nat → SHA1Context → SHA1Context
  | 0, hd => hd
  | n + 1, hd => pushZeros n (hd.push 0)

/-- The padding of `hash1_final` up to the length field. -/
def padBuf (hd : SHA1Context) : SHA1Context :=
  if hd.count < 56 then
    let hd := hd.push 0x80
    pushZeros (56 - hd.count) hd
  else
    let hd := hd.push 0x80
    let hd := pushZeros (64 - hd.count) hd
    let hd := hash1Flush hd
    { hd with
      buf := List.replicate 56 0 ++ hd.buf.drop 56
      buf_length := by
        have := hd.buf_length
        simp only [List.length_append, List.length_replicate, List.length_drop]
        omega }

/-- The bit count of `hash1_final` as its high and its low word. -/
def bitCount (hd : SHA1Context) : UInt32 × UInt32 :=
  let t := hd.nblocks
  let lsb := t <<< 6
  let msb := t >>> 26
  let t := lsb
  let lsb := lsb + UInt32.ofNat hd.count
  let msb := if lsb < t then msb + 1 else msb
  let t := lsb
  let lsb := lsb <<< 3
  let msb := msb <<< 3
  (msb ||| (t >>> 29), lsb)

/-- A word as the four bytes that the shifts of `hash1_final` store. -/
def storeWord (word : UInt32) : Bytes :=
  [(word >>> 24).toUInt8, (word >>> 16).toUInt8, (word >>> 8).toUInt8, word.toUInt8]

@[simp] theorem length_storeWord (word : UInt32) : (storeWord word).length = 4 := rfl

/-- `hash1_final`. The digest goes over the first twenty bytes of the block buffer, and the rest of the
last block stays behind it. -/
def hash1Final (hd : SHA1Context) : SHA1Context :=
  let hd := hash1Flush hd
  let (msb, lsb) := bitCount hd
  let padded := padBuf hd
  let block := padded.buf.take 56 ++ storeWord msb ++ storeWord lsb
  let hd := hash1Transform padded block
  { hd with
    buf := storeWord hd.h0 ++ storeWord hd.h1 ++ storeWord hd.h2 ++ storeWord hd.h3 ++
      storeWord hd.h4 ++ block.drop 20
    bFinal := true
    buf_length := by
      have := padded.buf_length
      simp only [block, List.length_append, List.length_drop, List.length_take, length_storeWord]
      omega }

end AnotherWs
