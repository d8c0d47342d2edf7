/-
  The message digest (lib/md5.c): the compression function and the incremental
  interface with its block buffer and two-word bit count.

  Main result: `md5Update_eq_foldl`.
-/
import Pfs.Lib.Digest
import Pfs.Mybuff

namespace Pfs

open List

/-! ## 1. Compression -/

/-- `ctx->buf`. -/
structure Md5Buf where
  a : UInt32
  b : UInt32
  c : UInt32
  d : UInt32
  deriving DecidableEq, Repr

def F1 (x y z : UInt32) : UInt32 := z ^^^ (x &&& (y ^^^ z))
def F2 (x y z : UInt32) : UInt32 := F1 z x y
def F3 (x y z : UInt32) : UInt32 := x ^^^ y ^^^ z
def F4 (x y z : UInt32) : UInt32 := y ^^^ (x ||| ~~~z)

/-- The `F1` round: word, constant and shift of each step. -/
def round1 : List (Nat × UInt32 × UInt32) := [
   (0, 0xd76aa478, 7), (1, 0xe8c7b756, 12), (2, 0x242070db, 17), (3, 0xc1bdceee, 22),
   (4, 0xf57c0faf, 7), (5, 0x4787c62a, 12), (6, 0xa8304613, 17), (7, 0xfd469501, 22),
   (8, 0x698098d8, 7), (9, 0x8b44f7af, 12), (10, 0xffff5bb1, 17), (11, 0x895cd7be, 22),
   (12, 0x6b901122, 7), (13, 0xfd987193, 12), (14, 0xa679438e, 17), (15, 0x49b40821, 22)]

def round2 : List (Nat × UInt32 × UInt32) := [
   (1, 0xf61e2562, 5), (6, 0xc040b340, 9), (11, 0x265e5a51, 14), (0, 0xe9b6c7aa, 20),
   (5, 0xd62f105d, 5), (10, 0x02441453, 9), (15, 0xd8a1e681, 14), (4, 0xe7d3fbc8, 20),
   (9, 0x21e1cde6, 5), (14, 0xc33707d6, 9), (3, 0xf4d50d87, 14), (8, 0x455a14ed, 20),
   (13, 0xa9e3e905, 5), (2, 0xfcefa3f8, 9), (7, 0x676f02d9, 14), (12, 0x8d2a4c8a, 20)]

def round3 : List (Nat × UInt32 × UInt32) := [
   (5, 0xfffa3942, 4), (8, 0x8771f681, 11), (11, 0x6d9d6122, 16), (14, 0xfde5380c, 23),
   (1, 0xa4beea44, 4), (4, 0x4bdecfa9, 11), (7, 0xf6bb4b60, 16), (10, 0xbebfbc70, 23),
   (13, 0x289b7ec6, 4), (0, 0xeaa127fa, 11), (3, 0xd4ef3085, 16), (6, 0x04881d05, 23),
   (9, 0xd9d4d039, 4), (12, 0xe6db99e5, 11), (15, 0x1fa27cf8, 16), (2, 0xc4ac5665, 23)]

def round4 : List (Nat × UInt32 × UInt32) := [
   (0, 0xf4292244, 6), (7, 0x432aff97, 10), (14, 0xab9423a7, 15), (5, 0xfc93a039, 21),
   (12, 0x655b59c3, 6), (3, 0x8f0ccc92, 10), (10, 0xffeff47d, 15), (1, 0x85845dd1, 21),
   (8, 0x6fa87e4f, 6), (15, 0xfe2ce6e0, 10), (6, 0xa3014314, 15), (13, 0x4e0811a1, 21),
   (4, 0xf7537e82, 6), (11, 0xbd3af235, 10), (2, 0x2ad7d2bb, 15), (9, 0xeb86d391, 21)]

/-- The `i`-th word of a block, little-endian. -/
def wordAt (block : List UInt8) (i : Nat) : UInt32 :=
  (block.getD (4 * i) 0).toUInt32 ||| ((block.getD (4 * i + 1) 0).toUInt32 <<< 8) |||
    ((block.getD (4 * i + 2) 0).toUInt32 <<< 16) ||| ((block.getD (4 * i + 3) 0).toUInt32 <<< 24)

/-- `MD5STEP`, followed by the rotation of the names `a b c d` from one line to the next. -/
def md5Step (f : UInt32 → UInt32 → UInt32 → UInt32) (block : List UInt8) (v : Md5Buf)
    (r : Nat × UInt32 × UInt32) : Md5Buf :=
  let w := v.a + (f v.b v.c v.d + (wordAt block r.1 + r.2.1))
  let w := (w <<< r.2.2) ||| (w >>> (32 - r.2.2))
  ⟨v.d, w + v.b, v.b, v.c⟩

/-- `MD5Transform` -/
def md5Transform (buf : Md5Buf) (block : List UInt8) : Md5Buf :=
  let v := round1.foldl (md5Step F1 block) buf
  let v := round2.foldl (md5Step F2 block) v
  let v := round3.foldl (md5Step F3 block) v
  let v := round4.foldl (md5Step F4 block) v
  ⟨buf.a + v.a, buf.b + v.b, buf.c + v.c, buf.d + v.d⟩

/-! ## 2. The incremental interface -/

/-- `struct MD5Context`. -/
structure Md5Context where
  buf : Md5Buf
  bits0 : UInt32
  bits1 : UInt32
  inb : List UInt8
  /-- the block buffer has 64 bytes -/
  inb_len : inb.length = 64
  deriving DecidableEq

/-- `(ctx->bits[0] >> 3) & 0x3f`: the bytes waiting in the block buffer. -/
def waiting (bits0 : UInt32) : Nat := ((bits0 >>> 3) &&& 0x3f).toNat

/-- The bit count after `len` more bytes: the low word, with its carry into the high word. -/
def addBits (bits0 bits1 len : UInt32) : UInt32 × UInt32 :=
  let low := bits0 + (len <<< 3)
  let high := if low < bits0 then bits1 + 1 else bits1
  (low, high + (len >>> 29))

/-- `MD5Init` -/
def md5Init (ctx : Md5Context) : Md5Context :=
  { ctx with
    buf := ⟨0x67452301, 0xefcdab89, 0x98badcfe, 0x10325476⟩
    bits0 := 0
    bits1 := 0 }

/-- The `while (len >= 64)` loop of `MD5Update`, `n` blocks. -/
def md5Blocks : Nat → Md5Buf × List UInt8 → List UInt8 → Md5Buf × List UInt8
  | 0, p, _ => p
  | n + 1, p, data =>
    let block := copyAt p.2 0 (data.take 64)
    md5Blocks n (md5Transform p.1 block, block) (data.drop 64)

/-- `MD5Update` from the first whole block on: the blocks, then the rest of the data. -/
def md5Tail (p : Md5Buf × List UInt8) (data : List UInt8) : Md5Buf × List UInt8 :=
  let n := data.length / 64
  let q := md5Blocks n p data
  (q.1, copyAt q.2 0 (data.drop (64 * n)))

/-- `MD5Update` on the digest words and the block buffer, `t` bytes waiting. -/
def md5Absorb (t : Nat) (p : Md5Buf × List UInt8) (data : List UInt8) : Md5Buf × List UInt8 :=
  if t = 0 then md5Tail p data
  else if data.length < 64 - t then (p.1, copyAt p.2 t data)
  else
    let block := copyAt p.2 t (data.take (64 - t))
    md5Tail (md5Transform p.1 block, block) (data.drop (64 - t))

/-- One byte: the block buffer gets it, and is compressed when it is full. -/
def absorbByte (t : Nat) (p : Md5Buf × List UInt8) (x : UInt8) : Md5Buf × List UInt8 :=
  let inb := p.2.set t x
  (if t = 63 then md5Transform p.1 inb else p.1, inb)

/-- Bytes one after the other, `t` of them waiting at the start. -/
def absorbBytes : Nat → Md5Buf × List UInt8 → List UInt8 → Md5Buf × List UInt8
  | _, p, [] => p
  | t, p, x :: xs => absorbBytes ((t + 1) % 64) (absorbByte t p x) xs

variable {xs : List UInt8} {t : Nat} {p : Md5Buf × List UInt8}

theorem copyAt_cons {mem : List UInt8} (x : UInt8) (h : t < mem.length) :
    copyAt mem t (x :: xs) = copyAt (mem.set t x) (t + 1) xs := by
  unfold copyAt
  rw [take_set, drop_set_of_lt (by omega)]
  have ht : (mem.take (t + 1)).set t x = mem.take t ++ [x] := by
    rw [take_succ_eq_append_getElem h, set_append_right _ _ (by rw [length_take]; omega)]
    simp [Nat.le_of_lt h]
  rw [ht, length_cons]
  simp [Nat.add_comm, Nat.add_left_comm]

theorem absorbBytes_fill (hp : p.2.length = 64) (ht : t < 64) (h : t + xs.length ≤ 64) :
    absorbBytes t p xs =
      (if t + xs.length = 64 then md5Transform p.1 (copyAt p.2 t xs) else p.1,
        copyAt p.2 t xs) := by
  induction xs generalizing t p with
  | nil =>
    have hne : ¬ t + ([] : List UInt8).length = 64 := by simp; omega
    rw [if_neg hne]
    simp [absorbBytes, copyAt]
  | cons x xs ih =>
    rw [length_cons] at h
    rw [absorbBytes, copyAt_cons x (by omega)]
    by_cases hlast : t = 63
    · subst hlast
      have hx : xs = [] := length_eq_zero_iff.mp (by omega)
      subst hx
      simp [absorbBytes, absorbByte, copyAt]
    · have hmod : (t + 1) % 64 = t + 1 := by omega
      rw [hmod, ih (by simp [absorbByte, hp]) (by omega) (by omega)]
      simp only [absorbByte, if_neg hlast, length_cons]
      have he : t + 1 + xs.length = 64 ↔ t + (xs.length + 1) = 64 := by omega
      simp only [he]

theorem absorbBytes_append (ht : t < 64) (p : Md5Buf × List UInt8) (xs ys : List UInt8) :
    absorbBytes t p (xs ++ ys) = absorbBytes ((t + xs.length) % 64) (absorbBytes t p xs) ys := by
  induction xs generalizing t p with
  | nil => rw [nil_append, length_nil, Nat.add_zero, Nat.mod_eq_of_lt ht, absorbBytes]
  | cons x xs ih =>
    have he : ((t + 1) % 64 + xs.length) % 64 = (t + (x :: xs).length) % 64 := by
      rw [length_cons]
      omega
    rw [cons_append, absorbBytes, ih (Nat.mod_lt _ (by decide)), he, absorbBytes]

theorem absorbBytes_length : (absorbBytes t p xs).2.length = p.2.length := by
  induction xs generalizing t p with
  | nil => rfl
  | cons x xs ih => rw [absorbBytes, ih, absorbByte, length_set]

theorem absorbBytes_block (hp : p.2.length = 64) (h : xs.length = 64) :
    absorbBytes 0 p xs = (md5Transform p.1 (copyAt p.2 0 xs), copyAt p.2 0 xs) := by
  rw [absorbBytes_fill hp (by decide) (by omega), if_pos (by omega)]

theorem md5Blocks_eq {n : Nat} {data : List UInt8} (hp : p.2.length = 64)
    (h : 64 * n ≤ data.length) :
    md5Blocks n p data = absorbBytes 0 p (data.take (64 * n)) := by
  induction n generalizing p data with
  | zero => simp [md5Blocks, absorbBytes]
  | succ n ih =>
    have h64 : (data.take 64).length = 64 := by simp; omega
    have hsplit : data.take (64 * (n + 1)) = data.take 64 ++ (data.drop 64).take (64 * n) := by
      rw [Nat.mul_succ, Nat.add_comm, take_add]
    have hblock := absorbBytes_block hp h64
    have hlen : (copyAt p.2 0 (data.take 64)).length = 64 := by
      rw [copyAt_length_eq (by omega), hp]
    rw [md5Blocks, ih hlen (by simp; omega), hsplit, absorbBytes_append (by decide), hblock, h64]

theorem md5Tail_eq (data : List UInt8) (hp : p.2.length = 64) :
    md5Tail p data = absorbBytes 0 p data := by
  have hn : 64 * (data.length / 64) ≤ data.length := Nat.mul_div_le _ _
  have hmod : (0 + (data.take (64 * (data.length / 64))).length) % 64 = 0 := by
    rw [length_take]
    omega
  have hcat : absorbBytes 0 p data =
      absorbBytes 0 (absorbBytes 0 p (data.take (64 * (data.length / 64))))
        (data.drop (64 * (data.length / 64))) := by
    conv => lhs; rw [← take_append_drop (64 * (data.length / 64)) data]
    rw [absorbBytes_append (by decide), hmod]
  rw [hcat, absorbBytes_fill (by rw [absorbBytes_length, hp]) (by decide)
    (by rw [length_drop]; omega), if_neg (by rw [length_drop]; omega)]
  simp only [md5Tail, md5Blocks_eq hp hn]

/-- **`MD5Update` absorbs the bytes one after the other**: digest words and block buffer. -/
theorem md5Absorb_eq (data : List UInt8) (hp : p.2.length = 64)
    (ht : t < 64) : md5Absorb t p data = absorbBytes t p data := by
  unfold md5Absorb
  by_cases h0 : t = 0
  · subst h0
    rw [if_pos rfl, md5Tail_eq data hp]
  rw [if_neg h0]
  by_cases hs : data.length < 64 - t
  · rw [if_pos hs, absorbBytes_fill hp ht (by omega), if_neg (by omega)]
  -- the bytes that fill the block buffer, then the tail with none waiting
  rw [if_neg hs]
  have hr : (data.take (64 - t)).length = 64 - t := by simp; omega
  have hfill := absorbBytes_fill hp ht (Nat.le_of_eq (show t + _ = 64 by rw [hr]; omega))
  rw [if_pos (by omega)] at hfill
  have hmod : (t + (data.take (64 - t)).length) % 64 = 0 := by omega
  have hcat : absorbBytes t p data =
      absorbBytes 0 (absorbBytes t p (data.take (64 - t))) (data.drop (64 - t)) := by
    conv => lhs; rw [← take_append_drop (64 - t) data]
    rw [absorbBytes_append ht, hmod]
  rw [hcat, hfill]
  exact md5Tail_eq _ (by rw [copyAt_length_eq (by omega), hp])

/-! ## 3. The bit count -/

theorem waiting_eq (bits0 : UInt32) : waiting bits0 = bits0.toNat / 8 % 64 := by
  have h : (0x3f : UInt32).toNat = 2 ^ 6 - 1 := by decide
  unfold waiting
  rw [UInt32.toNat_and, UInt32.toNat_shiftRight, h, Nat.and_two_pow_sub_one_eq_mod]
  simp [Nat.shiftRight_eq_div_pow]

/-- The two words as one 64-bit number. -/
def bitCount (b : UInt32 × UInt32) : Nat := b.1.toNat + 2 ^ 32 * b.2.toNat

theorem bitCount_inj {b b' : UInt32 × UInt32} (h : bitCount b = bitCount b') : b = b' := by
  unfold bitCount at h
  have h1 := b.1.toNat_lt
  have h2 := b'.1.toNat_lt
  exact Prod.ext (UInt32.toNat_inj.mp (by omega)) (UInt32.toNat_inj.mp (by omega))

/-- The carry test and the shifts add `8 * len` to the 64-bit count. -/
theorem bitCount_addBits (b0 b1 len : UInt32) :
    bitCount (addBits b0 b1 len) = (bitCount (b0, b1) + 8 * len.toNat) % 2 ^ 64 := by
  have hl : (len <<< 3).toNat = len.toNat * 8 % 2 ^ 32 := by
    rw [UInt32.toNat_shiftLeft]
    simp [Nat.shiftLeft_eq]
  have hr : (len >>> 29).toNat = len.toNat / 2 ^ 29 := by
    rw [UInt32.toNat_shiftRight]
    simp [Nat.shiftRight_eq_div_pow]
  have h0 := b0.toNat_lt
  have h1 := b1.toNat_lt
  have h2 := len.toNat_lt
  unfold bitCount addBits
  simp only [UInt32.toNat_add, hl, hr, UInt32.lt_iff_toNat_lt]
  split
  · simp only [UInt32.toNat_add, UInt32.toNat_one]
    omega
  · omega

theorem addBits_add (b0 b1 : UInt32) {m n : Nat} (h : m + n < 2 ^ 32) :
    addBits (addBits b0 b1 (UInt32.ofNat m)).1 (addBits b0 b1 (UInt32.ofNat m)).2 (UInt32.ofNat n) =
      addBits b0 b1 (UInt32.ofNat (m + n)) := by
  apply bitCount_inj
  have hs : UInt32.size = 2 ^ 32 := rfl
  have hm : (UInt32.ofNat m).toNat = m := UInt32.toNat_ofNat_of_lt' (by omega)
  have hn : (UInt32.ofNat n).toNat = n := UInt32.toNat_ofNat_of_lt' (by omega)
  have hmn : (UInt32.ofNat (m + n)).toNat = m + n := UInt32.toNat_ofNat_of_lt' h
  have hpair (q : UInt32 × UInt32) : bitCount (q.1, q.2) = bitCount q := rfl
  rw [bitCount_addBits, hpair, bitCount_addBits, bitCount_addBits, hm, hn, hmn]
  omega

theorem addBits_zero (b0 b1 : UInt32) : addBits b0 b1 0 = (b0, b1) := by
  apply bitCount_inj
  have h0 := b0.toNat_lt
  have h1 := b1.toNat_lt
  rw [bitCount_addBits, UInt32.toNat_zero]
  unfold bitCount
  simp only
  omega

theorem waiting_addBits (b0 b1 : UInt32) : waiting (addBits b0 b1 1).1 = (waiting b0 + 1) % 64 := by
  have h0 := b0.toNat_lt
  have hl : ((1 : UInt32) <<< 3).toNat = 8 := by decide
  rw [waiting_eq, waiting_eq]
  simp only [addBits, UInt32.toNat_add, hl]
  omega

/-! ## 4. Contexts -/

theorem md5Absorb_length (ctx : Md5Context) (data : List UInt8) :
    (md5Absorb (waiting ctx.bits0) (ctx.buf, ctx.inb) data).2.length = 64 := by
  rw [md5Absorb_eq data ctx.inb_len (by rw [waiting_eq]; omega), absorbBytes_length, ctx.inb_len]

/-- `MD5Update` -/
def md5Update (ctx : Md5Context) (data : List UInt8) : Md5Context :=
  let bits := addBits ctx.bits0 ctx.bits1 (UInt32.ofNat data.length)
  { buf := (md5Absorb (waiting ctx.bits0) (ctx.buf, ctx.inb) data).1
    bits0 := bits.1
    bits1 := bits.2
    inb := (md5Absorb (waiting ctx.bits0) (ctx.buf, ctx.inb) data).2
    inb_len := md5Absorb_length ctx data }

def leBytes (w : UInt32) : List UInt8 :=
  [w.toUInt8, (w >>> 8).toUInt8, (w >>> 16).toUInt8, (w >>> 24).toUInt8]

/-- The last block of `MD5Final`: padding to 56 bytes, with one more compression when fewer than
    8 bytes are free, and the bit count. -/
def md5LastBlock (ctx : Md5Context) : Md5Buf × List UInt8 :=
  let count := waiting ctx.bits0
  let p := copyAt ctx.inb count [0x80]
  let free := 64 - 1 - count
  let q :=
    if free < 8 then
      let block := copyAt p (count + 1) (List.replicate free 0)
      (md5Transform ctx.buf block, copyAt block 0 (List.replicate 56 0))
    else (ctx.buf, copyAt p (count + 1) (List.replicate (free - 8) 0))
  (q.1, copyAt q.2 56 (leBytes ctx.bits0 ++ leBytes ctx.bits1))

theorem md5LastBlock_length (ctx : Md5Context) : (md5LastBlock ctx).2.length = 64 := by
  have hc : waiting ctx.bits0 < 64 := by rw [waiting_eq]; omega
  have hl : (leBytes ctx.bits0 ++ leBytes ctx.bits1).length = 8 := rfl
  have hp : (copyAt ctx.inb (waiting ctx.bits0) [0x80]).length = 64 := by
    rw [copyAt_length_eq (by rw [ctx.inb_len]; exact hc), ctx.inb_len]
  have hz (k : Nat) (hk : waiting ctx.bits0 + 1 + k ≤ 64) :
      (copyAt (copyAt ctx.inb (waiting ctx.bits0) [0x80]) (waiting ctx.bits0 + 1)
        (List.replicate k 0)).length = 64 := by
    rw [copyAt_length_eq (by rw [hp, length_replicate]; exact hk), hp]
  unfold md5LastBlock
  simp only
  split
  · have hb := hz (64 - 1 - waiting ctx.bits0) (by omega)
    have hb56 : (copyAt (copyAt (copyAt ctx.inb (waiting ctx.bits0) [0x80]) (waiting ctx.bits0 + 1)
        (List.replicate (64 - 1 - waiting ctx.bits0) 0)) 0 (List.replicate 56 0)).length = 64 := by
      rw [copyAt_length_eq (by rw [hb, length_replicate]; decide), hb]
    rw [copyAt_length_eq (Nat.le_of_eq (by rw [hb56, hl])), hb56]
  · have hb := hz (64 - 1 - waiting ctx.bits0 - 8) (by omega)
    rw [copyAt_length_eq (Nat.le_of_eq (by rw [hb, hl])), hb]

/-- `MD5Final`: the digest, and the context it leaves behind. `memset(ctx, 0, sizeof(ctx))` clears
    the size of a pointer: the first two digest words. -/
def md5Final (ctx : Md5Context) : List UInt8 × Md5Context :=
  let p := md5LastBlock ctx
  let buf := md5Transform p.1 p.2
  (leBytes buf.a ++ leBytes buf.b ++ leBytes buf.c ++ leBytes buf.d,
    { ctx with
      buf := ⟨0, 0, buf.c, buf.d⟩
      inb := (md5LastBlock ctx).2
      inb_len := md5LastBlock_length ctx })

def md5Byte (ctx : Md5Context) (x : UInt8) : Md5Context :=
  let bits := addBits ctx.bits0 ctx.bits1 1
  { buf := (absorbByte (waiting ctx.bits0) (ctx.buf, ctx.inb) x).1
    bits0 := bits.1
    bits1 := bits.2
    inb := (absorbByte (waiting ctx.bits0) (ctx.buf, ctx.inb) x).2
    inb_len := by rw [absorbByte, length_set]; exact ctx.inb_len }

theorem Md5Context.ext_pair {c c' : Md5Context} (hp : (c.buf, c.inb) = (c'.buf, c'.inb))
    (hb : (c.bits0, c.bits1) = (c'.bits0, c'.bits1)) : c = c' := by
  cases c
  cases c'
  cases hp
  cases hb
  rfl

theorem foldl_md5Byte (ctx : Md5Context) (data : List UInt8) (h : data.length < 2 ^ 32) :
    ((data.foldl md5Byte ctx).buf, (data.foldl md5Byte ctx).inb) =
        absorbBytes (waiting ctx.bits0) (ctx.buf, ctx.inb) data ∧
      ((data.foldl md5Byte ctx).bits0, (data.foldl md5Byte ctx).bits1) =
        addBits ctx.bits0 ctx.bits1 (UInt32.ofNat data.length) := by
  induction data generalizing ctx with
  | nil => exact ⟨rfl, (addBits_zero _ _).symm⟩
  | cons x xs ih =>
    rw [length_cons] at h
    obtain ⟨hp, hb⟩ := ih (md5Byte ctx x) (by omega)
    rw [foldl_cons, hp, hb, absorbBytes]
    refine ⟨?_, ?_⟩
    · rw [show waiting (md5Byte ctx x).bits0 = (waiting ctx.bits0 + 1) % 64 from
        waiting_addBits ctx.bits0 ctx.bits1]
      rfl
    · have hadd := addBits_add ctx.bits0 ctx.bits1 (m := 1) (n := xs.length) (by omega)
      rw [length_cons, Nat.add_comm xs.length 1]
      exact hadd

theorem md5Update_eq_foldl (ctx : Md5Context) (data : List UInt8) (h : data.length < 2 ^ 32) :
    md5Update ctx data = data.foldl md5Byte ctx := by
  obtain ⟨hp, hb⟩ := foldl_md5Byte ctx data h
  refine Md5Context.ext_pair ?_ ?_
  · rw [hp]
    exact md5Absorb_eq data ctx.inb_len (by rw [waiting_eq]; omega)
  · rw [hb]
    rfl

/-- The context of a connection or of a digest computation before `MD5Init`. -/
def md5Zero : Md5Context := ⟨⟨0, 0, 0, 0⟩, 0, 0, List.replicate 64 0, by decide⟩

def md5 : Lib.IncDigest Md5Context where
  init := md5Init md5Zero
  absorb := md5Byte
  update := md5Update
  final := md5Final
  update_eq := md5Update_eq_foldl

-- the digest of "abc"
example : md5.digest [0x61, 0x62, 0x63] =
    [0x90, 0x01, 0x50, 0x98, 0x3c, 0xd2, 0x4f, 0xb0, 0xd6, 0x96, 0x3f, 0x7d, 0x28, 0xe1, 0x7f,
      0x72] := by
  decide +kernel

end Pfs
