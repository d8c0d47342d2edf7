/-
  The connection buffer on the block it allocates (lib/mybuff.c), as a queue of bytes.

  `Mybuff` keeps the bytes that were written. Here `data` is the block that `malloc` or `realloc`
  gave, with whatever it held, the sizes are `size_t`, `init_buff_size << 1` is an `int`, and a
  copy that leaves the block stops the machine.

  Main results: `mybuff_refines_queue`, `holds_mybuff`.
-/
import Pfs.Lib.CInt
import Pfs.Lib.Run
import Pfs.Mybuff

namespace Pfs

open Lib List

/-- `struct mybuff` with the block itself: `data` is `none` for `NULL`. -/
structure RawBuff where
  data : Option (List UInt8)
  size : Nat
  len : Nat
  fd : Int
  foffset : Int
  flen : Nat
  deriving DecidableEq

/-- `malloc(n)`: `n` bytes that hold anything. -/
def malloc (fresh : Nat → UInt8) (n : Nat) : List UInt8 := (List.range n).map fresh

/-- `realloc(block, n)`: what fits is kept, what is new holds anything. -/
def realloc (fresh : Nat → UInt8) (block : List UInt8) (n : Nat) : List UInt8 :=
  block.take n ++ (malloc fresh n).drop block.length

namespace RawBuff

/-- `mybuff_init` -/
def mybuffInit : RawBuff := ⟨none, 0, 0, -1, 0, 0⟩

variable (initBuffSize : Nat)

def allocated (fresh : Nat → UInt8) (b : RawBuff) : RawBuff :=
  match b.data with
  | none => { b with data := some (malloc fresh initBuffSize), size := initBuffSize }
  | some _ => b

/-- `size = n; data = realloc(data, size)`. -/
def grown (fresh : Nat → UInt8) (b : RawBuff) (n : Nat) : RawBuff :=
  { b with data := b.data.map fun block => realloc fresh block n, size := n }

/-- `memcpy(data + len, d, n); len += n`; a copy past the end of the block is a fault. -/
def append (b : RawBuff) (d : List UInt8) : Option RawBuff :=
  b.data.bind fun block =>
    if b.len + d.length ≤ block.length then
      some { b with data := some (copyAt block b.len d), len := toSize (b.len + d.length) }
    else none

/-- `mybuff_setdata` -/
def mybuffSetdata (fresh : Nat → UInt8) (b : RawBuff) (d : List UInt8) : Option RawBuff :=
  let b := b.allocated initBuffSize fresh
  if toSize (b.size - b.len) > d.length then b.append d
  else (b.grown fresh (toSize (b.len + d.length + 1))).append d

/-- `mybuff_getdata`: the return value, and `*data`, `*len` where they are set. -/
def mybuffGetdata (b : RawBuff) : Int × Option (List UInt8 × Nat) :=
  match b.data with
  | none => (-1, none)
  | some block => (if b.len > 0 then 0 else -1, some (block, b.len))

/-- `mybuff_skipdata`; a move that reads past the end of the block is a fault. -/
def mybuffSkipdata (b : RawBuff) (n : Nat) : Option RawBuff :=
  match b.data with
  | none => some b
  | some block =>
    if n ≥ b.len then some { b with len := 0 }
    else if b.len ≤ block.length then
      some { b with data := some (moveFront block b.len n), len := b.len - n }
    else none

/-- `close(fd)` and the file range with it. -/
def closed (b : RawBuff) : RawBuff :=
  if b.fd ≥ 0 then { b with fd := -1, foffset := 0, flen := 0 } else b

/-- `mybuff_reinit` -/
def mybuffReinit (fresh : Nat → UInt8) (b : RawBuff) : RawBuff :=
  let c := b.closed
  if c.size > toSize (toInt32 (initBuffSize * 2)) then
    { c with data := some (malloc fresh initBuffSize), size := initBuffSize, len := 0 }
  else { c with len := 0 }

end RawBuff

/-- A call on a buffer, with what the memory it may allocate holds. -/
inductive BuffAct where
  | setdata (fresh : Nat → UInt8) (d : List UInt8)
  | skipdata (n : Nat)
  | reinit (fresh : Nat → UInt8)

variable {initBuffSize : Nat}

def buffStep (initBuffSize : Nat) (b : RawBuff) : BuffAct → Option RawBuff
  | .setdata fresh d => b.mybuffSetdata initBuffSize fresh d
  | .skipdata n => b.mybuffSkipdata n
  | .reinit fresh => some (b.mybuffReinit initBuffSize fresh)

def queueStep (q : List UInt8) : BuffAct → List UInt8
  | .setdata _ d => q ++ d
  | .skipdata n => q.drop (min n q.length)
  | .reinit _ => []

/-- The sizes stay below `2^63`: the bytes with the new ones and the spare byte do. -/
def SizeOk (b : RawBuff) : BuffAct → Prop
  | .setdata _ d => b.len + d.length + 1 < 2 ^ 63
  | .skipdata _ => True
  | .reinit _ => True

instance decidableSizeOk (b : RawBuff) : ∀ a, Decidable (SizeOk b a)
  | .setdata _ d => inferInstanceAs (Decidable (b.len + d.length + 1 < 2 ^ 63))
  | .skipdata _ => isTrue trivial
  | .reinit _ => isTrue trivial

/-! ## The block -/

@[simp] theorem length_malloc (fresh : Nat → UInt8) (n : Nat) : (malloc fresh n).length = n := by
  simp [malloc]

theorem length_realloc (fresh : Nat → UInt8) (block : List UInt8) (n : Nat) :
    (realloc fresh block n).length = n := by
  simp only [realloc, length_append, length_take, length_drop, length_malloc]
  omega

variable {block q : List UInt8} {n : Nat} {b : RawBuff} {m : Mybuff}

theorem take_realloc (fresh : Nat → UInt8) {k : Nat} (hk : k ≤ block.length)
    (hn : k ≤ n) : (realloc fresh block n).take k = block.take k := by
  have hl : k ≤ (block.take n).length := by
    rw [length_take]
    omega
  rw [realloc, take_append_of_le_length hl, take_take, Nat.min_eq_left hn]

theorem take_copyAt {off : Nat} {d : List UInt8} (h : off ≤ block.length) :
    (copyAt block off d).take (off + d.length) = block.take off ++ d := by
  have hl : off + d.length = (block.take off ++ d).length := by
    rw [length_append, length_take, Nat.min_eq_left h]
  rw [copyAt, hl, take_left]

theorem length_moveFront {len : Nat} (hl : len ≤ block.length) (hn : n ≤ len) :
    (moveFront block len n).length = block.length := by
  simp only [moveFront, length_append, length_drop, length_take]
  omega

theorem take_moveFront {len : Nat} (hl : len ≤ block.length) :
    (moveFront block len n).take (len - n) = (block.take len).drop n := by
  have h : len - n = ((block.take len).drop n).length := by
    rw [length_drop, length_take, Nat.min_eq_left hl]
  rw [moveFront, h, take_left]

/-! ## The invariant -/

/-- An allocated block is as long as `size` says, `len` stays below that, and the bytes are `q`. -/
structure Fills (block : List UInt8) (size len : Nat) (q : List UInt8) : Prop where
  length : block.length = size
  spare : len < size
  small : size < 2 ^ 63
  bytes : block.take len = q

structure Holds (b : RawBuff) (q : List UInt8) : Prop where
  null : b.data = none → b.size = 0 ∧ b.len = 0 ∧ q = []
  block : ∀ block, b.data = some block → Fills block b.size b.len q

theorem Fills.length_queue {size len : Nat} (h : Fills block size len q) : q.length = len := by
  have hb := h.length
  have hs := h.spare
  rw [← h.bytes, length_take]
  omega

theorem Holds.of_block (hd : b.data = some block) (h : Fills block b.size b.len q) : Holds b q := by
  refine ⟨fun hn => ?_, fun block' hb => ?_⟩
  · cases hd.symm.trans hn
  · cases hd.symm.trans hb
    exact h

theorem Holds.length_queue (h : Holds b q) : q.length = b.len := by
  cases hd : b.data with
  | none =>
    obtain ⟨-, hl, hq⟩ := h.null hd
    rw [hl, hq, length_nil]
  | some block => exact (h.block block hd).length_queue

theorem holds_init : Holds RawBuff.mybuffInit [] := by
  refine ⟨fun _ => ⟨rfl, rfl, rfl⟩, fun block h => ?_⟩
  cases h

theorem fills_malloc (fresh : Nat → UInt8) (h0 : 0 < initBuffSize) (h1 : initBuffSize < 2 ^ 31) :
    Fills (malloc fresh initBuffSize) initBuffSize 0 [] := by
  refine ⟨length_malloc fresh initBuffSize, h0, ?_, take_zero⟩
  omega

theorem holds_allocated (fresh : Nat → UInt8) (h0 : 0 < initBuffSize)
    (h1 : initBuffSize < 2 ^ 31) (h : Holds b q) :
    ∃ block, (b.allocated initBuffSize fresh).data = some block ∧
      Fills block (b.allocated initBuffSize fresh).size b.len q := by
  cases hd : b.data with
  | none =>
    obtain ⟨-, hl, rfl⟩ := h.null hd
    simp only [RawBuff.allocated, hd, hl]
    exact ⟨_, rfl, fills_malloc fresh h0 h1⟩
  | some block =>
    simp only [RawBuff.allocated, hd]
    exact ⟨block, rfl, h.block block hd⟩

theorem allocated_len (initBuffSize : Nat) (fresh : Nat → UInt8) (b : RawBuff) :
    (b.allocated initBuffSize fresh).len = b.len := by
  unfold RawBuff.allocated
  split <;> rfl

/-- With room for the bytes and one more, the copy stays inside the block and appends. -/
theorem holds_append {d : List UInt8} (hd : b.data = some block)
    (h : Fills block b.size b.len q) (hroom : b.len + d.length < b.size) :
    ∃ b', b.append d = some b' ∧ Holds b' (q ++ d) := by
  have hlen := h.length
  have hsmall := h.small
  have hspare := h.spare
  have hin : b.len + d.length ≤ block.length := by omega
  have hsum : toSize (b.len + d.length) = b.len + d.length := by
    rw [toSize_of_nonneg (by omega) (by omega)]
    omega
  refine ⟨{ b with data := some (copyAt block b.len d), len := b.len + d.length }, ?_,
    Holds.of_block rfl ⟨?_, hroom, h.small, ?_⟩⟩
  · simp only [RawBuff.append, hd, Option.bind_some, if_pos hin, hsum]
  · rw [copyAt_length_eq hin, h.length]
  · rw [take_copyAt (by omega), h.bytes]

theorem holds_setdata (fresh : Nat → UInt8) (d : List UInt8)
    (h0 : 0 < initBuffSize) (h1 : initBuffSize < 2 ^ 31) (h : Holds b q)
    (hfit : b.len + d.length + 1 < 2 ^ 63) :
    ∃ b', b.mybuffSetdata initBuffSize fresh d = some b' ∧ Holds b' (q ++ d) := by
  obtain ⟨block, hd, hf⟩ := holds_allocated fresh h0 h1 h
  have hl := allocated_len initBuffSize fresh b
  unfold RawBuff.mybuffSetdata
  generalize b.allocated initBuffSize fresh = c at *
  have hspare := hf.spare
  have hsmall := hf.small
  have hfree : toSize (c.size - c.len) = c.size - c.len := by
    rw [toSize_of_nonneg (by omega) (by omega)]
    omega
  simp only [hfree]
  rw [← hl] at hf hspare hfit
  by_cases hroom : c.size - c.len > d.length
  · simp only [if_pos hroom]
    exact holds_append hd hf (by omega)
  have hsize : toSize (c.len + d.length + 1) = c.len + d.length + 1 := by
    rw [toSize_of_nonneg (by omega) (by omega)]
    omega
  simp only [if_neg hroom, hsize]
  -- the new block keeps the bytes and has one byte more than will count
  have hg : Fills (realloc fresh block (c.len + d.length + 1)) (c.len + d.length + 1) c.len q := by
    refine ⟨length_realloc _ _ _, by omega, hfit, ?_⟩
    rw [take_realloc fresh (by rw [hf.length]; omega) (by omega), hf.bytes]
  have hgd : (c.grown fresh (c.len + d.length + 1)).data =
      some (realloc fresh block (c.len + d.length + 1)) := by
    rw [RawBuff.grown, hd, Option.map_some]
  exact holds_append hgd hg (Nat.lt_succ_self _)

theorem holds_skipdata (n : Nat) (h : Holds b q) :
    ∃ b', b.mybuffSkipdata n = some b' ∧ Holds b' (q.drop (min n q.length)) := by
  unfold RawBuff.mybuffSkipdata
  cases hd : b.data with
  | none =>
    obtain ⟨-, -, rfl⟩ := h.null hd
    exact ⟨b, rfl, by simpa using h⟩
  | some block =>
    have hf := h.block block hd
    have hq := hf.length_queue
    have hs := hf.spare
    by_cases hn : n ≥ b.len
    · have hall : q.drop (min n q.length) = [] :=
        drop_eq_nil_of_le (by omega)
      refine ⟨{ b with data := some block, len := 0 }, if_pos hn, ?_⟩
      rw [hall]
      exact Holds.of_block rfl ⟨hf.length, Nat.zero_lt_of_lt hs, hf.small, take_zero⟩
    · have hin : b.len ≤ block.length := by
        rw [hf.length]
        omega
      have hmin : min n q.length = n := by omega
      refine ⟨_, (if_neg hn).trans (if_pos hin), ?_⟩
      rw [hmin]
      refine Holds.of_block rfl ⟨?_, ?_, hf.small, ?_⟩
      · rw [length_moveFront hin (by omega), hf.length]
      · show b.len - n < b.size
        omega
      · rw [take_moveFront hin, hf.bytes]

theorem closed_data (b : RawBuff) : b.closed.data = b.data := by
  unfold RawBuff.closed
  split <;> rfl

theorem closed_size (b : RawBuff) : b.closed.size = b.size := by
  unfold RawBuff.closed
  split <;> rfl

theorem holds_reinit (fresh : Nat → UInt8) (h0 : 0 < initBuffSize)
    (h1 : initBuffSize < 2 ^ 31) (h : Holds b q) :
    Holds (b.mybuffReinit initBuffSize fresh) [] := by
  unfold RawBuff.mybuffReinit
  simp only [closed_size]
  split
  · exact Holds.of_block rfl (fills_malloc fresh h0 h1)
  refine ⟨fun hn => ?_, fun block hb => ?_⟩
  · obtain ⟨hs, -, -⟩ := h.null ((closed_data b).symm.trans hn)
    exact ⟨hs, rfl, rfl⟩
  · have hf := h.block block ((closed_data b).symm.trans hb)
    exact ⟨hf.length, Nat.zero_lt_of_lt hf.spare, hf.small, take_zero⟩

theorem holds_step {a : BuffAct} (h0 : 0 < initBuffSize)
    (h1 : initBuffSize < 2 ^ 31) (h : Holds b q) (hok : SizeOk b a) :
    ∃ b', buffStep initBuffSize b a = some b' ∧ Holds b' (queueStep q a) := by
  cases a with
  | setdata fresh d => exact holds_setdata fresh d h0 h1 h hok
  | skipdata n => exact holds_skipdata n h
  | reinit fresh => exact ⟨_, rfl, holds_reinit fresh h0 h1 h⟩

theorem holds_exec {acts : List BuffAct} (h0 : 0 < initBuffSize)
    (h1 : initBuffSize < 2 ^ 31) (h : Holds b q)
    (hm : Meets (buffStep initBuffSize) SizeOk b acts) :
    ∃ b', exec (buffStep initBuffSize) b acts = some b' ∧ Holds b' (acts.foldl queueStep q) :=
  exec_simulates Holds queueStep (fun _ _ _ h hok => holds_step h0 h1 h hok) h hm

theorem Holds.getdata (h : Holds b q) :
    (q ≠ [] → ∃ block, b.mybuffGetdata = (0, some (block, q.length)) ∧ block.take q.length = q) ∧
      (q = [] → b.mybuffGetdata.1 = -1) := by
  have hq := h.length_queue
  unfold RawBuff.mybuffGetdata
  cases hd : b.data with
  | none =>
    obtain ⟨-, -, rfl⟩ := h.null hd
    exact ⟨fun hne => absurd rfl hne, fun _ => rfl⟩
  | some block =>
    have hf := h.block block hd
    refine ⟨fun hne => ⟨block, ?_, ?_⟩, fun he => ?_⟩
    · have hpos : b.len > 0 := hq ▸ length_pos_iff.mpr hne
      simp only [if_pos hpos, hq]
    · rw [hq]
      exact hf.bytes
    · have hz : ¬ b.len > 0 := by
        rw [← hq, he]
        exact Nat.lt_irrefl 0
      simp only [if_neg hz]

/-- **A buffer is a queue of bytes.** For every positive `init_buff_size` and every sequence of
    calls whose sizes stay below `2^63`, whatever the memory holds that is allocated on the way:
    no copy leaves the block, `data[0..len)` is the queue, `mybuff_getdata` gives it exactly when it
    is not empty, and an allocated block has `size` bytes of which fewer than all count. -/
theorem mybuff_refines_queue (initBuffSize : Nat) (h0 : 0 < initBuffSize)
    (h1 : initBuffSize < 2 ^ 31)
    (acts : List BuffAct) (hm : Meets (buffStep initBuffSize) SizeOk RawBuff.mybuffInit acts) :
    ∃ b, exec (buffStep initBuffSize) RawBuff.mybuffInit acts = some b ∧
      b.len = (acts.foldl queueStep []).length ∧
      (∀ block, b.data = some block → block.take b.len = acts.foldl queueStep [] ∧
        block.length = b.size ∧ b.len < b.size) ∧
      (acts.foldl queueStep [] ≠ [] → ∃ block,
        b.mybuffGetdata = (0, some (block, (acts.foldl queueStep []).length)) ∧
        block.take (acts.foldl queueStep []).length = acts.foldl queueStep []) ∧
      (acts.foldl queueStep [] = [] → b.mybuffGetdata.1 = -1) := by
  obtain ⟨b, he, hb⟩ := holds_exec h0 h1 holds_init hm
  refine ⟨b, he, hb.length_queue.symm, fun block hd => ?_, hb.getdata.1, hb.getdata.2⟩
  have hf := hb.block block hd
  exact ⟨hf.bytes, hf.length, hf.spare⟩

/-- Calls on a buffer of four bytes: appending within the block, past it, skipping a part,
    clearing, and skipping more than there is. -/
def someCalls : List BuffAct :=
  [.setdata (fun _ => 7) [1, 2], .setdata (fun _ => 8) [3, 4, 5, 6, 9, 10, 11, 12], .skipdata 3,
   .setdata (fun _ => 9) [13], .reinit (fun _ => 14), .setdata (fun _ => 15) [16, 17], .skipdata 1]

theorem mybuff_refines_someCalls :
    ∃ b, exec (buffStep 4) RawBuff.mybuffInit someCalls = some b ∧
      ∃ block, b.mybuffGetdata = (0, some (block, 1)) ∧ block.take 1 = [17] := by
  obtain ⟨b, he, -, -, hne, -⟩ :=
    mybuff_refines_queue 4 (by decide) (by decide) someCalls (by decide)
  exact ⟨b, he, hne (by decide)⟩

/-! ## The buffer of the other modules -/

/-- The call on a `Mybuff`. -/
def Mybuff.act (initBuffSize : Nat) (m : Mybuff) : BuffAct → Mybuff
  | .setdata _ d => mybuffSetdata initBuffSize m d
  | .skipdata n => mybuffSkipdata m n
  | .reinit _ => mybuffReinit initBuffSize m

theorem Mybuff.contents_act (m : Mybuff) (a : BuffAct) :
    (m.act initBuffSize a).contents = queueStep m.contents a := by
  cases a with
  | setdata fresh d => exact m.contents_setdata d
  | skipdata n =>
    show (mybuffSkipdata m n).contents = m.contents.drop (min n m.contents.length)
    rw [m.contents_skipdata n]
    rcases Nat.le_total n m.contents.length with h | h
    · rw [Nat.min_eq_left h]
    · rw [Nat.min_eq_right h, drop_length, drop_eq_nil_of_le h]
  | reinit fresh => exact m.contents_reinit

/-- **The bytes that count are those of the `Mybuff`** on which the same calls are made. -/
theorem holds_mybuff {acts : List BuffAct} (h0 : 0 < initBuffSize) (h1 : initBuffSize < 2 ^ 31)
    (h : Holds b m.contents) (hm : Meets (buffStep initBuffSize) SizeOk b acts) :
    ∃ b', exec (buffStep initBuffSize) b acts = some b' ∧
      Holds b' (acts.foldl (Mybuff.act initBuffSize) m).contents := by
  have hqueue : (acts.foldl (Mybuff.act initBuffSize) m).contents =
      acts.foldl queueStep m.contents :=
    (foldl_hom Mybuff.contents fun m a => (m.contents_act a).symm).symm
  rw [hqueue]
  exact holds_exec h0 h1 h hm

end Pfs
