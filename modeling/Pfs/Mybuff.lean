/-
  The connection buffer (lib/mybuff.c): bytes and a pending file range.

  `mem` is the part of the allocated block that has been written so far, `len` the bytes that
  count. `mybuffSkipdata` moves the remaining bytes to the front with `memmove` and leaves what is
  behind them in place, as the source does: a reader that still holds the old `data` pointer sees
  the moved bytes (`view`).

  Main results: `contents_setdata`, `contents_skipdata`, `getdata_eq`, `view_skipdata_all`.
-/
import Mathlib.Algebra.Ring.Int.Defs
import Mathlib.Algebra.Ring.Nat
import Mathlib.Data.List.Basic

namespace Pfs

open List

/-- `struct mybuff`. The block behind `data` is its written part `mem`; `alloc` is `data !=
    NULL`. -/
structure Mybuff where
  alloc : Bool
  mem : List UInt8
  size : Nat
  len : Nat
  fd : Int
  foffset : Int
  flen : Nat
  /-- the bytes that count have been written -/
  len_le : len ≤ mem.length
  /-- nothing counts before the first allocation -/
  len_zero : alloc = false → len = 0
  deriving DecidableEq

namespace Mybuff

/-- `data[0..len)`. -/
def contents (b : Mybuff) : List UInt8 := b.mem.take b.len

/-- What a pointer to the start of the block reads: the first `n` bytes of the written part. -/
def view (b : Mybuff) (n : Nat) : List UInt8 := b.mem.take n

theorem contents_length (b : Mybuff) : b.contents.length = b.len := by
  simp [contents, b.len_le]

end Mybuff

/-- `memcpy` of `d` to offset `off` of a block. -/
def copyAt (mem : List UInt8) (off : Nat) (d : List UInt8) : List UInt8 :=
  mem.take off ++ d ++ mem.drop (off + d.length)

theorem copyAt_length {mem : List UInt8} {off : Nat} (d : List UInt8) (h : off ≤ mem.length) :
    off + d.length ≤ (copyAt mem off d).length := by
  simp only [copyAt, length_append, length_take, length_drop]
  omega

theorem copyAt_length_eq {mem d : List UInt8} {off : Nat} (h : off + d.length ≤ mem.length) :
    (copyAt mem off d).length = mem.length := by
  simp only [copyAt, length_append, length_take, length_drop]
  omega

/-- `mybuff_init` -/
def mybuffInit : Mybuff := ⟨false, [], 0, 0, -1, 0, 0, by simp, fun _ => rfl⟩

variable (initBuffSize : Nat)

/-- `mybuff_setdata`: append `d`, growing the block when the free room is not larger than `d`. -/
def mybuffSetdata (b : Mybuff) (d : List UInt8) : Mybuff :=
  let size := if b.alloc then b.size else initBuffSize
  { b with
    alloc := true
    size := if size - b.len > d.length then size else b.len + d.length + 1
    mem := copyAt b.mem b.len d
    len := b.len + d.length
    len_le := copyAt_length d b.len_le
    len_zero := fun h => by cases h }

/-- `mybuff_getdata`: the bytes that count, `none` when there are none. -/
def mybuffGetdata (b : Mybuff) : Option (List UInt8) :=
  if b.alloc && decide (0 < b.len) then some b.contents else none

/-- `memmove(data, data + n, len - n)`: the bytes behind the moved ones stay where they were. -/
def moveFront (mem : List UInt8) (len n : Nat) : List UInt8 :=
  (mem.take len).drop n ++ mem.drop (len - n)

/-- `mybuff_skipdata` -/
def mybuffSkipdata (b : Mybuff) (n : Nat) : Mybuff :=
  if b.alloc then
    if b.len ≤ n then { b with len := 0, len_le := Nat.zero_le _, len_zero := fun _ => rfl }
    else
      { b with
        mem := moveFront b.mem b.len n
        len := b.len - n
        len_le := by
          have := b.len_le
          simp only [moveFront, length_append, length_drop, length_take]
          omega
        len_zero := fun h => by rw [b.len_zero h, Nat.zero_sub] }
  else b

/-- `mybuff_setfile` -/
def mybuffSetfile (b : Mybuff) (fd : Int) (offset : Int) (len : Nat) : Mybuff :=
  { b with fd := fd, foffset := offset, flen := len }

/-- `mybuff_getfile` -/
def mybuffGetfile (b : Mybuff) : Option (Int × Int × Nat) :=
  if 0 ≤ b.fd ∧ 0 < b.flen then some (b.fd, b.foffset, b.flen) else none

/-- `mybuff_skipfile` -/
def mybuffSkipfile (b : Mybuff) (n : Nat) : Mybuff :=
  if 0 ≤ b.fd then
    if b.flen ≤ n then { b with fd := -1, foffset := 0, flen := 0 }
    else { b with foffset := b.foffset + n, flen := b.flen - n }
  else b

/-- `mybuff_reinit`: drop the file range and the bytes; a block that has grown beyond twice the
    initial size is replaced. -/
def mybuffReinit (b : Mybuff) : Mybuff :=
  let c : Mybuff := if 0 ≤ b.fd then { b with fd := -1, foffset := 0, flen := 0 } else b
  if initBuffSize * 2 < c.size then
    { c with alloc := true, mem := [], size := initBuffSize, len := 0, len_le := Nat.zero_le _,
             len_zero := fun _ => rfl }
  else { c with len := 0, len_le := Nat.zero_le _, len_zero := fun _ => rfl }

namespace Mybuff

variable {initBuffSize}

@[simp] theorem contents_setdata (b : Mybuff) (d : List UInt8) :
    (mybuffSetdata initBuffSize b d).contents = b.contents ++ d := by
  have h : (b.mem.take b.len).length = b.len := by simp [b.len_le]
  have hl : b.len + d.length = (b.mem.take b.len ++ d).length := by simp [b.len_le]
  simp only [contents, mybuffSetdata, copyAt]
  rw [hl, take_left]

@[simp] theorem contents_skipdata (b : Mybuff) (n : Nat) :
    (mybuffSkipdata b n).contents = b.contents.drop n := by
  unfold mybuffSkipdata
  by_cases ha : b.alloc = true
  · by_cases hn : b.len ≤ n
    · have hd : b.contents.drop n = [] :=
        drop_eq_nil_of_le (by rw [b.contents_length]; exact hn)
      rw [hd, if_pos ha, if_pos hn]
      simp [contents]
    · have hl : b.len - n = ((b.mem.take b.len).drop n).length := by simp [b.len_le]
      simp only [ha, hn, if_true, if_false, contents, moveFront]
      rw [hl, take_left]
  · have h0 := b.len_zero (by simpa using ha)
    simp [ha, contents, h0]

theorem getdata_eq (b : Mybuff) :
    mybuffGetdata b = if b.contents = [] then none else some b.contents := by
  unfold mybuffGetdata
  have hl := b.contents_length
  cases ha : b.alloc with
  | false =>
    have h0 := b.len_zero ha
    simp [contents, h0]
  | true =>
    by_cases h0 : 0 < b.len
    · have hne : b.contents ≠ [] := by
        intro e
        rw [e] at hl
        simp at hl
        omega
      simp [h0, hne]
    · have he : b.contents = [] := length_eq_zero_iff.mp (by omega)
      simp [h0, he]

variable {b : Mybuff} {fd off : Int} {n : Nat}

theorem contents_of_getdata_none (h : mybuffGetdata b = none) : b.contents = [] := by
  rw [getdata_eq] at h
  split at h
  · assumption
  · cases h

theorem contents_of_getdata {data : List UInt8} (h : mybuffGetdata b = some data) :
    b.contents = data ∧ data ≠ [] := by
  rw [getdata_eq] at h
  split at h
  · cases h
  rename_i hne
  cases h
  exact ⟨rfl, hne⟩

@[simp] theorem contents_skipfile (b : Mybuff) (n : Nat) :
    (mybuffSkipfile b n).contents = b.contents := by
  unfold mybuffSkipfile
  split
  · split <;> rfl
  · rfl

@[simp] theorem getfile_skipdata (b : Mybuff) (n : Nat) :
    mybuffGetfile (mybuffSkipdata b n) = mybuffGetfile b := by
  unfold mybuffSkipdata
  split
  · split <;> rfl
  · rfl

theorem getfile_pos {r : Int × Int × Nat} (h : mybuffGetfile b = some r) : 0 < r.2.2 := by
  unfold mybuffGetfile at h
  split at h
  · rename_i hpos
    cases h
    exact hpos.2
  · cases h

@[simp] theorem getfile_setdata (b : Mybuff) (d : List UInt8) :
    mybuffGetfile (mybuffSetdata initBuffSize b d) = mybuffGetfile b := rfl

@[simp] theorem contents_setfile (b : Mybuff) (fd off : Int) (n : Nat) :
    (mybuffSetfile b fd off n).contents = b.contents := rfl

theorem getfile_setfile {r : Int × Int × Nat}
    (h : mybuffGetfile (mybuffSetfile b fd off n) = some r) : r = (fd, off, n) := by
  unfold mybuffGetfile at h
  split at h
  · exact (Option.some.inj h).symm
  · cases h

@[simp] theorem contents_reinit (b : Mybuff) : (mybuffReinit initBuffSize b).contents = [] := by
  have hlen : (mybuffReinit initBuffSize b).len = 0 := by
    unfold mybuffReinit
    simp only
    split <;> split <;> rfl
  rw [contents, hlen, take_zero]

@[simp] theorem getfile_reinit (b : Mybuff) :
    mybuffGetfile (mybuffReinit initBuffSize b) = none := by
  by_cases hfd : 0 ≤ b.fd
  · unfold mybuffReinit
    simp only [if_pos hfd]
    split <;> simp [mybuffGetfile]
  · unfold mybuffReinit
    simp only [if_neg hfd]
    split <;> simp [mybuffGetfile, hfd]

theorem getfile_skipfile_lt {len : Nat} (h : mybuffGetfile b = some (fd, off, len)) (hn : n < len) :
    mybuffGetfile (mybuffSkipfile b n) = some (fd, off + n, len - n) := by
  unfold mybuffGetfile at h
  split at h
  · rename_i hpos
    cases h
    unfold mybuffSkipfile mybuffGetfile
    rw [if_pos hpos.1, if_neg (Nat.not_le.mpr hn), if_pos ⟨hpos.1, Nat.sub_pos_of_lt hn⟩]
  · cases h

theorem getfile_skipfile_le {len : Nat} (h : mybuffGetfile b = some (fd, off, len)) (hn : len ≤ n) :
    mybuffGetfile (mybuffSkipfile b n) = none := by
  unfold mybuffGetfile at h
  split at h
  · rename_i hpos
    cases h
    unfold mybuffSkipfile mybuffGetfile
    rw [if_pos hpos.1, if_pos hn]
    simp
  · cases h

theorem view_of_le (b : Mybuff) (h : n ≤ b.len) : b.view n = b.contents.take n := by
  unfold view contents
  rw [take_take, Nat.min_eq_left h]

/-- Skipping everything moves nothing: the old pointer still reads the bytes that were there. -/
theorem view_skipdata_all (b : Mybuff) (n m : Nat) (h : b.len ≤ n) :
    (mybuffSkipdata b n).view m = b.view m := by
  unfold mybuffSkipdata view
  by_cases ha : b.alloc = true
  · rw [if_pos ha, if_pos h]
  · rw [if_neg ha]

end Mybuff

end Pfs
