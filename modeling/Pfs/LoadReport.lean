/-
  The load of a storage as its nameserver records it: `report_local_diskerr`
  (network/S/pfs_sig_sub.c) against LOADINFO_REQ of `do_req` (network/N/pfs_sig_sub.c).

  The storage writes the load, the number of waiting tasks and the free disk space, in this order;
  the nameserver reads the number of tasks first and the load second.

  Main results: `info_of_stream`, `report_survives_iff`.
-/
import Pfs.Nameserver

namespace Pfs

open Lib List

/-! ## 1. The report -/

def HB_C_2_C : UInt8 := 0x04

/-- What `report_local_diskerr` sends to a nameserver. -/
def loadReport (load taskcount diskfree : UInt32) : SigMsg where
  cmdid := LOADINFO_REQ
  status := HB_C_2_C
  body := intField 4 load.toNat ++ intField 4 taskcount.toNat ++ intField 4 diskfree.toNat
  body_le := by simp [intField]

structure LoadInfo where
  load : UInt32
  taskcount : UInt32
  diskfree : UInt32
  deriving DecidableEq, Repr

def NsPeer.info (p : NsPeer) : LoadInfo := ⟨p.load, p.taskcount, p.diskfree⟩

/-- A message that the nameserver takes for a load report. -/
def IsReport (m : SigHead × List UInt8) : Prop := m.1.cmdid = LOADINFO_REQ ∧ m.1.bodylen = 12

/-! ## 2. Numbers in memory -/

@[simp] theorem intField_length (n : Nat) (x : Int) : (intField n x).length = n := by
  simp [intField]

theorem intField_succ (n x : Nat) :
    intField (n + 1) x = UInt8.ofNat (x % 256) :: intField n ((x / 256 : Nat) : Int) := by
  have hdiv (k : Nat) : (x : Int) / 256 ^ (k + 1) = ((x / 256 : Nat) : Int) / 256 ^ k := by
    rw [Int.pow_succ', ← Int.ediv_ediv_of_nonneg (by decide)]
    rfl
  unfold intField
  rw [range_succ_eq_map, map_cons, map_map]
  congr 1
  · rw [Int.pow_zero, Int.ediv_one]
    rfl
  · refine map_congr_left fun k _ => ?_
    rw [Function.comp_apply, Nat.succ_eq_add_one, hdiv]

theorem foldr_intField (n x : Nat) :
    (intField n x).foldr (fun c y => c.toNat + 256 * y) 0 = x % 256 ^ n := by
  induction n generalizing x with
  | zero => rw [Nat.pow_zero, Nat.mod_one]; rfl
  | succ n ih =>
    rw [intField_succ, foldr_cons, ih, Nat.pow_succ', Nat.mod_mul, UInt8.toNat_ofNat', Nat.mod_mod]

theorem readU32_intField (x : UInt32) (rest : List UInt8) :
    readU32 (intField 4 x.toNat ++ rest) = x := by
  have htake : (intField 4 x.toNat ++ rest).take 4 = intField 4 x.toNat :=
    take_left' (intField_length 4 _)
  have hlt : x.toNat < 256 ^ 4 := x.toNat_lt
  unfold readU32
  rw [htake, foldr_intField, Nat.mod_eq_of_lt hlt, UInt32.ofNat_toNat]

/-! ## 3. One message -/

section Message

variable {ns : NsConfig} {ip : UInt32}

theorem nsDoReq_ne_close (s : Linked NsPeer) (h : SigHead) (b : List UInt8) :
    (nsDoReq ns ip s h b).2 ≠ RECV_CLOSE := by
  have hsend : RECV_SEND ≠ RECV_CLOSE := by decide
  have hin : RECV_ADD_EPOLLIN ≠ RECV_CLOSE := by decide
  unfold nsDoReq
  simp only
  split
  · exact hsend
  split
  · exact hsend
  split
  · exact hsend
  · split <;> exact hin

/-- **One call of `do_req`**: a load report is recorded, with the first two numbers exchanged; no
    other message changes the record. -/
theorem info_nsDoReq (hp : checkProxyIp ns ip = none) (s : Linked NsPeer) (h : SigHead)
    (b : List UInt8) :
    (IsReport (h, b) → (nsDoReq ns ip s h b).1.peer.info =
      ⟨readU32 (b.drop 4), readU32 b, readU32 (b.drop 8)⟩) ∧
    (¬ IsReport (h, b) → (nsDoReq ns ip s h b).1.peer.info = s.peer.info) := by
  unfold nsDoReq IsReport
  simp only [hp]
  by_cases hhb : h.cmdid = HEARTBEAT_REQ
  · rw [if_pos hhb]
    exact ⟨fun hr => absurd (hhb.symm.trans hr.1) (by decide), fun _ => rfl⟩
  rw [if_neg hhb]
  by_cases hq : h.cmdid = UPLOAD_REQ ∨ h.cmdid = MODI_DEL_REQ
  · rw [if_pos hq]
    refine ⟨fun hr => ?_, fun _ => rfl⟩
    rw [hr.1] at hq
    exact absurd hq (by decide)
  · rw [if_neg hq]
    by_cases hl : h.cmdid = LOADINFO_REQ ∧ h.bodylen = 12
    · rw [if_pos hl]
      exact ⟨fun _ => rfl, fun hn => absurd hl hn⟩
    · rw [if_neg hl]
      exact ⟨fun hr => absurd hr hl, fun _ => rfl⟩

theorem info_loadReport (hp : checkProxyIp ns ip = none) (s : Linked NsPeer)
    (load taskcount diskfree : UInt32) :
    (nsDoReq ns ip s (loadReport load taskcount diskfree).received.1
        (loadReport load taskcount diskfree).received.2).1.peer.info =
      ⟨taskcount, load, diskfree⟩ := by
  have hrep : IsReport (loadReport load taskcount diskfree).received :=
    ⟨rfl, by simp [SigMsg.received, loadReport]⟩
  have hinfo := (info_nsDoReq hp s (loadReport load taskcount diskfree).received.1
    (loadReport load taskcount diskfree).received.2).1 hrep
  have hbody : (loadReport load taskcount diskfree).received.2 =
      intField 4 load.toNat ++ (intField 4 taskcount.toNat ++ (intField 4 diskfree.toNat ++
        List.replicate (MAX_SIG_BODY - 12) 0)) := by
    simp [SigMsg.received, paddedBody_eq, loadReport]
  have hdrop4 : ∀ (x : Int) (y : List UInt8), (intField 4 x ++ y).drop 4 = y := fun x y =>
    drop_left' (intField_length 4 x)
  rw [hinfo, hbody, hdrop4, show (8 : Nat) = 4 + 4 from rfl, ← drop_drop, hdrop4, hdrop4,
    readU32_intField, readU32_intField, readU32_intField]

end Message

/-! ## 4. A stream of messages -/

section Stream

variable {ns : NsConfig} {ip : UInt32}

theorem handle_go (s : Linked NsPeer) (m : SigHead × List UInt8) :
    (handle (nsDoReq ns ip) s m).2 = false := by
  simpa [handle] using nsDoReq_ne_close s m.1 m.2

theorem info_serve (hp : checkProxyIp ns ip = none) {ms : List (SigHead × List UInt8)}
    (hms : ∀ m ∈ ms, ¬ IsReport m) (s : Linked NsPeer) :
    (serve (handle (nsDoReq ns ip)) s ms).1.peer.info = s.peer.info := by
  induction ms generalizing s with
  | nil => rfl
  | cons m ms ih =>
    rw [serve_cons_of_go (handle_go s m)]
    simp only
    rw [ih fun x hx => hms x (mem_cons_of_mem m hx)]
    exact (info_nsDoReq hp s m.1 m.2).2 (hms m mem_cons_self)

theorem info_of_stream (hp : checkProxyIp ns ip = none) (s : Linked NsPeer)
    (load taskcount diskfree : UInt32) {before after : List SigMsg} {tail : List UInt8}
    (hafter : ∀ m ∈ after, ¬ IsReport m.received) (htail : sigNext tail = none)
    {chunks : List (List UInt8)} (hfit : Fits [] chunks)
    (hbytes : chunks.flatten =
      ((before ++ loadReport load taskcount diskfree :: after).map SigMsg.encode).flatten ++ tail) :
    (deliverAll (nsDoReq ns ip) ns.initBuffSize s chunks).st.peer.info =
      ⟨taskcount, load, diskfree⟩ := by
  have htracks := deliverAll_tracks (nsDoReq ns ip) ns.initBuffSize s hfit
  obtain ⟨hframes, hrest⟩ := frames_encode (before ++ loadReport load taskcount diskfree :: after)
  have hall : sigFramer.frames chunks.flatten =
      before.map SigMsg.received ++
        (loadReport load taskcount diskfree).received :: after.map SigMsg.received := by
    rw [hbytes, sigFramer.frames_append, hframes, hrest, nil_append,
      sigFramer.frames_of_none htail, append_nil, map_append, map_cons]
  have hafter' : ∀ m ∈ after.map SigMsg.received, ¬ IsReport m := by
    intro m hm
    obtain ⟨x, hx, rfl⟩ := mem_map.mp hm
    exact hafter x hx
  rw [htracks.state, hall, serve_append_of_go _ (serve_go handle_go _ _)]
  simp only
  rw [serve_cons_of_go (handle_go _ _)]
  simp only
  rw [info_serve hp hafter']
  exact info_loadReport hp _ load taskcount diskfree

/-- **A report in a stream of other messages is recorded as it was sent exactly when its load and
    its number of tasks agree**, and no other message changes the record. -/
theorem report_survives_iff (hp : checkProxyIp ns ip = none) (s : Linked NsPeer)
    (load taskcount diskfree : UInt32) (before after : List SigMsg) (tail : List UInt8)
    (hafter : ∀ m ∈ after, ¬ IsReport m.received) (htail : sigNext tail = none)
    (chunks : List (List UInt8)) (hfit : Fits [] chunks)
    (hbytes : chunks.flatten =
      ((before ++ loadReport load taskcount diskfree :: after).map SigMsg.encode).flatten ++ tail) :
    ((deliverAll (nsDoReq ns ip) ns.initBuffSize s chunks).st.peer.info =
        ⟨load, taskcount, diskfree⟩ ↔ load = taskcount) ∧
      ∀ s h b, ¬ IsReport (h, b) → (nsDoReq ns ip s h b).1.peer.info = s.peer.info := by
  refine ⟨?_, fun s h b hr => (info_nsDoReq hp s h b).2 hr⟩
  rw [info_of_stream hp s load taskcount diskfree hafter htail hfit hbytes, LoadInfo.mk.injEq]
  constructor
  · intro h
    exact h.2.1
  · intro h
    exact ⟨h.symm, h, rfl⟩

end Stream

def storageBeat : SigMsg := ⟨HEARTBEAT_REQ, HB_C_2_C, [3], by decide⟩

/-- A report of load 7 with 7 waiting tasks, between two heartbeats. -/
theorem report_survives_equal :
    checkProxyIp emptyNs 1 = none ∧
      (deliverAll (nsDoReq emptyNs 1) 16 emptyLinked
        [storageBeat.encode, (loadReport 7 7 100).encode ++ storageBeat.encode]).st.peer.info =
        ⟨7, 7, 100⟩ := by
  refine ⟨rfl, ((report_survives_iff rfl emptyLinked 7 7 100 [storageBeat] [storageBeat] [] ?_ rfl
    [storageBeat.encode, (loadReport 7 7 100).encode ++ storageBeat.encode]
    ⟨by decide, by decide, trivial⟩ ?_).1).mpr rfl⟩
  · intro m hm
    rw [mem_singleton.mp hm]
    exact fun h => absurd h.1 (by decide)
  · simp

/-- A report of load 1 with 2 waiting tasks is recorded as load 2 with one task. -/
theorem report_swapped :
    (deliverAll (nsDoReq emptyNs 1) 16 emptyLinked [(loadReport 1 2 100).encode]).st.peer.info =
      ⟨2, 1, 100⟩ := by
  have hbytes : [(loadReport 1 2 100).encode].flatten =
      (([] ++ loadReport 1 2 100 :: []).map SigMsg.encode).flatten ++ [] := by simp
  exact info_of_stream rfl emptyLinked 1 2 100 (fun m hm => by cases hm) rfl
    ⟨by decide, trivial⟩ hbytes

end Pfs
