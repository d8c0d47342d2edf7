/-
  Are queued replies sent? The two signalling services (network/N, network/S) on the
  event loop.

  Main results: `replies_armed`, `replies_unarmed`.
-/
import Pfs.Machine
import Pfs.Nameserver

namespace Pfs

open Lib

/-! ## 1. `do_req` of the storage's signalling service -/

def SYNC_DIR_REQ : UInt8 := 0x0F
def SYNC_DEL_REQ : UInt8 := 0x13
def SYNC_DEL_RSP : UInt8 := 0x14
def DISKINFO_RSP : UInt8 := 0x0C

def OFF_LINE : UInt8 := 4

/-- `sock_stat`, as far as it is set. -/
inductive SigSockStat where
  | connected
  | idle
  | sendLast
  deriving DecidableEq, Repr

/-- `pfs_cs_peer` of the signalling service; `syncList` says whether `pfs_sync_list` is set, and
    `served` counts the messages. -/
structure SigLinkPeer where
  sockStat : SigSockStat
  serverStat : UInt8
  syncList : Bool
  served : Nat

/-- What `do_req` finds for one message: `self_stat`, the clock, whether `pfs_get_task` has a task,
    and the deletions that `find_last_index` and `get_from_del_file` give. -/
structure SigOutcome where
  selfStat : UInt8
  now : Int
  getTask : Bool
  deletions : List TaskBase

variable (cfg : Cfg)

/-- `base->starttime = time(NULL); base->dstip = self_ip` in the received record. -/
def stampRecord (now : Int) (b : List UInt8) : List UInt8 :=
  copyAt (copyAt b 788 (intField 4 cfg.selfIp.toNat)) 792 (intField 8 now)

/-- `do_newtask` fails: there is no task. -/
def SigOutcome.newtaskFails (o : SigOutcome) : Bool := o.selfStat != OFF_LINE && !o.getTask

/-- The messages of `do_sync_del_req`. -/
def syncDelReply (o : SigOutcome) (b : List UInt8) : List UInt8 :=
  o.deletions.flatMap (fun base => createSigMsg NEWTASK_REQ TASK_SYNC_DIR base.bytes BASE_SIZE) ++
    createSigMsg SYNC_DEL_RSP TASK_SYNC_DIR b SYNC_SIZE

/-- `do_req`; `v` are the outcomes, message by message. -/
def sigDoReq (v : Nat → SigOutcome) : DoReq (Linked SigLinkPeer) := fun s h b =>
  let o := v s.peer.served
  let p := { s.peer with served := s.peer.served + 1 }
  let stat := if h.bodylen ≠ 1 then p.serverStat else b.headD 0
  let say (msg : List UInt8) : Wire := s.wire.say cfg.initBuffSize msg
  if h.cmdid = HEARTBEAT_REQ then
    (⟨{ p with sockStat := .sendLast, serverStat := stat },
      say (createSigMsg HEARTBEAT_RSP h.status [o.selfStat] 1)⟩, RECV_ADD_EPOLLOUT)
  else if h.cmdid = HEARTBEAT_RSP then
    (⟨{ p with sockStat := .idle, serverStat := stat }, s.wire⟩, RECV_ADD_EPOLLIN)
  else if h.cmdid = NEWTASK_REQ then
    if h.bodylen ≠ BASE_SIZE then (⟨p, s.wire⟩, RECV_CLOSE)
    else if o.newtaskFails then
      (⟨{ p with sockStat := .sendLast },
        say (createSigMsg NEWTASK_RSP TASK_FAILED (stampRecord cfg o.now b) BASE_SIZE)⟩,
        RECV_ADD_EPOLLOUT)
    else (⟨p, s.wire⟩, RECV_ADD_EPOLLIN)
  else if h.cmdid = NEWTASK_RSP then (⟨p, s.wire⟩, RECV_ADD_EPOLLIN)
  else if h.cmdid = SYNC_DIR_REQ then
    if h.bodylen ≠ SYNC_SIZE then (⟨p, s.wire⟩, RECV_ADD_EPOLLIN)
    else if o.getTask then (⟨p, s.wire⟩, RECV_ADD_EPOLLOUT)
    else
      (⟨p, (say (createSigMsg SYNC_DIR_RSP TASK_SYNC_DIR b SYNC_SIZE)).modifyFdEvent true⟩,
        RECV_ADD_EPOLLOUT)
  else if h.cmdid = SYNC_DIR_RSP ∨ h.cmdid = SYNC_DEL_RSP then
    (⟨{ p with syncList := false }, s.wire⟩, RECV_ADD_EPOLLIN)
  else if h.cmdid = SYNC_DEL_REQ then
    if h.bodylen ≠ SYNC_SIZE then (⟨p, s.wire⟩, RECV_ADD_EPOLLIN)
    else (⟨p, (say (syncDelReply o b)).modifyFdEvent true⟩, RECV_ADD_EPOLLOUT)
  else if h.cmdid = DISKINFO_RSP then (⟨p, s.wire⟩, RECV_ADD_EPOLLIN)
  else (⟨p, s.wire⟩, RECV_CLOSE)

/-- The storage's plug-in; `svc_send` never asks to close. -/
def sigPlugin (v : Nat → SigOutcome) : Plugin SigLinkPeer := ⟨sigDoReq cfg v, fun _ => false⟩

/-! ## 2. Which messages are answered -/

/-- Messages after which the nameserver has registered its reply: requests, and everything a
    client behind a proxy sends. -/
def NsArms (ns : NsConfig) (ip : UInt32) (m : SigHead × List UInt8) : Prop :=
  checkProxyIp ns ip ≠ none ∨ m.1.cmdid = UPLOAD_REQ ∨ m.1.cmdid = MODI_DEL_REQ

/-- Messages whose reply the nameserver queues without registering. -/
def NsBare (ns : NsConfig) (ip : UInt32) (m : SigHead × List UInt8) : Prop :=
  checkProxyIp ns ip = none ∧ m.1.cmdid = HEARTBEAT_REQ

/-- Messages for which the storage always asks for EPOLLOUT. -/
def SigArms (m : SigHead × List UInt8) : Prop :=
  m.1.cmdid = HEARTBEAT_REQ ∨
    (m.1.cmdid = SYNC_DIR_REQ ∨ m.1.cmdid = SYNC_DEL_REQ) ∧ m.1.bodylen = SYNC_SIZE

/-- No reply of the storage is bare: RECV_ADD_EPOLLOUT registers it. -/
def SigBare (_ : SigHead × List UInt8) : Prop := False

theorem nsReplies (ns : NsConfig) (ip : UInt32) :
    Replies RECV_SEND (nsDoReq ns ip) (NsArms ns ip) (NsBare ns ip) where
  code := Or.inr rfl
  step := by
    intro s m
    unfold nsDoReq NsArms NsBare
    cases hp : checkProxyIp ns ip with
    | some sip => exact .said _ _
    | none =>
      simp only
      split
      · rename_i hh
        exact .queued _ _ fun hb => absurd ⟨trivial, hh⟩ hb
      split
      · exact .said _ _
      · rename_i hq
        split <;> exact .quiet (by simpa using hq)
  arms_not_bare := by
    rintro m (hp | hu | hm) ⟨hnone, hh⟩
    · exact hp hnone
    · rw [hu] at hh
      exact absurd hh (by decide)
    · rw [hm] at hh
      exact absurd hh (by decide)

theorem sigReplies (v : Nat → SigOutcome) :
    Replies RECV_ADD_EPOLLOUT (sigDoReq cfg v) SigArms SigBare where
  code := Or.inl rfl
  step := by
    intro s m
    unfold sigDoReq
    refine .test (fun _ => .queued _ _ fun _ => rfl) fun hhb => ?_
    -- what is left asks for EPOLLOUT only as a directory request of the right length
    have hna : ∀ c, m.1.cmdid = c → c ≠ SYNC_DIR_REQ → c ≠ SYNC_DEL_REQ → ¬ SigArms m := by
      rintro c rfl h1 h2 (h | ⟨h | h, -⟩)
      · exact hhb h
      · exact h1 h
      · exact h2 h
    have hlen : m.1.bodylen ≠ SYNC_SIZE → ¬ SigArms m := by
      rintro hne (h | ⟨-, h⟩)
      · exact hhb h
      · exact hne h
    -- HEARTBEAT_RSP, NEWTASK_REQ, NEWTASK_RSP
    refine .test (fun hc => .quiet (hna _ hc (by decide) (by decide))) fun _ => ?_
    refine .test (fun hc => .test (fun _ => .close _) fun _ => ?_) fun _ => ?_
    · exact .test (fun _ => .queued _ _ fun _ => rfl)
        fun _ => .quiet (hna _ hc (by decide) (by decide))
    refine .test (fun hc => .quiet (hna _ hc (by decide) (by decide))) fun _ => ?_
    -- SYNC_DIR_REQ, SYNC_DIR_RSP and SYNC_DEL_RSP, SYNC_DEL_REQ, DISKINFO_RSP
    refine .test (fun _ => .test (fun hne => .quiet (hlen hne)) fun _ => ?_) fun _ => ?_
    · exact .test (fun _ => .asked) fun _ => .said _ _
    refine .test (fun hc => .quiet ?_) fun _ => ?_
    · obtain hc | hc := hc
      · exact hna _ hc (by decide) (by decide)
      · exact hna _ hc (by decide) (by decide)
    refine .test (fun _ => .test (fun hne => .quiet (hlen hne)) fun _ => .said _ _) fun _ => ?_
    exact .test (fun hc => .quiet (hna _ hc (by decide) (by decide))) fun _ => .close _
  arms_not_bare := fun _ _ h => h

/-! ## 3. Replies are armed -/

/-- What is asked of a connection: the bytes that wait are registered for EPOLLOUT, and after a
    timely batch that queues something and does not close, the connection is. -/
def Registers {σ : Type} (P : Plugin σ) (initBuffSize : Nat)
    (arms bare : SigHead × List UInt8 → Prop) (c : Link σ) : Prop :=
  Armed c ∧ ∀ rs r, Timely initBuffSize arms bare c (.readable rs r) →
    (doRecv P initBuffSize rs r c).closed = false →
    (doRecv P initBuffSize rs r c).pending ≠ c.pending →
    (doRecv P initBuffSize rs r c).st.wire.out = true

theorem registers_of_run {σ : Type} {P : Plugin σ} {q initBuffSize : Nat}
    {arms bare : SigHead × List UInt8 → Prop} (R : Replies q P.doReq arms bare) {peer : σ}
    {c : Link σ}
    (h : Run (linkNext P initBuffSize) (Timely initBuffSize arms bare) (Link.fresh peer) c) :
    Registers P initBuffSize arms bare c :=
  ⟨armed_of_run R h, fun _ _ ht ho hsaid => doRecv_registered R ht ho hsaid⟩

/-- A run of the nameserver's connection to `ip` whose batches are timely. -/
abbrev NsTimelyRun (ns : NsConfig) (ip : UInt32) (peer : NsPeer) (c : Link NsPeer) : Prop :=
  Run (linkNext (nsPlugin ns ip) ns.initBuffSize)
    (Timely ns.initBuffSize (NsArms ns ip) (NsBare ns ip)) (Link.fresh peer) c

/-- A run of a connection of the storage's signalling service whose batches are timely. -/
abbrev SigTimelyRun (v : Nat → SigOutcome) (peer : SigLinkPeer) (c : Link SigLinkPeer) : Prop :=
  Run (linkNext (sigPlugin cfg v) cfg.initBuffSize)
    (Timely cfg.initBuffSize SigArms SigBare) (Link.fresh peer) c

/-- **A queued reply is armed**, in both services, in every state that timely batches reach. -/
theorem replies_armed (ns : NsConfig) (ip : UInt32) (client : NsPeer) (c : Link NsPeer)
    (cfg : Cfg) (v : Nat → SigOutcome) (peer : SigLinkPeer) (c' : Link SigLinkPeer) :
    (NsTimelyRun ns ip client c →
      Registers (nsPlugin ns ip) ns.initBuffSize (NsArms ns ip) (NsBare ns ip) c) ∧
    (SigTimelyRun cfg v peer c' →
      Registers (sigPlugin cfg v) cfg.initBuffSize SigArms SigBare c') :=
  ⟨registers_of_run (nsReplies ns ip), registers_of_run (sigReplies cfg v)⟩

def idleOutcome : SigOutcome := ⟨3, 0, true, []⟩

/-- A new connection of its signalling service. -/
def idlePeer : SigLinkPeer := ⟨.connected, 0, false, 0⟩

/-- A request for the storages of a group, as it arrives. -/
def uploadMsg : SigMsg := ⟨UPLOAD_REQ, ADD_SET_GROUP, ascii "abc", by decide⟩

/-- The nameserver's connection after it. -/
def afterUpload : Link NsPeer :=
  doRecv (nsPlugin emptyNs 1) 16 [.data uploadMsg.encode] .again (Link.fresh emptyLinked.peer)

theorem replies_armed_upload : NsTimelyRun emptyNs 1 emptyLinked.peer afterUpload ∧
    afterUpload.closed = false ∧ afterUpload.pending ≠ [] ∧ afterUpload.st.wire.out = true := by
  have hread : Timely 16 (NsArms emptyNs 1) (NsBare emptyNs 1) (Link.fresh emptyLinked.peer)
      (.readable [.data uploadMsg.encode] .again) := by
    intro again b hb
    cases hb
    have hf := (frames_encode [uploadMsg]).1
    refine .inr ⟨by decide, uploadMsg.received, ?_, Or.inr (.inl rfl)⟩
    rw [Mybuff.contents_setdata]
    exact hf ▸ List.mem_singleton_self _
  have hrun : NsTimelyRun emptyNs 1 emptyLinked.peer afterUpload := .next .start hread rfl
  have hopen : afterUpload.closed = false := by decide +kernel
  have hsaid : afterUpload.pending ≠ [] := by decide +kernel
  have harmed := (replies_armed emptyNs 1 _ _ smallCfg (fun _ => idleOutcome) idlePeer
    (Link.fresh idlePeer)).1 hrun
  exact ⟨hrun, hopen, hsaid, harmed.1 hopen hsaid⟩

/-! ## 4. Replies that are not -/

/-- The nameserver's connection after a heartbeat. -/
def afterHeartbeat : Link NsPeer :=
  doRecv (nsPlugin emptyNs 1) 16 [.data (createSigMsg HEARTBEAT_REQ 0 [3] 1)] .again
    (Link.fresh emptyLinked.peer)

/-- The storage has queued a message on a connection and registered it; before it is sent, the
    answer to an earlier heartbeat arrives. -/
def afterCrossing : Link SigLinkPeer :=
  doRecv (sigPlugin smallCfg fun _ => idleOutcome) 16
    [.data (createSigMsg HEARTBEAT_RSP 0 [3] 1)] .again
    ((Link.fresh idlePeer).onWire fun w =>
      (w.say 16 (createSigMsg HEARTBEAT_REQ 4 [3] 1)).modifyFdEvent true)

/-- **Replies that stay unsent**: the nameserver's own batch queues the heartbeat's answer and waits
    for input only; the storage takes the registration away from a message that was queued before
    the batch. -/
theorem replies_unarmed :
    (Reach (linkNext (nsPlugin emptyNs 1) 16) (Link.fresh emptyLinked.peer) afterHeartbeat ∧
      afterHeartbeat.closed = false ∧ afterHeartbeat.pending = [0, 1, 2, 0, 3] ∧
      afterHeartbeat.st.wire.out = false) ∧
    (Reach (linkNext (sigPlugin smallCfg fun _ => idleOutcome) 16) (Link.fresh idlePeer)
        afterCrossing ∧
      afterCrossing.closed = false ∧ afterCrossing.pending ≠ [] ∧
      afterCrossing.st.wire.out = false) := by
  refine ⟨⟨?_, by decide +kernel, by decide +kernel, by decide +kernel⟩,
    ?_, by decide +kernel, by decide +kernel, by decide +kernel⟩
  · exact reach_of_exec
      [.readable [.data (createSigMsg HEARTBEAT_REQ 0 [3] 1)] .again] .start rfl
  · exact reach_of_exec
      [.say (createSigMsg HEARTBEAT_REQ 4 [3] 1),
        .readable [.data (createSigMsg HEARTBEAT_RSP 0 [3] 1)] .again] .start rfl

end Pfs
