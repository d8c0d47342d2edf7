/-
  The directory sync of a storage that comes up (network/S/pfs_sig.c, pfs_sig_base.c,
  pfs_sig_sub.c): `sync_list`, the outstanding requests of its peers, and `self_stat`.

  `sync_list` is the header `none` of a ring of link fields (`Lib.Links`), node `i` of
  `init_sync_list` is `some i`; the code's `list_add_tail` and `list_del_init` are computed on these
  fields. Connections have serial numbers, so that a descriptor that is used again is another
  connection. Marks: the log of the requests that were sent, with the connection they were sent on,
  and which of them were answered there or came back when the connection closed. A response says
  which request it answers; the code does not look at that.

  `total_sync_task` and `total_synced_task` stay 0, because no task has `need_sync`
  TASK_SYNC_ISDIR, and are left out.

  Main results: `syncPool_of_run`, `online_complete`, `sync_bookkeeping`.
-/
import Pfs.Lib.Jobs
import Pfs.Lib.Ring
import Pfs.Lib.Run
import Pfs.Storage

namespace Pfs

open Lib Function List

/-! ## 1. State -/

/-- `self_stat`; every value that is compared with none of these is as `offLine` here. -/
inductive SelfStat where
  | unknown
  | waitSync
  | syncing
  | onLine
  | offLine
  deriving DecidableEq, Repr

/-- `sync_para.flag`: 0, 1 and 2. -/
inductive SyncFlag where
  | idle
  | running
  | noMore
  deriving DecidableEq, Repr

/-- A `t_pfs_sync_list`, by the order in which `init_sync_list` allocates them. -/
abbrev SyncId := Nat

structure SyncCfg where
  selfIp : UInt32
  members : List Member
  syncDirSpan : Int
  syncDirCount : Nat

/-- A member that `do_active_sync` does not pass over: `self` is the member with our address. -/
def SyncCfg.eligible (cfg : SyncCfg) (m : Member) : Bool := m.ip != cfg.selfIp && !m.offline

/-- A live peer: `held` is `pfs_sync_list`, with the number of the request. -/
structure SyncPeer where
  conn : Nat
  ip : UInt32
  held : Option (SyncId × Nat)
  deriving DecidableEq, Repr

/-- The static variables of `do_active_sync` and `check_count_one_day`. -/
structure SyncGate where
  lastSync : Int
  dayLast : Int
  dayCount : Nat

structure SyncSt where
  selfStat : SelfStat
  flag : SyncFlag
  last : Int
  initSyncFlag : Bool
  gate : SyncGate
  links : Links (Option SyncId)
  /-- newest first, as `find_ip_stat` sees them -/
  peers : List SyncPeer
  allocated : Nat
  nextConn : Nat
  log : List (SyncId × Nat)
  status : Nat → JobStatus

/-- `svc_init`: `self_stat` comes from the configuration. -/
def SyncSt.init (stat : SelfStat) : SyncSt where
  selfStat := stat
  flag := .noMore
  last := 0
  initSyncFlag := false
  gate := ⟨0, 0, 0⟩
  links := ⟨id, id⟩
  peers := []
  allocated := 0
  nextConn := 0
  log := []
  status := fun _ => .pending

/-- What one `svc_timeout` finds: the clock of the one-hour test and of `do_active_sync`, the number
    of directory tasks, and whether the time of day is within the window. -/
structure SyncEnv where
  cur : Int
  now : Int
  running : Nat
  inWindow : Bool

namespace SyncSt

/-! ## 2. Functions -/

/-- `find_ip_stat` -/
def findIpStat (s : SyncSt) (ip : UInt32) : Option SyncPeer := s.peers.find? fun p => p.ip == ip

/-- `peer->pfs_sync_list = …`. -/
def setHeld (conn : Nat) (v : Option (SyncId × Nat)) (ps : List SyncPeer) : List SyncPeer :=
  ps.map fun p => if p.conn = conn then { p with held := v } else p

/-- A round of `init_sync_list`, which runs before `init_sync_flag` is set. -/
def genSync (s : SyncSt) : SyncSt :=
  if s.initSyncFlag then s
  else
    { s with
      links := (s.links.initHead (some s.allocated)).addTail (some s.allocated) none
      allocated := s.allocated + 1 }

/-- `svc_initconn`. -/
def connect (s : SyncSt) (ip : UInt32) : SyncSt :=
  { s with peers := ⟨s.nextConn, ip, none⟩ :: s.peers, nextConn := s.nextConn + 1 }

/-- `svc_finiconn`: an outstanding request goes back to the list. -/
def close (s : SyncSt) (conn : Nat) : SyncSt :=
  match s.peers.find? fun p => p.conn == conn with
  | none => s
  | some p =>
    let peers := s.peers.filter fun p => p.conn != conn
    match p.held with
    | none => { s with peers := peers }
    | some (i, k) =>
      { s with
        peers := peers
        links := s.links.addTail (some i) none
        flag := .idle
        status := update s.status k .returned }

/-- `do_req` for SYNC_DIR_RSP and SYNC_DEL_RSP: whatever request `k` the response answers. -/
def response (s : SyncSt) (conn k : Nat) : SyncSt :=
  match s.peers.find? fun p => p.conn == conn with
  | none => s
  | some _ =>
    { s with
      peers := setHeld conn none s.peers
      flag := .idle
      status :=
        if (s.log[k]?).map Prod.snd = some conn ∧ s.status k = .pending then
          update s.status k .answered
        else s.status }

/-- `check_count_one_day` -/
def checkCountOneDay (cfg : SyncCfg) (now : Int) (g : SyncGate) : Bool × SyncGate :=
  let g := if g.dayLast = 0 then { g with dayLast := now } else g
  if g.dayCount < cfg.syncDirCount then (true, { g with dayCount := g.dayCount + 1 })
  else if 86400 ≤ now - g.dayLast then (true, { g with dayLast := now, dayCount := 1 })
  else (false, g)

/-- `do_sub_sync` and the `list_del_init` after it. -/
def doSubSync (now : Int) (i : SyncId) (p : SyncPeer) (s : SyncSt) : SyncSt :=
  { s with
    peers := setHeld p.conn (some (i, s.log.length)) s.peers
    flag := .running
    last := now
    log := s.log ++ [(i, p.conn)]
    links := s.links.delInit (some i) }

/-- The loop of `do_active_sync` over the members. -/
def activeLoop (cfg : SyncCfg) (now : Int) (i : SyncId) : List Member → SyncSt → SyncSt
  | [], s => s
  | m :: ms, s =>
    if cfg.eligible m then
      match s.findIpStat m.ip with
      | none => activeLoop cfg now i ms s
      | some p => activeLoop cfg now i ms (doSubSync now i p s)
    else activeLoop cfg now i ms s

/-- `do_active_sync` once the gates are passed: the first node of the list. -/
def startSync (cfg : SyncCfg) (e : SyncEnv) (s : SyncSt) : SyncSt :=
  match s.links.next none with
  | none => { s with flag := .noMore }
  | some i => activeLoop cfg e.now i cfg.members s

/-- `do_active_sync` -/
def doActiveSync (cfg : SyncCfg) (e : SyncEnv) (s : SyncSt) : SyncSt :=
  if s.initSyncFlag then
    let r := checkCountOneDay cfg e.now s.gate
    let s := { s with gate := r.2 }
    if r.1 ∧ cfg.syncDirSpan ≤ e.now - s.gate.lastSync ∧ e.running < 1024 ∧ e.inWindow then
      startSync cfg e { s with gate := { s.gate with lastSync := e.now } }
    else s
  else s

/-- `svc_timeout` up to the sync: UNKOWN_STAT ends, and a request that takes too long. -/
def wake (e : SyncEnv) (s : SyncSt) : SyncSt :=
  let s := if s.selfStat = .unknown then { s with selfStat := .waitSync, flag := .idle } else s
  if s.selfStat = .waitSync ∧ s.flag = .running ∧ 3600 < e.cur - s.last then
    { s with flag := .idle }
  else s

/-- The last test of `svc_timeout` on the flag. -/
def goOnLine (s : SyncSt) : SyncSt :=
  if s.flag = .noMore then { s with selfStat := .onLine } else s

/-- `svc_timeout`, as far as the sync is concerned. -/
def svcTimeout (cfg : SyncCfg) (e : SyncEnv) (s : SyncSt) : SyncSt :=
  let s := wake e s
  if s.selfStat = .waitSync then
    goOnLine (if s.flag = .idle then doActiveSync cfg e s else s)
  else s

end SyncSt

/-- What the thread and the signalling service do with the requests. -/
inductive SyncAct where
  | gen
  /-- `init_sync_flag = 1` -/
  | initDone
  | connect (ip : UInt32)
  | close (conn : Nat)
  /-- a SYNC_DIR_RSP or SYNC_DEL_RSP on a connection, which answers request `k` -/
  | response (conn k : Nat)
  | timeout (e : SyncEnv)

def syncNext (cfg : SyncCfg) (s : SyncSt) : SyncAct → Option SyncSt
  | .gen => some s.genSync
  | .initDone => some { s with initSyncFlag := true }
  | .connect ip => some (s.connect ip)
  | .close conn => some (s.close conn)
  | .response conn k => some (s.response conn k)
  | .timeout e => some (s.svcTimeout cfg e)

/-! ## 3. The condition on steps -/

/-- `svc_timeout` comes to `do_active_sync`. -/
def SyncSt.CallsActiveSync (e : SyncEnv) (s : SyncSt) : Prop :=
  s.selfStat = .unknown ∨
    s.selfStat = .waitSync ∧ (s.flag = .idle ∨ s.flag = .running ∧ 3600 < e.cur - s.last)

/-- The connections that the loop of `do_active_sync` sends a request to. -/
def SyncSt.targets (cfg : SyncCfg) (s : SyncSt) (ms : List Member) : List SyncPeer :=
  ms.filterMap fun m => if cfg.eligible m then s.findIpStat m.ip else none

/-- While the list is not empty, `do_active_sync` finds at most one other member connected, and no
    request outstanding there; a response on a connection with an outstanding request answers that
    request. -/
def Orderly (cfg : SyncCfg) (s : SyncSt) : SyncAct → Prop
  | .timeout e => s.CallsActiveSync e → s.links.next none ≠ none →
      (s.targets cfg cfg.members).length ≤ 1 ∧ ∀ p ∈ s.targets cfg cfg.members, p.held = none
  | .response conn k => ∀ p ∈ s.peers, p.conn = conn → ∀ h ∈ p.held, h.2 = k
  | _ => True

instance (e : SyncEnv) (s : SyncSt) : Decidable (s.CallsActiveSync e) := by
  unfold SyncSt.CallsActiveSync
  infer_instance

instance decidableOrderly (cfg : SyncCfg) (s : SyncSt) (a : SyncAct) :
    Decidable (Orderly cfg s a) := by
  cases a <;> unfold Orderly <;> infer_instance

/-- Moreover, `do_active_sync` finds the list empty only while no request is outstanding. -/
def Patient (cfg : SyncCfg) (s : SyncSt) (a : SyncAct) : Prop :=
  Orderly cfg s a ∧
    match a with
    | .timeout e => s.CallsActiveSync e → s.links.next none = none → ∀ p ∈ s.peers, p.held = none
    | _ => True

instance decidablePatient (cfg : SyncCfg) (s : SyncSt) (a : SyncAct) :
    Decidable (Patient cfg s a) := by
  cases a <;> unfold Patient <;> infer_instance

/-! ## 4. What is held -/

def heldOf (ps : List SyncPeer) (conn : Nat) : Option (SyncId × Nat) :=
  (ps.find? fun p => p.conn == conn).bind SyncPeer.held

section Held

variable {ps : List SyncPeer} {conn : Nat}

theorem heldOf_of_mem (hnd : (ps.map SyncPeer.conn).Nodup) {p : SyncPeer} (hp : p ∈ ps) :
    heldOf ps p.conn = p.held := by
  induction ps with
  | nil => cases hp
  | cons q ps ih =>
    rw [map_cons, nodup_cons] at hnd
    unfold heldOf
    rw [find?_cons]
    by_cases hq : q.conn = p.conn
    · rcases mem_cons.mp hp with rfl | hp
      · simp
      · exact absurd (hq ▸ mem_map_of_mem hp) hnd.1
    have hb : (q.conn == p.conn) = false := by simpa using hq
    rw [hb]
    rcases mem_cons.mp hp with rfl | hp
    · exact absurd rfl hq
    · exact ih hnd.2 hp

theorem exists_of_heldOf {r : SyncId × Nat} (h : heldOf ps conn = some r) :
    ∃ p ∈ ps, p.conn = conn ∧ p.held = some r := by
  obtain ⟨p, hf, hh⟩ := Option.bind_eq_some_iff.mp h
  exact ⟨p, mem_of_find?_eq_some hf, by simpa using find?_some hf, hh⟩

theorem heldOf_none (h : ∀ p ∈ ps, p.held = none) (conn : Nat) : heldOf ps conn = none := by
  cases hh : heldOf ps conn with
  | none => rfl
  | some r =>
    obtain ⟨p, hp, -, hr⟩ := exists_of_heldOf hh
    rw [h p hp] at hr
    cases hr

theorem heldOf_connect (ip : UInt32) (hfresh : ∀ p ∈ ps, p.conn < conn) :
    heldOf (⟨conn, ip, none⟩ :: ps) = heldOf ps := by
  funext c
  unfold heldOf
  rw [find?_cons]
  by_cases hc : conn = c
  · subst hc
    have hnone : ps.find? (fun p => p.conn == conn) = none := by
      refine find?_eq_none.mpr fun p hp => ?_
      have := hfresh p hp
      simp only [beq_iff_eq]
      omega
    simp [hnone]
  · have hb : ((⟨conn, ip, none⟩ : SyncPeer).conn == c) = false := by simpa using hc
    rw [hb]

theorem heldOf_filter (ps : List SyncPeer) (conn : Nat) :
    heldOf (ps.filter fun p => p.conn != conn) = update (heldOf ps) conn none := by
  funext c
  by_cases hc : c = conn
  · subst hc
    rw [update_self]
    unfold heldOf
    have hnone : (ps.filter fun p => p.conn != c).find? (fun p => p.conn == c) = none := by
      refine find?_eq_none.mpr fun p hp => ?_
      simpa using (mem_filter.mp hp).2
    rw [hnone]
    rfl
  · rw [update_of_ne hc]
    unfold heldOf
    rw [find?_filter]
    congr 2
    funext p
    by_cases hp : p.conn = c
    · simp [hp, hc]
    · simp [hp]

theorem heldOf_setHeld (v : Option (SyncId × Nat)) (hlive : ∃ p ∈ ps, p.conn = conn) :
    heldOf (SyncSt.setHeld conn v ps) = update (heldOf ps) conn v := by
  funext c
  unfold heldOf SyncSt.setHeld
  rw [find?_map]
  have hconn : ((fun p : SyncPeer => p.conn == c) ∘
      fun p => if p.conn = conn then { p with held := v } else p) = fun p => p.conn == c := by
    funext p
    simp only [Function.comp]
    split <;> rfl
  rw [hconn]
  by_cases hc : c = conn
  · subst hc
    rw [update_self]
    obtain ⟨p, hp, hpc⟩ := hlive
    cases hf : ps.find? fun p => p.conn == c with
    | none => exact absurd (find?_eq_none.mp hf p hp) (by simp [hpc])
    | some q =>
      have hq : q.conn = c := by simpa using find?_some hf
      simp [hq]
  · rw [update_of_ne hc]
    cases hf : ps.find? fun p => p.conn == c with
    | none => rfl
    | some q =>
      have hq : q.conn = c := by simpa using find?_some hf
      simp [hq, hc]

theorem map_conn_setHeld (conn : Nat) (v : Option (SyncId × Nat)) (ps : List SyncPeer) :
    (SyncSt.setHeld conn v ps).map SyncPeer.conn = ps.map SyncPeer.conn := by
  unfold SyncSt.setHeld
  rw [map_map]
  refine map_congr_left fun p _ => ?_
  simp only [Function.comp]
  split <;> rfl

end Held

/-! ## 5. The pool -/

/-- The nodes and their requests, with the nodes `l` in the list. -/
def SyncSt.jobs (s : SyncSt) (l : List SyncId) : Jobs SyncId Nat :=
  ⟨List.range s.allocated, l, heldOf s.peers, s.log, s.status⟩

/-- `sync_list` is a ring of the requests that wait, and each is in one place. -/
structure SyncPool (s : SyncSt) (l : List SyncId) : Prop where
  ring : Ring s.links none (l.map some)
  sound : (s.jobs l).Sound
  conns : (s.peers.map SyncPeer.conn).Nodup
  fresh : ∀ p ∈ s.peers, p.conn < s.nextConn

theorem not_mem_header {l : List SyncId} {i : SyncId} (h : i ∉ l) :
    some i ∉ none :: l.map some := by
  simpa using h

theorem syncPool_init (stat : SelfStat) : SyncPool (SyncSt.init stat) [] where
  ring := ⟨isChain_pair.mpr ⟨rfl, rfl⟩, by simp⟩
  sound := by
    constructor <;> intros <;> simp_all [SyncSt.jobs, SyncSt.init, heldOf]
  conns := nodup_nil
  fresh := fun _ h => absurd h not_mem_nil

namespace SyncPool

variable {s : SyncSt} {l : List SyncId}

theorem gen (h : SyncPool s l) : ∃ l', SyncPool s.genSync l' := by
  unfold SyncSt.genSync
  split
  · exact ⟨l, h⟩
  have hnew : s.allocated ∉ List.range s.allocated := by simp
  have hl : s.allocated ∉ l := fun hm => hnew (h.sound.queued _ hm)
  refine ⟨l ++ [s.allocated], ?_, ?_, h.conns, h.fresh⟩
  · rw [map_append]
    exact (h.ring.initHead (not_mem_header hl)).addTail (not_mem_header hl)
  · have hm := (Jobs.Move.add (P := s.jobs l) s.allocated hnew).sound h.sound
    unfold Jobs.add at hm
    unfold SyncSt.jobs
    rw [range_succ]
    exact hm

theorem connect (h : SyncPool s l) (ip : UInt32) : SyncPool (s.connect ip) l where
  ring := h.ring
  sound := by
    have hs := h.sound
    unfold SyncSt.jobs at hs ⊢
    unfold SyncSt.connect
    rw [heldOf_connect ip h.fresh]
    exact hs
  conns := by
    refine nodup_cons.mpr ⟨fun hm => ?_, h.conns⟩
    obtain ⟨p, hp, he⟩ := mem_map.mp hm
    exact Nat.ne_of_lt (h.fresh p hp) he
  fresh := by
    intro p hp
    change p.conn < s.nextConn + 1
    rcases mem_cons.mp hp with rfl | hp
    · exact Nat.lt_succ_self _
    · exact Nat.lt_succ_of_lt (h.fresh p hp)

theorem close (h : SyncPool s l) (conn : Nat) : ∃ l', SyncPool (s.close conn) l' ∧
    ∀ i k, heldOf s.peers conn = some (i, k) → i ∈ l' := by
  unfold SyncSt.close
  cases hf : s.peers.find? fun p => p.conn == conn with
  | none => exact ⟨l, h, fun i k hh => by simp [heldOf, hf] at hh⟩
  | some p =>
    have hheld : heldOf s.peers conn = p.held := by simp [heldOf, hf]
    have hconns : ((s.peers.filter fun p => p.conn != conn).map SyncPeer.conn).Nodup :=
      h.conns.sublist (filter_sublist.map _)
    have hfresh : ∀ p ∈ s.peers.filter fun p => p.conn != conn, p.conn < s.nextConn :=
      fun p hp => h.fresh p (mem_filter.mp hp).1
    dsimp only
    cases hp : p.held with
    | none =>
      have hsame : update (heldOf s.peers) conn none = heldOf s.peers := by
        rw [← hp, ← hheld, update_eq_self]
      refine ⟨l, ⟨h.ring, ?_, hconns, hfresh⟩, fun i k hh => by simp [hheld, hp] at hh⟩
      have hs := h.sound
      unfold SyncSt.jobs at hs ⊢
      rw [heldOf_filter, hsame]
      exact hs
    | some r =>
      obtain ⟨i, k⟩ := r
      have hw : (s.jobs l).held conn = some (i, k) := hheld.trans hp
      refine ⟨l ++ [i], ⟨?_, ?_, hconns, hfresh⟩, ?_⟩
      · rw [map_append]
        exact h.ring.addTail (not_mem_header (h.sound.apart hw))
      · have hm := (Jobs.Move.giveBack hw).sound h.sound
        unfold SyncSt.jobs
        rw [heldOf_filter]
        exact hm
      · intro j k' hj
        rw [hheld, hp] at hj
        cases hj
        exact mem_append_right _ (mem_singleton_self _)

theorem response {cfg : SyncCfg} {conn k : Nat} (h : SyncPool s l)
    (hok : Orderly cfg s (.response conn k)) : SyncPool (s.response conn k) l := by
  unfold SyncSt.response
  cases hf : s.peers.find? fun p => p.conn == conn with
  | none => exact h
  | some p =>
    have hp : p ∈ s.peers := mem_of_find?_eq_some hf
    have hpc : p.conn = conn := by simpa using find?_some hf
    have hheld : (s.jobs l).held conn = p.held := by simp [SyncSt.jobs, heldOf, hf]
    refine ⟨h.ring, ?_, by rw [map_conn_setHeld]; exact h.conns, ?_⟩
    · unfold SyncSt.jobs
      rw [heldOf_setHeld none ⟨p, hp, hpc⟩]
      cases hpr : p.held with
      | none =>
        -- nothing is outstanding, so `k` was not sent here or is settled already
        have hsame : update (heldOf s.peers) conn none = heldOf s.peers := by
          rw [← hpr, ← hheld]
          exact update_eq_self _ _
        have hno : ¬ ((s.log[k]?).map Prod.snd = some conn ∧ s.status k = .pending) := by
          rintro ⟨hl, hst⟩
          obtain ⟨⟨i, c⟩, hlog, rfl⟩ := Option.map_eq_some_iff.mp hl
          have := (h.sound.waiting hlog).mp hst
          rw [hheld, hpr] at this
          cases this
        dsimp only
        rw [if_neg hno, hsame]
        exact h.sound
      | some r =>
        obtain ⟨i, k'⟩ := r
        obtain rfl : k' = k := hok p hp hpc _ hpr
        have hw : (s.jobs l).held conn = some (i, k') := hheld.trans hpr
        have hlog : s.log[k']? = some (i, conn) := h.sound.numbered hw
        have hst : s.status k' = .pending := (h.sound.waiting hlog).mpr hw
        have hyes : (s.log[k']?).map Prod.snd = some conn ∧ s.status k' = .pending :=
          ⟨by rw [hlog]; rfl, hst⟩
        dsimp only
        rw [if_pos hyes]
        exact (Jobs.Move.answer hw).sound h.sound
    · intro q hq
      obtain ⟨q', hq', rfl⟩ := mem_map.mp hq
      have := h.fresh q' hq'
      split <;> exact this

end SyncPool

/-! ## 6. `do_active_sync` -/

section Active

variable {cfg : SyncCfg} {now : Int} {i : SyncId} {s : SyncSt}

theorem findIpStat_doSubSync (p : SyncPeer) (ip : UInt32) :
    (s.doSubSync now i p).findIpStat ip = (s.findIpStat ip).map fun q =>
      if q.conn = p.conn then { q with held := some (i, s.log.length) } else q := by
  unfold SyncSt.findIpStat SyncSt.doSubSync SyncSt.setHeld
  rw [find?_map]
  congr 2
  funext q
  simp only [Function.comp]
  split <;> rfl

variable {p : SyncPeer}

theorem targets_doSubSync_eq_nil {ms : List Member} (h : s.targets cfg ms = []) :
    (s.doSubSync now i p).targets cfg ms = [] := by
  unfold SyncSt.targets at h ⊢
  rw [filterMap_eq_nil_iff] at h ⊢
  intro m hm
  have hm := h m hm
  split at hm
  · rw [findIpStat_doSubSync, hm]
    simp
  · rename_i he
    rw [if_neg he]

theorem activeLoop_of_no_target (ms : List Member) (h : s.targets cfg ms = []) :
    s.activeLoop cfg now i ms = s := by
  induction ms with
  | nil => rfl
  | cons m ms ih =>
    have hms : s.targets cfg ms = [] := by
      unfold SyncSt.targets at h ⊢
      rw [filterMap_eq_nil_iff] at h ⊢
      exact fun m' hm' => h m' (mem_cons_of_mem _ hm')
    have hm : (if cfg.eligible m then s.findIpStat m.ip else none) = none :=
      filterMap_eq_nil_iff.mp h m mem_cons_self
    unfold SyncSt.activeLoop
    split at hm
    · rename_i he
      rw [if_pos he, hm]
      exact ih hms
    · rename_i he
      rw [if_neg he]
      exact ih hms

theorem activeLoop_of_target (ms : List Member) (h : s.targets cfg ms = [p]) :
    s.activeLoop cfg now i ms = s.doSubSync now i p := by
  induction ms with
  | nil => cases h
  | cons m ms ih =>
    unfold SyncSt.targets at h
    rw [filterMap_cons] at h
    unfold SyncSt.activeLoop
    by_cases he : cfg.eligible m
    · rw [if_pos he] at h ⊢
      cases hf : s.findIpStat m.ip with
      | none =>
        rw [hf] at h
        exact ih h
      | some q =>
        rw [hf] at h
        obtain ⟨rfl, hms⟩ := List.cons.inj h
        exact activeLoop_of_no_target ms (targets_doSubSync_eq_nil hms)
    · rw [if_neg he] at h ⊢
      exact ih h

theorem mem_peers_of_targets {ms : List Member} (h : p ∈ s.targets cfg ms) : p ∈ s.peers := by
  obtain ⟨m, -, hm⟩ := mem_filterMap.mp h
  split at hm
  · exact mem_of_find?_eq_some hm
  · cases hm

theorem doActiveSync_cases (cfg : SyncCfg) (e : SyncEnv) (s : SyncSt) :
    ∃ g, s.doActiveSync cfg e = { s with gate := g } ∨
      s.initSyncFlag = true ∧
        s.doActiveSync cfg e = SyncSt.startSync cfg e { s with gate := g } := by
  unfold SyncSt.doActiveSync
  split
  · rename_i hi
    dsimp only
    split
    · exact ⟨_, .inr ⟨hi, rfl⟩⟩
    · exact ⟨_, .inl rfl⟩
  · exact ⟨s.gate, .inl rfl⟩

theorem calls_of_wake {e : SyncEnv} (hs : (s.wake e).selfStat = .waitSync)
    (hf : (s.wake e).flag = .idle) : s.CallsActiveSync e := by
  unfold SyncSt.CallsActiveSync
  by_cases hu : s.selfStat = .unknown
  · exact .inl hu
  unfold SyncSt.wake at hs hf
  rw [if_neg hu] at hs hf
  dsimp only at hs hf
  split at hf
  · rename_i hc
    exact .inr ⟨hc.1, .inr hc.2⟩
  rename_i hc
  rw [if_neg hc] at hs
  exact .inr ⟨hs, .inl hf⟩

theorem wake_eq (e : SyncEnv) (s : SyncSt) :
    ∃ st f, s.wake e = { s with selfStat := st, flag := f } := by
  unfold SyncSt.wake
  split
  · dsimp only
    split <;> exact ⟨_, _, rfl⟩
  · dsimp only
    split <;> exact ⟨_, _, rfl⟩

end Active

namespace SyncPool

variable {cfg : SyncCfg} {s : SyncSt} {l : List SyncId}

theorem doSubSync {now : Int} {i : SyncId} {q : List SyncId} {p : SyncPeer}
    (h : SyncPool s (i :: q)) (hp : p ∈ s.peers) (hidle : p.held = none) :
    SyncPool (s.doSubSync now i p) q where
  ring := by
    have hr : Ring s.links none ([] ++ some i :: q.map some) := h.ring
    exact hr.delInit
  sound := by
    have hw : (s.jobs (i :: q)).held p.conn = none := (heldOf_of_mem h.conns hp).trans hidle
    unfold SyncSt.jobs SyncSt.doSubSync
    rw [heldOf_setHeld _ ⟨p, hp, rfl⟩]
    exact (Jobs.Move.handOut rfl hw).sound h.sound
  conns := by
    unfold SyncSt.doSubSync
    rw [map_conn_setHeld]
    exact h.conns
  fresh := by
    intro p' hp'
    obtain ⟨q', hq', rfl⟩ := mem_map.mp hp'
    have := h.fresh q' hq'
    split <;> exact this

section Start

variable (e : SyncEnv) (h : SyncPool s l) (hok : s.links.next none ≠ none →
  (s.targets cfg cfg.members).length ≤ 1 ∧ ∀ p ∈ s.targets cfg cfg.members, p.held = none)

include e h hok

theorem startSync : ∃ l', SyncPool (s.startSync cfg e) l' := by
  unfold SyncSt.startSync
  rw [h.ring.next_header] at hok ⊢
  cases l with
  | nil => exact ⟨[], h.ring, h.sound, h.conns, h.fresh⟩
  | cons i q =>
    change ∃ l', SyncPool (s.activeLoop cfg e.now i cfg.members) l'
    obtain ⟨hone, hidle⟩ := hok (Option.some_ne_none i)
    cases ht : s.targets cfg cfg.members with
    | nil =>
      rw [activeLoop_of_no_target _ ht]
      exact ⟨i :: q, h⟩
    | cons p ps =>
      rw [ht] at hone
      obtain rfl : ps = [] := eq_nil_of_length_eq_zero (by simpa using hone)
      rw [activeLoop_of_target _ ht]
      have hp : p ∈ s.targets cfg cfg.members := ht ▸ mem_singleton_self p
      exact ⟨q, h.doSubSync (mem_peers_of_targets hp) (hidle p hp)⟩

theorem doActiveSync :
    ∃ l', SyncPool (s.doActiveSync cfg e) l' := by
  obtain ⟨g, he | ⟨-, he⟩⟩ := doActiveSync_cases cfg e s
  · rw [he]
    exact ⟨l, h.ring, h.sound, h.conns, h.fresh⟩
  · rw [he]
    exact startSync e ⟨h.ring, h.sound, h.conns, h.fresh⟩ hok

end Start

theorem wake (e : SyncEnv) (h : SyncPool s l) : SyncPool (s.wake e) l := by
  obtain ⟨st, f, he⟩ := wake_eq e s
  rw [he]
  exact ⟨h.ring, h.sound, h.conns, h.fresh⟩

theorem goOnLine (h : SyncPool s l) : SyncPool s.goOnLine l := by
  unfold SyncSt.goOnLine
  split
  · exact ⟨h.ring, h.sound, h.conns, h.fresh⟩
  · exact h

theorem timeout {e : SyncEnv} (h : SyncPool s l) (hok : Orderly cfg s (.timeout e)) :
    ∃ l', SyncPool (s.svcTimeout cfg e) l' := by
  unfold SyncSt.svcTimeout
  have hw := h.wake e
  dsimp only
  split
  · rename_i hs
    split
    · rename_i hf
      have hstart := hok (calls_of_wake hs hf)
      obtain ⟨st, f, he⟩ := wake_eq e s
      rw [he] at hw ⊢
      obtain ⟨l', h'⟩ := hw.doActiveSync e hstart
      exact ⟨l', h'.goOnLine⟩
    · exact ⟨l, hw.goOnLine⟩
  · exact ⟨l, hw⟩

theorem step {s' : SyncSt} {a : SyncAct} (h : SyncPool s l) (hok : Orderly cfg s a)
    (hs : syncNext cfg s a = some s') : ∃ l', SyncPool s' l' := by
  cases a with
  | gen =>
    cases hs
    exact h.gen
  | initDone =>
    cases hs
    exact ⟨l, h.ring, h.sound, h.conns, h.fresh⟩
  | connect ip =>
    cases hs
    exact ⟨l, h.connect ip⟩
  | close conn =>
    cases hs
    obtain ⟨l', h', -⟩ := h.close conn
    exact ⟨l', h'⟩
  | response conn k =>
    cases hs
    exact ⟨l, h.response hok⟩
  | timeout e =>
    cases hs
    exact h.timeout hok

end SyncPool

/-- **Orderly runs keep the pool**, whatever `self_stat` was configured. -/
theorem syncPool_of_run {cfg : SyncCfg} {stat : SelfStat} {s : SyncSt}
    (h : Run (syncNext cfg) (Orderly cfg) (SyncSt.init stat) s) : ∃ l, SyncPool s l := by
  refine Run.inv (I := fun s => ∃ l, SyncPool s l) ⟨[], syncPool_init stat⟩ ?_ h
  rintro s s' a ⟨l, hp⟩ hok hs
  exact hp.step hok hs

/-! ## 7. Going online -/

/-- While it waits the flag is 0 or 1; online, nothing is left to do. -/
structure OnlineInv (s : SyncSt) : Prop where
  wait : s.selfStat = .waitSync → s.flag ≠ .noMore
  done : s.selfStat = .onLine →
    s.initSyncFlag = true ∧ s.links.next none = none ∧ ∀ p ∈ s.peers, p.held = none

section Online

variable {cfg : SyncCfg} {e : SyncEnv} {s : SyncSt}

theorem activeLoop_keeps (cfg : SyncCfg) (now : Int) (i : SyncId) (ms : List Member) (s : SyncSt) :
    (s.activeLoop cfg now i ms).selfStat = s.selfStat ∧
      ((s.activeLoop cfg now i ms).flag = s.flag ∨ (s.activeLoop cfg now i ms).flag =
        .running) := by
  induction ms generalizing s with
  | nil => exact ⟨rfl, .inl rfl⟩
  | cons m ms ih =>
    unfold SyncSt.activeLoop
    split
    · split
      · exact ih s
      rename_i p hp
      have h := ih (s.doSubSync now i p)
      exact ⟨h.1, .inr (h.2.elim id id)⟩
    · exact ih s

/-- `do_active_sync` sets the flag to 2 only when it finds the list empty. -/
theorem doActiveSync_flag (cfg : SyncCfg) (e : SyncEnv) (hf : s.flag = .idle) :
    (s.doActiveSync cfg e).selfStat = s.selfStat ∧ ((s.doActiveSync cfg e).flag = .noMore →
      s.initSyncFlag = true ∧ s.links.next none = none ∧
        (s.doActiveSync cfg e).initSyncFlag = s.initSyncFlag ∧
        (s.doActiveSync cfg e).links = s.links ∧ (s.doActiveSync cfg e).peers = s.peers) := by
  obtain ⟨g, he | ⟨hi, he⟩⟩ := doActiveSync_cases cfg e s
  · rw [he]
    refine ⟨rfl, fun h => ?_⟩
    rw [show SyncSt.flag { s with gate := g } = s.flag from rfl, hf] at h
    cases h
  rw [he]
  unfold SyncSt.startSync
  split
  · rename_i hn
    exact ⟨rfl, fun _ => ⟨hi, hn, rfl, rfl, rfl⟩⟩
  rename_i i hn
  have hk := activeLoop_keeps cfg e.now i cfg.members { s with gate := g }
  refine ⟨hk.1, fun h => ?_⟩
  rcases hk.2 with h' | h'
  · rw [h, show SyncSt.flag { s with gate := g } = s.flag from rfl, hf] at h'
    cases h'
  · rw [h] at h'
    cases h'

namespace OnlineInv

theorem wake (e : SyncEnv) (h : OnlineInv s) : OnlineInv (s.wake e) := by
  unfold SyncSt.wake
  split
  · dsimp only
    split
    · exact ⟨fun _ => by simp, fun hs => by cases hs⟩
    · exact ⟨fun _ => by simp, fun hs => by cases hs⟩
  · dsimp only
    split
    · exact ⟨fun _ => by simp, h.done⟩
    · exact h

theorem timeout (h : OnlineInv s) (hok : Patient cfg s (.timeout e)) :
    OnlineInv (s.svcTimeout cfg e) := by
  unfold SyncSt.svcTimeout
  have hw := h.wake e
  dsimp only
  split
  · rename_i hs
    split
    · rename_i hf
      obtain ⟨hst, hno⟩ := doActiveSync_flag cfg e hf
      unfold SyncSt.goOnLine
      split
      · rename_i hn
        obtain ⟨hi, hl, hi', hl', hp'⟩ := hno hn
        refine ⟨nofun, fun _ => ⟨hi'.trans hi, ?_, ?_⟩⟩
        · change (SyncSt.doActiveSync cfg e (s.wake e)).links.next none = none
          rw [hl', hl]
        · intro p hp
          change p ∈ (SyncSt.doActiveSync cfg e (s.wake e)).peers at hp
          have hcall := calls_of_wake hs hf
          obtain ⟨st, f, he⟩ := wake_eq e s
          rw [he] at hl hp'
          rw [he, hp'] at hp
          exact hok.2 hcall hl p hp
      · rename_i hn
        refine ⟨fun _ => hn, fun hx => ?_⟩
        rw [hst, hs] at hx
        cases hx
    · unfold SyncSt.goOnLine
      rw [if_neg (hw.wait hs)]
      exact hw
  · exact hw

theorem close (h : OnlineInv s) (conn : Nat) : OnlineInv (s.close conn) := by
  unfold SyncSt.close
  split
  · exact h
  rename_i p hf
  dsimp only
  split
  · exact ⟨h.wait, fun hs =>
      ⟨(h.done hs).1, (h.done hs).2.1, fun q hq => (h.done hs).2.2 q (mem_filter.mp hq).1⟩⟩
  rename_i i k hheld
  refine ⟨fun _ => by simp, fun hs => ?_⟩
  rw [(h.done hs).2.2 p (mem_of_find?_eq_some hf)] at hheld
  cases hheld

theorem response (h : OnlineInv s) (conn k : Nat) : OnlineInv (s.response conn k) := by
  unfold SyncSt.response
  split
  · exact h
  refine ⟨fun _ => by simp, fun hs => ⟨(h.done hs).1, (h.done hs).2.1, fun q hq => ?_⟩⟩
  obtain ⟨q', hq', rfl⟩ := mem_map.mp hq
  split
  · rfl
  · exact (h.done hs).2.2 q' hq'

theorem step {s' : SyncSt} {a : SyncAct} (h : OnlineInv s) (hok : Patient cfg s a)
    (hs : syncNext cfg s a = some s') : OnlineInv s' := by
  cases a with
  | gen =>
    cases hs
    unfold SyncSt.genSync
    split
    · exact h
    · rename_i hi
      exact ⟨h.wait, fun hs => absurd (h.done hs).1 hi⟩
  | initDone =>
    cases hs
    exact ⟨h.wait, fun hs => ⟨rfl, (h.done hs).2⟩⟩
  | connect ip =>
    cases hs
    refine ⟨h.wait, fun hs => ⟨(h.done hs).1, (h.done hs).2.1, fun p hp => ?_⟩⟩
    rcases mem_cons.mp hp with rfl | hp
    · rfl
    · exact (h.done hs).2.2 p hp
  | close conn =>
    cases hs
    exact h.close conn
  | response conn k =>
    cases hs
    exact h.response conn k
  | timeout e =>
    cases hs
    exact h.timeout hok

end OnlineInv

theorem onlineInv_init : OnlineInv (SyncSt.init .unknown) where
  wait hs := by cases hs
  done hs := by cases hs

theorem onlineInv_of_run (h : Run (syncNext cfg) (Patient cfg) (SyncSt.init .unknown) s) :
    OnlineInv s := by
  refine h.inv onlineInv_init ?_
  intro s s' a hinv hok hs
  exact hinv.step hok hs

end Online

/-- The sync is complete: the list is empty, nothing is outstanding, and every request was answered
    by the peer it was sent to, or came back and was sent again. -/
structure SyncSt.SyncComplete (s : SyncSt) : Prop where
  empty : Ring s.links none []
  idle : ∀ p ∈ s.peers, p.held = none
  answered : ∀ (k : Nat) (i : SyncId) (conn : Nat), s.log[k]? = some (i, conn) →
    s.status k = .answered ∨
      (s.status k = .returned ∧ ∃ k' conn', k < k' ∧ s.log[k']? = some (i, conn'))

/-- **A storage goes online only after its directory sync is complete.** -/
theorem online_complete (cfg : SyncCfg) {s : SyncSt}
    (h : Run (syncNext cfg) (Patient cfg) (SyncSt.init .unknown) s) (hon : s.selfStat = .onLine) :
    s.SyncComplete := by
  obtain ⟨l, hp⟩ := syncPool_of_run (h.mono fun _ _ hok => hok.1)
  obtain ⟨-, hnext, hidle⟩ := (onlineInv_of_run h).done hon
  obtain rfl : l = [] := by
    cases l with
    | nil => rfl
    | cons i q =>
      rw [hp.ring.next_header] at hnext
      cases hnext
  exact ⟨hp.ring, hidle, fun k i conn hk => hp.sound.all_done rfl (heldOf_none hidle) hk⟩

/-- A domain of the storage with address 1 and others, and the clock in steps of 100 s. -/
def syncWith (ips : List UInt32) : SyncCfg where
  selfIp := 1
  members := (1 :: ips).map fun ip => ⟨ip, false⟩
  syncDirSpan := 60
  syncDirCount := 10

def syncTick (n : Int) : SyncAct := .timeout ⟨100 * n, 100 * n, 0, true⟩

/-- One directory is synced with one other member, in two attempts. -/
def syncTwice : List SyncAct :=
  [.gen, .initDone, .connect 2, syncTick 1, .close 0, .connect 2, syncTick 2, .response 1 1,
    syncTick 3]

theorem online_complete_twice : ∃ s : SyncSt, s.selfStat = .onLine ∧ s.log = [(0, 0), (0, 1)] ∧
    s.SyncComplete := by
  have hmeets : Meets (syncNext (syncWith [2])) (Patient (syncWith [2])) (SyncSt.init .unknown)
      syncTwice := by decide +kernel
  exact ⟨_, rfl, rfl, online_complete _ (run_of_exec syncTwice .start hmeets rfl) rfl⟩

/-- Two other members are connected and one of them answers. -/
def oneOfTwoAnswers : List SyncAct :=
  [.gen, .initDone, .connect 2, .connect 3, syncTick 1, .response 0 0, syncTick 2]

/-- The first answer lets the storage go online while the other request is outstanding. -/
theorem online_incomplete : ∃ s, Reach (syncNext (syncWith [2, 3])) (SyncSt.init .unknown) s ∧
    s.selfStat = .onLine ∧ (⟨1, 3, some (0, 1)⟩ : SyncPeer) ∈ s.peers ∧ ¬ s.SyncComplete := by
  have hmem : (⟨1, 3, some (0, 1)⟩ : SyncPeer) ∈ [(⟨1, 3, some (0, 1)⟩ : SyncPeer), ⟨0, 2, none⟩] :=
    mem_cons_self
  refine ⟨_, reach_of_exec oneOfTwoAnswers .start rfl, rfl, hmem, fun hc => ?_⟩
  have := hc.idle _ hmem
  cases this

/-- The bookkeeping of the list: a well-formed list `l` without repetition; a node that a live peer
    holds is not in it; a node that is neither linked nor held was answered; a request that was not
    answered and whose connection is open is the one that its connection holds; and a connection
    that closes with an outstanding request gives its node back. -/
structure SyncSt.ProperPool (s : SyncSt) (l : List SyncId) : Prop where
  linked : Ring s.links none (l.map some)
  nodup : l.Nodup
  apart : ∀ p ∈ s.peers, ∀ i k, p.held = some (i, k) → i ∉ l
  tracked : ∀ i < s.allocated, i ∉ l → (∀ p ∈ s.peers, ∀ k, p.held ≠ some (i, k)) →
    ∃ (k conn : Nat), s.log[k]? = some (i, conn) ∧ s.status k = .answered
  kept : ∀ (k : Nat) (i : SyncId) (conn : Nat), s.log[k]? = some (i, conn) →
    s.status k = .pending → ∃ p ∈ s.peers, p.conn = conn ∧ p.held = some (i, k)
  back : ∀ p ∈ s.peers, ∀ i k, p.held = some (i, k) →
    ∃ l' : List SyncId, Ring (s.close p.conn).links none (l'.map some) ∧ l'.Nodup ∧ i ∈ l'

/-- **The bookkeeping of the directory sync is a proper pool.** -/
theorem sync_bookkeeping (cfg : SyncCfg) (stat : SelfStat) {s : SyncSt}
    (h : Run (syncNext cfg) (Orderly cfg) (SyncSt.init stat) s) : ∃ l, s.ProperPool l := by
  obtain ⟨l, hp⟩ := syncPool_of_run h
  have hheld : ∀ p ∈ s.peers, (s.jobs l).held p.conn = p.held := fun p => heldOf_of_mem hp.conns
  refine ⟨l, hp.ring, hp.sound.nodup, ?_, ?_, ?_, ?_⟩
  · intro p hpm i k hpk
    exact hp.sound.apart ((hheld p hpm).trans hpk)
  · intro i hi hl hno
    rcases hp.sound.tracked i (mem_range.mpr hi) with hq | ⟨conn, k, hc⟩ | hans
    · exact absurd hq hl
    · obtain ⟨p, hpm, -, hpk⟩ := exists_of_heldOf hc
      exact absurd hpk (hno p hpm k)
    · exact hans
  · intro k i conn hk hst
    exact exists_of_heldOf ((hp.sound.waiting hk).mp hst)
  · intro p hpm i k hpk
    obtain ⟨l', hp', hback⟩ := hp.close p.conn
    exact ⟨l', hp'.ring, hp'.sound.nodup, hback i k ((hheld p hpm).trans hpk)⟩

theorem sync_bookkeeping_twice : ∃ s : SyncSt, s.selfStat = .onLine ∧ s.log = [(0, 0), (0, 1)] ∧
    ∃ l, s.ProperPool l := by
  have hmeets : Meets (syncNext (syncWith [2])) (Orderly (syncWith [2])) (SyncSt.init .unknown)
      syncTwice := by decide +kernel
  exact ⟨_, rfl, rfl, sync_bookkeeping _ _ (run_of_exec syncTwice .start hmeets rfl)⟩

/-- Two other members are connected, and both connections close before they answer. -/
def bothClose : List SyncAct :=
  [.gen, .initDone, .connect 2, .connect 3, syncTick 1, .close 0, .close 1]

/-- The node is linked twice: it is its own successor, and no list ends at the header. -/
theorem sync_list_broken : ∃ s, Reach (syncNext (syncWith [2, 3])) (SyncSt.init .unknown) s ∧
    s.links.next none = some 0 ∧ s.links.next (some 0) = some 0 ∧ ∀ l, ¬ s.ProperPool l := by
  refine ⟨_, reach_of_exec bothClose .start rfl, rfl, rfl, fun l hp => ?_⟩
  have hhead := hp.linked.next_header
  cases l with
  | nil => cases hhead
  | cons i q =>
    obtain rfl : i = 0 := (Option.some.inj (hhead.symm.trans rfl))
    exact hp.linked.next_ne mem_cons_self rfl

end Pfs
