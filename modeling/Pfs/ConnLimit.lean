/-
  How many connections does the data service open to one address? `get_ip_connect_count`,
  `active_connect` and `check_task` of network/D/pfs_data_base.c.

  `check_task` takes an idle connection to the address or opens another one, unless
  `get_ip_connect_count` is above `max_data_connects` already. So it still opens one at the limit.

  Main results: `connections_limited`, `connections_le_succ`, `connections_exceed`.
-/
import Mathlib.Data.Set.Card
import Pfs.ConnState

namespace Pfs

open Lib Function List

/-! ## 1. Connections to an address -/

/-- The live connections with CON_ACTIVE. -/
def activeTo (s : Storage) (ip : UInt32) : Set Fd :=
  {fd | ∃ p, s.conn fd = some p ∧ p.mode = .active ∧ p.ip = ip}

/-- Those that are not IDLE. -/
def busyTo (s : Storage) (ip : UInt32) : Set Fd :=
  {fd | ∃ p, s.conn fd = some p ∧ p.mode = .active ∧ p.ip = ip ∧ p.sockStat ≠ .idle}

/-- `online_list` has all of them. -/
def Listed (s : Storage) : Prop := ∀ ip, ∀ fd ∈ activeTo s ip, fd ∈ s.online

/-- No connection is opened, and what is closed or kept stays listed. -/
structure OpensNone (s t : Storage) : Prop where
  active : ∀ ip, activeTo t ip ⊆ activeTo s ip
  listed : ∀ ip, ∀ fd ∈ activeTo t ip, fd ∈ s.online → fd ∈ t.online

section OpensNone

variable {s t u : Storage} {fd : Fd} {p p' : Peer}

theorem Listed.opensNone (h : Listed s) (hq : OpensNone s t) : Listed t :=
  fun ip fd hfd => hq.listed ip fd hfd (h ip fd (hq.active ip hfd))

theorem OpensNone.trans (h : OpensNone s t) (h' : OpensNone t u) : OpensNone s u where
  active := fun ip => (h'.active ip).trans (h.active ip)
  listed := fun ip fd hfd hs => h'.listed ip fd hfd (h.listed ip fd (h'.active ip hfd) hs)

theorem opensNone_of_conn (hconn : t.conn = s.conn) (honline : t.online = s.online) :
    OpensNone s t where
  active := by
    intro ip fd hfd
    unfold activeTo at hfd ⊢
    rwa [hconn] at hfd
  listed := fun _ _ _ hs => honline ▸ hs

/-- A connection with a property is the new one, or had it before. -/
theorem conns_of_update {P : Peer → Prop} (hconn : t.conn = update s.conn fd (some p')) {g : Fd}
    (h : ∃ q, t.conn g = some q ∧ P q) : g = fd ∧ P p' ∨ ∃ q, s.conn g = some q ∧ P q := by
  obtain ⟨q, hq, hP⟩ := h
  rw [hconn] at hq
  rcases conn_of_update hq with ⟨hg, he⟩ | ⟨-, hold⟩
  · cases he
    exact .inl ⟨hg, hP⟩
  · exact .inr ⟨q, hold, hP⟩

theorem opensNone_of_setPeer (hp : s.conn fd = some p) (hconn : t.conn = update s.conn fd (some p'))
    (honline : t.online = s.online) (hmode : p'.mode = p.mode) (hip : p'.ip = p.ip) :
    OpensNone s t where
  active := by
    intro ip g hg
    rcases conns_of_update hconn hg with ⟨rfl, hm, ha⟩ | hold
    · exact ⟨p, hp, hmode ▸ hm, hip ▸ ha⟩
    · exact hold
  listed := fun _ _ _ hs => honline ▸ hs

theorem Touches.opensNone {Q : Peer → Prop} (h : Touches fd p Q s t) (hp : s.conn fd = some p) :
    OpensNone s t := by
  rcases h.conn with hconn | ⟨p', hconn, hmode, hip, -⟩
  · exact opensNone_of_conn hconn h.online
  · exact opensNone_of_setPeer hp hconn h.online hmode hip

end OpensNone

/-! ## 2. The handlers -/

section Handlers

variable {cfg : Cfg} {e : Env} {fd : Fd} {h : SigHead} {base : TaskBase} {p : Peer} {s t : Storage}

theorem online_svcFiniconn :
    (svcFiniconn e fd p s).conn = update s.conn fd none ∧
      (svcFiniconn e fd p s).online = s.online.filter (· != fd) := by
  have hsend : ∀ s, (finiSend e p s).online = s.online := by
    intro s
    unfold finiSend
    split <;> rfl
  have hrecv : ∀ s, (finiRecv e p s).online = s.online := by
    intro s
    unfold finiRecv
    split
    · rfl
    · simp only
      split <;> rfl
  unfold svcFiniconn
  simp only [(finiRecv_frame e p _).1, (finiSend_frame e p s).1, hrecv, hsend, and_self]

theorem svcFiniconn_opensNone : OpensNone s (svcFiniconn e fd p s) := by
  obtain ⟨hconn, honline⟩ := @online_svcFiniconn e fd p s
  have hne : ∀ ip, ∀ g ∈ activeTo (svcFiniconn e fd p s) ip, g ≠ fd ∧ g ∈ activeTo s ip := by
    rintro ip g ⟨q, hq, hm, ha⟩
    rw [hconn] at hq
    rcases conn_of_update hq with ⟨-, he⟩ | ⟨hg, hold⟩
    · cases he
    · exact ⟨hg, q, hold, hm, ha⟩
  refine ⟨fun ip g hg => (hne ip g hg).2, fun ip g hg hs => ?_⟩
  rw [honline]
  exact mem_filter.mpr ⟨hs, by simpa using (hne ip g hg).1⟩

theorem doClose_opensNone : OpensNone s (s.doClose e fd) := by
  unfold Storage.doClose
  split
  · exact opensNone_of_conn rfl rfl
  · exact svcFiniconn_opensNone

theorem afterRecv_opensNone {r : RecvRet × Storage} (h : OpensNone s r.2) :
    OpensNone s (afterRecv e fd r) := by
  unfold afterRecv
  split
  · exact h.trans doClose_opensNone
  · exact h

theorem doSend_opensNone {data file : SendRes} (hp : s.conn fd = some p) :
    Yields (OpensNone s) (doSend e fd data file p s) := by
  refine doSend_outcome (fun _ _ => opensNone_of_setPeer hp rfl rfl rfl rfl) ?_ ?_
  · intro p t hp ht
    exact Outcome.imp svcSend_touches (fun _ _ => trivial) fun r hr => ht.trans (hr.opensNone hp)
  · exact fun _ _ _ ht => ht.trans svcFiniconn_opensNone

theorem accept_opensNone {svc : Svc} {ip : UInt32} : OpensNone s (s.accept svc fd ip) := by
  unfold Storage.accept
  split
  · refine ⟨?_, fun _ g _ hs => ?_⟩
    · intro ip' g hg
      rcases conns_of_update rfl hg with ⟨-, hm, -⟩ | hold
      · cases hm
      · exact hold
    · simp only
      split
      · exact mem_cons_of_mem _ hs
      · exact hs
  · exact opensNone_of_conn rfl rfl

/-- **Only `check_task` opens connections.** -/
theorem step_opensNone {a : Act} (ha : ∀ envs, a ≠ .dataCheck envs) :
    Yields (OpensNone s) (step cfg s a) := by
  have hsame : OpensNone s s := opensNone_of_conn rfl rfl
  cases a with
  | accept svc fd ip => exact accept_opensNone
  | recvMsg fd h base e e' =>
    simp only [step]
    split
    · exact hsame
    rename_i p hp
    split
    · exact hsame
    · exact Outcome.map (Outcome.yields doReq_serves) fun r hr =>
        afterRecv_opensNone (hr.opensNone hp)
  | recvData fd b e e' =>
    simp only [step]
    split
    · exact hsame
    rename_i p hp
    split
    · exact afterRecv_opensNone (recvFile_touches.opensNone hp)
    · exact hsame
  | send fd data file e =>
    simp only [step]
    split
    · exact hsame
    · rename_i p hp
      exact doSend_opensNone hp
  | close fd e => exact doClose_opensNone
  | dataCheck envs => exact absurd rfl (ha envs)
  | _ => exact (step_conns rfl).yields.mono fun _ ht => opensNone_of_conn ht.1 ht.2

end Handlers

/-! ## 3. Waiting tasks -/

/-- The queues of `check_task`. -/
def checkQueues : List TaskQ := [.wait, .waitTmp, .syncDir, .syncDirTmp]

/-- The tasks that a pass of `check_task` may come to and that are to be fetched from an address. -/
def waitingFor (pool : Pool) (ip : UInt32) : Nat :=
  (checkQueues.flatMap pool.q).countP fun i => (pool.node i).sub.peerip == ip

/-- The task as one of those of the address. -/
def owns (pool : Pool) (i : NodeId) (ip : UInt32) : Nat :=
  if (pool.node i).sub.peerip == ip then 1 else 0

section Pool

variable {pool pool' : Pool} {e : Env} {i : NodeId} {ip : UInt32} {q : TaskQ}

/-- The tasks keep their addresses. -/
def SameIps (pool pool' : Pool) : Prop :=
  ∀ j, (pool'.node j).sub.peerip = (pool.node j).sub.peerip

theorem SameIps.owns (h : SameIps pool pool') (i : NodeId) (ip : UInt32) :
    Pfs.owns pool' i ip = Pfs.owns pool i ip := by
  unfold Pfs.owns
  rw [h i]

theorem waitingFor_congr (hips : SameIps pool pool') (hq : pool'.q = pool.q) (ip : UInt32) :
    waitingFor pool' ip = waitingFor pool ip := by
  unfold waitingFor
  rw [hq]
  exact countP_congr fun j _ => by rw [hips j]

theorem sameIps_modify (i : NodeId) {f : Tasklist → Tasklist}
    (hf : ∀ n, (f n).sub.peerip = n.sub.peerip) : SameIps pool (pool.modify i f) := by
  intro j
  by_cases hj : j = i
  · subst hj
    simp only [Pool.modify, update_self, hf]
  · simp only [Pool.modify, update_of_ne hj]

theorem countP_filter_ne {l : List NodeId} {f : NodeId → Bool} (h : i ∈ l) :
    (l.filter (· != i)).countP f + (if f i then 1 else 0) ≤ l.countP f := by
  rw [l.countP_eq_countP_filter_add f (· != i)]
  refine Nat.add_le_add_left ?_ _
  split
  · rename_i hf
    exact countP_pos_iff.mpr ⟨i, mem_filter.mpr ⟨h, by simp⟩, hf⟩
  · exact Nat.zero_le _

theorem waitingFor_unlink (i : NodeId) (ip : UInt32) :
    waitingFor (pool.unlink i) ip ≤ waitingFor pool ip ∧
      (i ∈ checkQueues.flatMap pool.q →
        waitingFor (pool.unlink i) ip + owns pool i ip ≤ waitingFor pool ip) := by
  have hfilter : checkQueues.flatMap (pool.unlink i).q =
      (checkQueues.flatMap pool.q).filter (· != i) := by
    simp [checkQueues, Pool.unlink]
  unfold waitingFor
  rw [hfilter]
  exact ⟨filter_sublist.countP_le, countP_filter_ne⟩

theorem waitingFor_get (hget : e.get q pool = some (i, pool')) (hq : q ∈ checkQueues) :
    SameIps pool pool' ∧ ∀ ip, waitingFor pool' ip + owns pool i ip ≤ waitingFor pool ip := by
  obtain ⟨js, hlist, rfl⟩ | ⟨rfl, -, -⟩ := Env.get_cases hget
  · have hips : SameIps pool
        (((pool.count q (-1)).modify i ({ · with status := none })).unlink i) :=
      @sameIps_modify pool i ({ · with status := none }) fun _ => rfl
    refine ⟨hips, fun ip => ?_⟩
    rw [@waitingFor_congr (pool.unlink i) _ hips rfl]
    exact (waitingFor_unlink i ip).2 (mem_flatMap.mpr ⟨q, hq, hlist ▸ mem_cons_self⟩)
  · exact absurd hq (by decide)

theorem waitingFor_append (i : NodeId) (q : TaskQ) (ip : UInt32) :
    waitingFor (pool.append i q) ip =
      waitingFor pool ip + if q ∈ checkQueues then owns pool i ip else 0 := by
  unfold waitingFor Pool.append owns checkQueues
  simp only [flatMap_cons, flatMap_nil, countP_append, update_apply]
  -- The four queues are different, so one of them at most has the task.
  cases q <;> simp <;> omega

theorem set_cases (e : Env) (i : NodeId) (q : TaskQ) (pool : Pool) :
    SameIps pool (e.set i q pool) ∧
      ((e.set i q pool).q = pool.q ∨ (e.set i q pool).q = ((pool.unlink i).append i q).q) := by
  unfold Env.set pfsSetTask
  split
  · have hips : SameIps pool (pool.modify i fun n =>
        { n with status := some q, last := if 0 < n.last then e.now else n.last }) :=
          sameIps_modify i fun _ => rfl
    exact ⟨hips, .inr rfl⟩
  · exact ⟨fun _ => rfl, .inl rfl⟩

theorem waitingFor_set (e : Env) (i : NodeId) (q : TaskQ) (pool : Pool) (ip : UInt32) :
    waitingFor (e.set i q pool) ip ≤ waitingFor pool ip + owns pool i ip ∧
      (q ∉ checkQueues → waitingFor (e.set i q pool) ip ≤ waitingFor pool ip) := by
  obtain ⟨hips, hq | hq⟩ := set_cases e i q pool
  · rw [waitingFor_congr hips hq]
    exact ⟨Nat.le_add_right _ _, fun _ => Nat.le_refl _⟩
  have hle := (@waitingFor_unlink pool i ip).1
  have howns : owns (pool.unlink i) i ip = owns pool i ip := rfl
  rw [@waitingFor_congr ((pool.unlink i).append i q) _ hips hq, waitingFor_append, howns]
  split
  · exact ⟨Nat.add_le_add_right hle _, fun hno => absurd ‹_› hno⟩
  · exact ⟨hle.trans (Nat.le_add_right _ _), fun _ => hle⟩

theorem sameIps_over (i : NodeId) (o : UInt8) : SameIps pool (pool.over i o) :=
  sameIps_modify i fun _ => rfl

theorem sameIps_store {base : TaskBase} {sub : TaskSub}
    (h : sub.peerip = (pool.node i).sub.peerip) :
    SameIps pool (pool.store i base sub) := by
  intro j
  by_cases hj : j = i
  · subst hj
    simp only [Pool.store, Pool.modify, update_self, h]
  · simp only [Pool.store, Pool.modify, update_of_ne hj]

end Pool

/-! ## 4. A task in `check_task` -/

/-- The address that a task is to be fetched from. -/
def Storage.peerOf (s : Storage) (i : NodeId) : UInt32 := (s.pool.node i).sub.peerip

/-- The connections stay. -/
def SameConns (s t : Storage) : Prop := t.conn = s.conn ∧ t.online = s.online

/-- A connection is opened: none is idle, and there are not too many. -/
def Dials (max : Nat) (ip : UInt32) (s t : Storage) : Prop :=
  s.findIpStat ip = none ∧ s.getIpConnectCount ip ≤ max ∧ ∃ fd,
    t.conn = update s.conn fd
      (some { Peer.init .data ip with sockStat := .idle, mode := .active }) ∧
    t.online = fd :: s.online

/-- An active connection to the address takes the task. -/
def Takes (ip : UInt32) (s t : Storage) : Prop :=
  ∃ fd p p', s.conn fd = some p ∧ p.mode = .active ∧ p.ip = ip ∧
    t.conn = update s.conn fd (some p') ∧ p'.mode = p.mode ∧ p'.ip = p.ip ∧ t.online = s.online

/-- What a round of `check_task` does: a connection may be opened; then one takes the task, or the
    task is finished or put aside. -/
def Round (max : Nat) (i : NodeId) (s t : Storage) : Prop :=
  ∃ u, (SameConns s u ∨ Dials max (s.peerOf i) s u) ∧
    (SameConns u t ∧ (∀ ip, waitingFor t.pool ip ≤ waitingFor s.pool ip + owns s.pool i ip) ∨
      Takes (s.peerOf i) u t ∧ ∀ ip, waitingFor t.pool ip ≤ waitingFor s.pool ip)

/-- A connection is to the address that it was opened for. -/
def Env.Reaches (e : Env) : Prop := ∀ ip fd peerip, e.connect ip = some (fd, peerip) → peerip = ip

section Round

variable {cfg : Cfg} {e : Env} {i : NodeId} {s t u : Storage}

theorem finish_waiting (o : UInt8) (ip : UInt32) :
    waitingFor (s.finish e i o).pool ip ≤ waitingFor s.pool ip + owns s.pool i ip := by
  have hips : SameIps s.pool (s.pool.over i o) := sameIps_over i o
  have hset := (waitingFor_set e i .fin (s.pool.over i o) ip).1
  rwa [waitingFor_congr hips rfl, hips.owns] at hset

theorem hangUp_waiting (ip : UInt32) :
    waitingFor (s.hangUp e i).pool ip ≤ waitingFor s.pool ip + owns s.pool i ip :=
  (waitingFor_set e i _ s.pool ip).1

theorem round_aside (hu : SameConns s u ∨ Dials cfg.maxDataConnects (s.peerOf i) s u)
    (hpool : u.pool = s.pool) (ht : SameConns u t)
    (hw : ∀ ip, waitingFor t.pool ip ≤ waitingFor u.pool ip + owns u.pool i ip) :
    Round cfg.maxDataConnects i s t := by
  refine ⟨u, hu, .inl ⟨ht, ?_⟩⟩
  rwa [hpool] at hw

variable {fd : Fd}

theorem dataRequest_waiting {p : Peer} (ip : UInt32) :
    waitingFor (dataRequest cfg e i fd p s).pool ip ≤ waitingFor s.pool ip := by
  have hips : SameIps s.pool
      (s.pool.store i (s.pool.node i).base { (s.pool.node i).sub with lastlen := 0 }) :=
    sameIps_store rfl
  exact ((waitingFor_set e i .recv _ ip).2 (by decide)).trans (waitingFor_congr hips rfl ip).le

theorem dataTake_round (hu : SameConns s u ∨ Dials cfg.maxDataConnects (s.peerOf i) s u)
    (hpool : u.pool = s.pool) (hfind : u.findIpStat (s.peerOf i) = some fd) :
    Round cfg.maxDataConnects i s (dataTake cfg e i fd u) := by
  obtain ⟨p, hp, hmode, hip, -⟩ := conn_of_findIpStat hfind
  unfold dataTake
  split
  · exact round_aside hu hpool ⟨rfl, rfl⟩ (finish_waiting _)
  rw [hp]
  refine ⟨u, hu, .inr ⟨⟨fd, p, _, hp, hmode, hip, rfl, rfl, rfl, rfl⟩, fun ip => ?_⟩⟩
  rw [← hpool]
  exact dataRequest_waiting ip

theorem activeConnect_cases (he : e.Reaches) (hfind : s.findIpStat (s.peerOf i) = none)
    (hcount : ¬ cfg.maxDataConnects < s.getIpConnectCount (s.peerOf i)) :
    let u := s.activeConnect e (s.peerOf i)
    (SameConns s u ∨ Dials cfg.maxDataConnects (s.peerOf i) s u) ∧ u.pool = s.pool := by
  simp only [Storage.activeConnect]
  split
  · exact ⟨.inl ⟨rfl, rfl⟩, rfl⟩
  rename_i fd peerip hfd
  split
  · rw [he _ _ _ hfd]
    exact ⟨.inr ⟨hfind, Nat.le_of_not_lt hcount, fd, rfl, rfl⟩, rfl⟩
  · exact ⟨.inl ⟨rfl, rfl⟩, rfl⟩

theorem dataConnect_round (he : e.Reaches) :
    Round cfg.maxDataConnects i s (dataConnect cfg e i s) := by
  unfold dataConnect
  simp only
  split
  · rename_i fd hfind
    exact dataTake_round (.inl ⟨rfl, rfl⟩) rfl hfind
  rename_i hfind
  split
  · exact round_aside (.inl ⟨rfl, rfl⟩) rfl ⟨rfl, rfl⟩ hangUp_waiting
  rename_i hcount
  obtain ⟨hu, hpool⟩ := @activeConnect_cases cfg e i s he hfind hcount
  split
  · exact round_aside hu hpool ⟨rfl, rfl⟩ hangUp_waiting
  · rename_i fd hfind'
    exact dataTake_round hu hpool hfind'

/-- The log, and what `check_localfile_md5` stores in the task, do not matter here. -/
theorem Round.of_pool (h : Round cfg.maxDataConnects i u t) (hconn : SameConns s u)
    (hips : SameIps s.pool u.pool) (hq : u.pool.q = s.pool.q) :
    Round cfg.maxDataConnects i s t := by
  obtain ⟨v, hv, ht⟩ := h
  have hpeer : u.peerOf i = s.peerOf i := hips i
  rw [hpeer] at hv ht
  simp only [waitingFor_congr hips hq, hips.owns] at ht
  refine ⟨v, ?_, ht⟩
  rcases hv with ⟨hc, ho⟩ | ⟨hnone, hcount, fd, hc, ho⟩
  · exact .inl ⟨hc.trans hconn.1, ho.trans hconn.2⟩
  rw [hconn.1] at hc
  rw [hconn.2] at ho
  refine .inr ⟨?_, ?_, fd, hc, ho⟩
  · simpa only [Storage.findIpStat, hconn.1, hconn.2] using hnone
  · simpa only [Storage.getIpConnectCount, hconn.1, hconn.2] using hcount

theorem finish_round {o : UInt8} : Round cfg.maxDataConnects i s (s.finish e i o) :=
  round_aside (.inl ⟨rfl, rfl⟩) rfl ⟨rfl, rfl⟩ (finish_waiting o)

theorem dataPlace_round (he : e.Reaches) :
    Round cfg.maxDataConnects i s (dataPlace cfg e i s) := by
  unfold dataPlace
  simp only
  split
  · exact finish_round
  split
  · split
    · exact round_aside (.inl ⟨rfl, rfl⟩) rfl ⟨rfl, rfl⟩ hangUp_waiting
    · exact finish_round
  · exact (dataConnect_round he).of_pool ⟨rfl, rfl⟩ (fun _ => rfl) rfl

theorem dataCheckOne_round (he : e.Reaches) :
    Yields (Round cfg.maxDataConnects i s) (dataCheckOne cfg e i s) := by
  unfold dataCheckOne
  simp only
  split
  · exact finish_round
  split
  · split
    · trivial
    split
    · exact finish_round.of_pool ⟨rfl, rfl⟩ (sameIps_store rfl) rfl
    · exact (dataPlace_round he).of_pool ⟨rfl, rfl⟩ (sameIps_store rfl) rfl
  · exact dataPlace_round he

end Round

/-! ## 5. What a round does to the number of connections -/

section Limit

variable {max lim : Nat} {ip₀ : UInt32} {i : NodeId} {s t u : Storage}

theorem encard_le_of_new {A B : Set Fd} {fd : Fd} {b : Bool} (h : B ⊆ {x | x = fd ∧ b} ∪ A) :
    B.encard ≤ A.encard + (if b then 1 else 0 : Nat) := by
  cases b with
  | false => simpa using Set.encard_le_encard h
  | true =>
    have hins : B ⊆ insert fd A := h.trans fun x hx => hx.imp (·.1) id
    exact (Set.encard_le_encard hins).trans (Set.encard_insert_le A fd)

theorem SameConns.activeTo (h : SameConns s t) (ip : UInt32) : activeTo t ip = activeTo s ip := by
  unfold Pfs.activeTo
  rw [h.1]

theorem SameConns.busyTo (h : SameConns s t) (ip : UInt32) : busyTo t ip = busyTo s ip := by
  unfold Pfs.busyTo
  rw [h.1]

theorem Takes.opensNone (h : Takes ip₀ s t) : OpensNone s t := by
  obtain ⟨fd, p, p', hp, -, -, hconn, hmode, hip, honline⟩ := h
  exact opensNone_of_setPeer hp hconn honline hmode hip

theorem Takes.busyTo_le (h : Takes ip₀ s t) (ip : UInt32) :
    (busyTo t ip).encard ≤ (busyTo s ip).encard + (if ip₀ == ip then 1 else 0 : Nat) := by
  obtain ⟨fd, p, p', hp, hm, hip₀, hconn, hmode, hip, -⟩ := h
  refine @encard_le_of_new _ _ fd _ ?_
  intro g hg
  refine (conns_of_update hconn hg).imp_left ?_
  rintro ⟨rfl, -, hqip, -⟩
  exact ⟨rfl, beq_iff_eq.mpr (hip₀.symm.trans (hip.symm.trans hqip))⟩

theorem Dials.busyTo_subset (h : Dials max ip₀ s t) (ip : UInt32) : busyTo t ip ⊆ busyTo s ip := by
  obtain ⟨-, -, fd, hconn, -⟩ := h
  intro g hg
  rcases conns_of_update hconn hg with ⟨-, -, -, hs⟩ | hold
  · exact absurd rfl hs
  · exact hold

theorem Dials.activeTo_subset (h : Dials max ip₀ s t) :
    ∃ fd, t.online = fd :: s.online ∧ ∀ ip, activeTo t ip ⊆ {fd' | fd' = fd ∧ ip₀ == ip} ∪
      activeTo s ip := by
  obtain ⟨-, -, fd, hconn, honline⟩ := h
  refine ⟨fd, honline, ?_⟩
  intro ip g hg
  exact (conns_of_update hconn hg).imp_left fun h => ⟨h.1, beq_iff_eq.mpr h.2.2⟩

theorem Dials.listed (h : Dials max ip₀ s t) (hs : Listed s) : Listed t := by
  obtain ⟨fd, honline, hsub⟩ := h.activeTo_subset
  intro ip fd' hfd'
  rw [honline]
  rcases hsub ip hfd' with ⟨rfl, -⟩ | hold
  · exact mem_cons_self
  · exact mem_cons_of_mem fd (hs ip fd' hold)

/-- `find_ip_stat` finds an idle connection if there is one. -/
theorem activeTo_subset_busyTo (hs : Listed s) (h : s.findIpStat ip₀ = none) :
    activeTo s ip₀ ⊆ busyTo s ip₀ := by
  rintro fd ⟨p, hp, hm, hip⟩
  refine ⟨p, hp, hm, hip, fun hidle => ?_⟩
  have hno := find?_eq_none.mp h fd (hs ip₀ fd ⟨p, hp, hm, hip⟩)
  simp [hp, hm, hip, hidle] at hno

theorem activeTo_le_count (hs : Listed s) (ip : UInt32) :
    (activeTo s ip).encard ≤ s.getIpConnectCount ip := by
  classical
  let f : Fd → Bool := fun fd => (s.conn fd).any fun p => p.ip == ip && p.mode == .active
  have hcount : s.getIpConnectCount ip = s.online.countP f := by
    refine countP_congr fun fd _ => ?_
    show _ ↔ (s.conn fd).any _ = true
    cases s.conn fd <;> rfl
  have hsub : activeTo s ip ⊆ (s.online.filter f).toFinset := by
    rintro fd ⟨p, hp, hm, hip⟩
    have hmem := hs ip fd ⟨p, hp, hm, hip⟩
    simp [f, hmem, hp, hm, hip]
  calc (activeTo s ip).encard ≤ (s.online.filter f).toFinset.card := by
        rw [← Set.encard_coe_eq_coe_finsetCard]
        exact Set.encard_le_encard hsub
    _ ≤ (s.online.filter f).length := by exact_mod_cast toFinset_card_le _
    _ = s.getIpConnectCount ip := by rw [hcount, countP_eq_length_filter]

/-- At most `lim` active connections to each address. -/
def Capped (lim : Nat) (s : Storage) : Prop := ∀ ip, (activeTo s ip).encard ≤ lim

/-- The bound, and that the list it is counted over is complete. -/
structure Limited (lim : Nat) (s : Storage) : Prop where
  listed : Listed s
  capped : Capped lim s

/-- Those in use and the waiting tasks, with some more, are at most `max`. -/
def Room (max : Nat) (s : Storage) (more : UInt32 → Nat) : Prop :=
  ∀ ip, (busyTo s ip).encard + (waitingFor s.pool ip + more ip : Nat) ≤ max

theorem Round.listed (h : Round max i s t) (hs : Listed s) : Listed t := by
  obtain ⟨u, hu, ht⟩ := h
  have hlist : Listed u := by
    rcases hu with hu | hu
    · exact hs.opensNone (opensNone_of_conn hu.1 hu.2)
    · exact hu.listed hs
  rcases ht with ⟨ht, -⟩ | ⟨ht, -⟩
  · exact hlist.opensNone (opensNone_of_conn ht.1 ht.2)
  · exact hlist.opensNone ht.opensNone

theorem Round.capped (h : Round max i s t) (hs : Capped lim s)
    (hdial : s.findIpStat (s.peerOf i) = none → s.getIpConnectCount (s.peerOf i) ≤ max →
      (activeTo s (s.peerOf i)).encard + 1 ≤ lim) : Capped lim t := by
  obtain ⟨u, hu, ht⟩ := h
  have hcap : Capped lim u := by
    intro ip
    rcases hu with hu | hu
    · rw [hu.activeTo]
      exact hs ip
    obtain ⟨fd, -, hsub⟩ := hu.activeTo_subset
    have hnew := encard_le_of_new (hsub ip)
    by_cases hip : s.peerOf i = ip
    · subst hip
      rw [beq_self_eq_true, if_pos rfl] at hnew
      exact hnew.trans (hdial hu.1 hu.2.1)
    · rw [beq_false_of_ne hip, if_neg Bool.false_ne_true] at hnew
      simpa using hnew.trans (by simpa using hs ip)
  intro ip
  rcases ht with ⟨ht, -⟩ | ⟨ht, -⟩
  · rw [ht.activeTo]
    exact hcap ip
  · exact (Set.encard_le_encard (ht.opensNone.active ip)).trans (hcap ip)

theorem Round.room (h : Round max i s t) (hs : Room lim s (owns s.pool i)) :
    Room lim t fun _ => 0 := by
  obtain ⟨u, hu, ht⟩ := h
  intro ip
  have hbusy : (busyTo u ip).encard ≤ (busyTo s ip).encard := by
    rcases hu with hu | hu
    · rw [hu.busyTo]
    · exact Set.encard_le_encard (hu.busyTo_subset ip)
  refine le_trans ?_ (hs ip)
  rcases ht with ⟨ht, hwait⟩ | ⟨ht, hwait⟩
  · rw [ht.busyTo]
    have hle : waitingFor t.pool ip + 0 ≤ waitingFor s.pool ip + owns s.pool i ip := hwait ip
    gcongr
  -- The task counts as waiting before, and as a connection in use after.
  have howns : (busyTo t ip).encard ≤ (busyTo s ip).encard + (owns s.pool i ip : Nat) :=
    (ht.busyTo_le ip).trans (add_le_add_left hbusy _)
  have hle := hwait ip
  calc (busyTo t ip).encard + (waitingFor t.pool ip + 0 : Nat)
      ≤ (busyTo s ip).encard + (owns s.pool i ip : Nat) + (waitingFor s.pool ip : Nat) := by
        gcongr; exact hle
    _ = (busyTo s ip).encard + (waitingFor s.pool ip + owns s.pool i ip : Nat) := by
      rw [add_assoc, Nat.cast_add, add_comm (owns s.pool i ip : ℕ∞)]

theorem Room.dial (h : Room max s (owns s.pool i)) (hs : Listed s)
    (hfind : s.findIpStat (s.peerOf i) = none) : (activeTo s (s.peerOf i)).encard + 1 ≤ max := by
  have howns : owns s.pool i (s.peerOf i) = 1 := by simp [owns, Storage.peerOf]
  have hroom := h (s.peerOf i)
  rw [howns] at hroom
  refine le_trans (add_le_add (Set.encard_le_encard (activeTo_subset_busyTo hs hfind)) ?_) hroom
  exact_mod_cast Nat.le_add_left 1 _

/-- **A round that has room keeps the limit**, and it leaves as much room as it found. -/
theorem Round.keeps (h : Round max i s t) (hs : Limited max s)
    (hroom : Room max s (owns s.pool i)) :
    Limited max t ∧ Room max t fun _ => 0 :=
  ⟨⟨h.listed hs.listed, h.capped hs.capped fun hfind _ => hroom.dial hs.listed hfind⟩, h.room hroom⟩

theorem Round.keeps_succ (h : Round max i s t) (hs : Limited (max + 1) s) :
    Limited (max + 1) t := by
  refine ⟨h.listed hs.listed, h.capped hs.capped fun _ hcount => ?_⟩
  calc (activeTo s (s.peerOf i)).encard + 1 ≤ s.getIpConnectCount (s.peerOf i) + 1 := by
        gcongr
        exact activeTo_le_count hs.listed _
    _ ≤ (max + 1 : Nat) := by exact_mod_cast Nat.succ_le_succ hcount

end Limit

/-! ## 6. A pass of `check_task` -/

section Pass

variable {cfg : Cfg} {s t : Storage}

theorem moveAll_waiting {envs : Nat → Env} {src dst : TaskQ} (hsrc : src ∈ checkQueues) (n k : Nat)
    (pool : Pool) (ip : UInt32) :
    waitingFor (moveAll envs src dst n k pool) ip ≤ waitingFor pool ip := by
  induction n generalizing k pool with
  | zero => exact Nat.le_refl _
  | succ n ih =>
    unfold moveAll
    split
    · exact Nat.le_refl _
    rename_i i pool' hget
    obtain ⟨hips, hless⟩ := waitingFor_get hget hsrc
    have hset := (waitingFor_set (envs k) i dst pool' ip).1
    have hrest := ih (k + 1) ((envs k).set i dst pool')
    have hout := hless ip
    rw [hips.owns] at hset
    omega

theorem waitingFor_getEither {e : Env} {q q' : TaskQ} {pool pool' : Pool} {i : NodeId}
    (hq : q ∈ checkQueues) (hq' : q' ∈ checkQueues) (hget : e.getEither q q' pool = some (i, pool'))
    (ip : UInt32) :
    waitingFor pool' ip + owns pool' i ip ≤ waitingFor pool ip := by
  have hone : ∀ r, r ∈ checkQueues → e.get r pool = some (i, pool') →
      waitingFor pool' ip + owns pool' i ip ≤ waitingFor pool ip := by
    intro r hr h
    obtain ⟨hips, hless⟩ := waitingFor_get h hr
    rw [hips.owns]
    exact hless ip
  unfold Env.getEither at hget
  split at hget
  · rename_i r hr
    cases hget
    exact hone q hq hr
  · exact hone q' hq' hget

variable {envs : Nat → Nat → Env}

/-- **What the rounds keep, a pass keeps.** Before a round its task has left the queues; before the
    first round tasks have only been moved between them. -/
theorem dataCheckTask_keeps {I : Storage → Prop} (he : ∀ n k, (envs n k).Reaches)
    (hmove : ∀ s pool, I s → (∀ ip, waitingFor pool ip ≤ waitingFor s.pool ip) →
      I { s with pool := pool })
    (hround : ∀ s t i pool, I s →
      (∀ ip, waitingFor pool ip + owns pool i ip ≤ waitingFor s.pool ip) →
      Round cfg.maxDataConnects i { s with pool := pool } t → I t)
    (hs : I s) (hr : dataCheckTask cfg envs s = .ok t) : I t := by
  have hloop (n : Nat) {s : Storage} (hs : I s) : Yields I (dataCheckLoop cfg (envs 2) n 0 s) := by
    refine dataCheckLoop_outcome (fun k i pool s hs hget => ?_) hs
    refine (dataCheckOne_round (he 2 k)).mono fun u hu => hround s u i pool hs ?_ hu
    exact waitingFor_getEither (by decide) (by decide) hget
  refine (hloop _ (hmove s _ hs fun ip => ?_)).of_ok hr
  refine (moveAll_waiting (by decide) _ 0 _ ip).trans ?_
  exact moveAll_waiting (by decide) _ 0 _ ip

theorem dataCheckTask_limited (he : ∀ n k, (envs n k).Reaches) (hs : Limited cfg.maxDataConnects s)
    (hroom : Room cfg.maxDataConnects s fun _ => 0) (hr : dataCheckTask cfg envs s = .ok t) :
    Limited cfg.maxDataConnects t := by
  let I : Storage → Prop := fun s => Limited cfg.maxDataConnects s ∧
    Room cfg.maxDataConnects s fun _ => 0
  have hall : I t := by
    refine dataCheckTask_keeps he ?_ ?_ (show I s from ⟨hs, hroom⟩) hr
    · rintro s pool ⟨⟨hlist, hcap⟩, hroom⟩ hwait
      refine ⟨⟨hlist, hcap⟩, fun ip => le_trans ?_ (hroom ip)⟩
      exact add_le_add_right (Nat.cast_le.mpr (hwait ip)) _
    · rintro s t i pool ⟨⟨hlist, hcap⟩, hroom⟩ hwait hround
      refine hround.keeps ⟨hlist, hcap⟩ fun ip => le_trans ?_ (hroom ip)
      exact add_le_add_right (Nat.cast_le.mpr (hwait ip)) _
  exact hall.1

theorem dataCheckTask_limited_succ (he : ∀ n k, (envs n k).Reaches)
    (hs : Limited (cfg.maxDataConnects + 1) s)
    (hr : dataCheckTask cfg envs s = .ok t) : Limited (cfg.maxDataConnects + 1) t := by
  refine dataCheckTask_keeps he ?_ ?_ hs hr
  · rintro s pool ⟨hlist, hcap⟩ -
    exact ⟨hlist, hcap⟩
  · rintro s t i pool ⟨hlist, hcap⟩ - hround
    exact hround.keeps_succ ⟨hlist, hcap⟩

end Pass

/-! ## 7. Every run -/

section Runs

variable {cfg : Cfg} {lim : Nat} {s : Storage}

theorem Limited.opensNone {t : Storage} (h : Limited lim s) (hq : OpensNone s t) :
    Limited lim t where
  listed := h.listed.opensNone hq
  capped := fun ip => (Set.encard_le_encard (hq.active ip)).trans (h.capped ip)

theorem limited_init (lim : Nat) : Limited lim Storage.init := by
  have hempty : ∀ ip, activeTo Storage.init ip = ∅ := by
    intro ip
    refine Set.eq_empty_of_forall_notMem ?_
    rintro fd ⟨p, hp, -⟩
    cases hp
  refine ⟨fun ip fd hfd => ?_, fun ip => ?_⟩
  · rw [hempty] at hfd
    cases hfd
  · rw [hempty, Set.encard_empty]
    exact zero_le

theorem limited_of_run {ok : Storage → Act → Prop}
    (hpass : ∀ s t envs, Limited lim s → ok s (.dataCheck envs) →
      dataCheckTask cfg envs s = .ok t → Limited lim t)
    (h : Run (next cfg) ok Storage.init s) : Limited lim s := by
  refine Run.inv (limited_init lim) (fun s t a hs ha hstep => ?_) h
  rw [next_eq_some] at hstep
  by_cases hcheck : ∃ envs, a = .dataCheck envs
  · obtain ⟨envs, rfl⟩ := hcheck
    exact hpass s t envs hs ha hstep
  · exact hs.opensNone ((step_opensNone fun envs ha => hcheck ⟨envs, ha⟩).of_ok hstep)

/-- The connections that a pass of `check_task` opens are to the addresses it opens them for. -/
def Dialled (_ : Storage) : Act → Prop
  | .dataCheck envs => ∀ n k, (envs n k).Reaches
  | _ => True

/-- Moreover, at a pass the connections in use to each address and the tasks that wait for it are
    together within `max_data_connects`. -/
def Roomy (cfg : Cfg) (s : Storage) : Act → Prop
  | .dataCheck envs => (∀ n k, (envs n k).Reaches) ∧
      ∀ ip, (busyTo s ip).encard + waitingFor s.pool ip ≤ cfg.maxDataConnects
  | _ => True

/-- In every state that is reached with such passes, there is at most one connection beyond
    `max_data_connects`. -/
theorem connections_le_succ (h : Run (next cfg) Dialled Storage.init s) (ip : UInt32) :
    (activeTo s ip).encard ≤ (cfg.maxDataConnects + 1 : Nat) :=
  (limited_of_run (fun _ _ _ hs he hr => dataCheckTask_limited_succ he hs hr) h).capped ip

/-- **At most `max_data_connects` connections are opened to an address**, in every state that is
    reached with passes under `Roomy`. -/
theorem connections_limited (h : Run (next cfg) (Roomy cfg) Storage.init s) (ip : UInt32) :
    (activeTo s ip).encard ≤ cfg.maxDataConnects :=
  (limited_of_run (fun _ _ _ hs hok hr => dataCheckTask_limited hok.1 hs hok.2 hr) h).capped ip

end Runs

/-- One connection to an address at most. -/
def oneConnCfg : Cfg := { smallCfg with maxDataConnects := 1 }

/-- A file of the storage 7 is to be fetched. -/
def fetchFrom7 : Act := .possFile (smallEnv 9) (ascii "/1/a") 7

/-- A pass of `check_task`, in which the system gives the descriptors from 20 on. -/
def dialPass : Act :=
  .dataCheck fun _ k => { smallEnv 9 with connect := fun ip => some (20 + k, ip) }

theorem dialPass_reaches (k : Nat) :
    { smallEnv 9 with connect := fun ip => some (20 + k, ip) }.Reaches := by
  intro ip fd peerip h
  cases h
  rfl

/-- One task, one pass: a connection to the storage is opened. -/
theorem connections_limited_one : ∃ s p,
    exec (next oneConnCfg) Storage.init [fetchFrom7, dialPass] = some s ∧
    s.conn 20 = some p ∧ p.mode = .active ∧ p.ip = 7 ∧
    ∀ ip, (activeTo s ip).encard ≤ oneConnCfg.maxDataConnects := by
  have hmeets : Meets (next oneConnCfg) (Roomy oneConnCfg) Storage.init [fetchFrom7, dialPass] := by
    refine ⟨trivial, fun s hs => ⟨⟨fun _ => dialPass_reaches, fun ip => ?_⟩, fun _ _ => trivial⟩⟩
    cases hs
    -- There is no connection yet, and one task.
    refine le_trans (add_le_add (Set.encard_le_encard (t := ∅) ?_)
      (Nat.cast_le.mpr countP_le_length)) ?_
    · rintro fd ⟨p, hp, -⟩
      cases hp
    · rw [Set.encard_empty, zero_add]
      exact Nat.cast_le.mpr (by decide)
  refine ⟨_, _, rfl, rfl, rfl, rfl, fun ip => ?_⟩
  exact connections_limited (run_of_exec [fetchFrom7, dialPass] .start hmeets rfl) ip

theorem connections_le_succ_two :
    ∃ s, exec (next oneConnCfg) Storage.init [fetchFrom7, fetchFrom7, dialPass] = some s ∧
      (activeTo s 7).encard ≤ (oneConnCfg.maxDataConnects + 1 : Nat) := by
  have hmeets : Meets (next oneConnCfg) Dialled Storage.init [fetchFrom7, fetchFrom7, dialPass] :=
    ⟨trivial, fun _ _ => ⟨trivial, fun _ _ => ⟨fun _ => dialPass_reaches, fun _ _ => trivial⟩⟩⟩
  exact ⟨_, rfl, connections_le_succ
    (run_of_exec [fetchFrom7, fetchFrom7, dialPass] .start hmeets rfl) 7⟩

/-- A file of a storage that is given by its name, which `str2ip` does not read. -/
def fetchFromName : Act := .possFile (smallEnv 9) (ascii "/1/a") 0xFFFFFFFF

/-- A pass in which `inet_pton` refuses the name, and the connection is to 127.0.0.1. -/
def strayPass (fd : Fd) : Act :=
  .dataCheck fun _ _ => { smallEnv 9 with connect := fun _ => some (fd, 0x7F000001) }

theorem one_lt_activeTo {s : Storage} {ip : UInt32} {a b : Fd} (hne : a ≠ b)
    (ha : a ∈ activeTo s ip)
    (hb : b ∈ activeTo s ip) : oneConnCfg.maxDataConnects < (activeTo s ip).encard := by
  refine lt_of_lt_of_le ?_ (Set.encard_le_encard (s := {a, b}) ?_)
  · rw [Set.encard_pair hne]
    exact Nat.cast_lt.mpr (by decide)
  · rintro fd (rfl | rfl)
    · exact ha
    · exact hb

/-- Two tasks, one pass: `get_ip_connect_count` gives 1 for the second, which is not above the limit
    of 1. And one task with a name, two passes: each of them opens a connection to 127.0.0.1, and
    puts the task back. -/
theorem connections_exceed :
    (∃ s, Reach (next oneConnCfg) Storage.init s ∧
      oneConnCfg.maxDataConnects < (activeTo s 7).encard) ∧
    ∃ s, Reach (next oneConnCfg) Storage.init s ∧
      oneConnCfg.maxDataConnects < (activeTo s 0x7F000001).encard :=
  ⟨⟨_, reach_of_exec [fetchFrom7, fetchFrom7, dialPass] .start rfl,
      @one_lt_activeTo _ _ 20 21 (by decide) ⟨_, rfl, rfl, rfl⟩ ⟨_, rfl, rfl, rfl⟩⟩,
    ⟨_, reach_of_exec [fetchFromName, strayPass 20, strayPass 21] .start rfl,
      @one_lt_activeTo _ _ 20 21 (by decide) ⟨_, rfl, rfl, rfl⟩ ⟨_, rfl, rfl, rfl⟩⟩⟩

end Pfs
