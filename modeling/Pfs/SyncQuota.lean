/-
  The daily quota of directory syncs (`check_count_one_day`, `do_active_sync` of
  network/S/pfs_sig_base.c; the limit is read by `reload_config` of network/pfs_init.c).

  `check_count_one_day` charges a call before `do_active_sync` has looked at the spacing, the
  backlog, the time of day, the list and the members, and begins a new day whenever it is asked
  86400 seconds after the last one began. Marks: the clock of the last `svc_timeout`, and the times
  at which a directory was sent to somebody.

  Main results: `QuotaInv.next`, `quota_counts`, `quota_miscounts`.
-/
import Pfs.Lib.RateWindow
import Pfs.DirSync

namespace Pfs

open Lib

/-! ## 1. Steps -/

/-- `g_config.sync_dir_count` of `reload_config`: eight bits of the configured value. -/
def reloadSyncDirCount (configured : Int) : Nat := (configured % 256).toNat

structure QuotaSt where
  s : SyncSt
  clock : Int
  dispatched : List Int

def QuotaSt.init (stat : SelfStat) : QuotaSt := ⟨.init stat, 0, []⟩

/-- The marks: a `svc_timeout` that comes to `do_sub_sync` has sent a directory. -/
def QuotaSt.mark (x : QuotaSt) (s : SyncSt) : SyncAct → QuotaSt
  | .timeout e => ⟨s, e.now, if x.s.log.length < s.log.length then
    e.now :: x.dispatched else x.dispatched⟩
  | _ => { x with s := s }

/-- A step of the requests, with its time if one is sent. -/
def quotaNext (cfg : SyncCfg) (x : QuotaSt) (a : SyncAct) : Option QuotaSt :=
  (syncNext cfg x.s a).map fun s => x.mark s a

theorem quotaNext_timeout (cfg : SyncCfg) (x : QuotaSt) (e : SyncEnv) :
    quotaNext cfg x (.timeout e) = some ⟨x.s.svcTimeout cfg e, e.now,
      if x.s.log.length < (x.s.svcTimeout cfg e).log.length then e.now :: x.dispatched
      else x.dispatched⟩ :=
  rfl

def Ticks (x : QuotaSt) : SyncAct → Prop
  | .timeout e => x.clock ≤ e.now
  | _ => True

/-- `svc_timeout` comes to `check_count_one_day`. -/
def SyncSt.Asks (e : SyncEnv) (s : SyncSt) : Prop := s.CallsActiveSync e ∧ s.initSyncFlag = true

/-- `check_count_one_day` refuses. -/
def SyncSt.Refused (cfg : SyncCfg) (e : SyncEnv) (s : SyncSt) : Prop :=
  s.Asks e ∧ (SyncSt.checkCountOneDay cfg e.now s.gate).1 = false

/-- `check_count_one_day` charges the call. -/
def SyncSt.Charged (cfg : SyncCfg) (e : SyncEnv) (s : SyncSt) : Prop :=
  s.Asks e ∧ (SyncSt.checkCountOneDay cfg e.now s.gate).1 = true

/-- Nothing behind `check_count_one_day` stops `do_active_sync`. -/
def SyncSt.Clear (cfg : SyncCfg) (e : SyncEnv) (s : SyncSt) : Prop :=
  cfg.syncDirSpan ≤ e.now - s.gate.lastSync ∧ e.running < 1024 ∧ e.inWindow = true ∧
    s.links.next none ≠ none ∧ s.targets cfg cfg.members ≠ []

/-! ## 2. One `svc_timeout` -/

section Tick

variable {cfg : SyncCfg} {e : SyncEnv} {s : SyncSt}

theorem wake_of_calls (h : s.CallsActiveSync e) :
    (s.wake e).selfStat = .waitSync ∧ (s.wake e).flag = .idle := by
  unfold SyncSt.wake
  obtain hu | ⟨hw, hf⟩ := h
  · simp [hu]
  have hu : s.selfStat ≠ .unknown := by rw [hw]; decide
  obtain hf | ⟨hf, hlong⟩ := hf
  · simp [hw, hf]
  · simp [hw, hf, hlong]

theorem activeLoop_log_le (now : Int) (i : SyncId) (ms : List Member) (s : SyncSt) :
    s.log.length ≤ (s.activeLoop cfg now i ms).log.length ∧ (s.activeLoop cfg now i ms).gate =
      s.gate := by
  induction ms generalizing s with
  | nil => exact ⟨Nat.le_refl _, rfl⟩
  | cons m ms ih =>
    unfold SyncSt.activeLoop
    split
    · cases s.findIpStat m.ip with
      | none => exact ih s
      | some p =>
        have hlog : (s.doSubSync now i p).log.length = s.log.length + 1 := List.length_append
        obtain ⟨hle, hgate⟩ := ih (s.doSubSync now i p)
        simp only
        exact ⟨by omega, hgate⟩
    · exact ih s

theorem activeLoop_log_lt (now : Int) (i : SyncId) {ms : List Member} (h : s.targets cfg ms ≠ []) :
    s.log.length < (s.activeLoop cfg now i ms).log.length := by
  induction ms with
  | nil => exact absurd rfl h
  | cons m ms ih =>
    unfold SyncSt.targets at h ih
    rw [List.filterMap_cons] at h
    unfold SyncSt.activeLoop
    by_cases hel : cfg.eligible m
    · rw [if_pos hel] at h ⊢
      cases hfind : s.findIpStat m.ip with
      | none =>
        rw [hfind] at h
        exact ih h
      | some p =>
        have hlog : (s.doSubSync now i p).log.length = s.log.length + 1 := List.length_append
        have hle := (@activeLoop_log_le cfg now i ms (s.doSubSync now i p)).1
        simp only
        omega
    · rw [if_neg hel] at h ⊢
      exact ih h

theorem startSync_sends (htask : s.links.next none ≠ none)
    (htarget : s.targets cfg cfg.members ≠ []) :
    (s.startSync cfg e).gate = s.gate ∧ s.log.length < (s.startSync cfg e).log.length := by
  unfold SyncSt.startSync
  cases hnext : s.links.next none with
  | none => exact absurd hnext htask
  | some i => exact ⟨(activeLoop_log_le e.now i cfg.members s).2, activeLoop_log_lt e.now i htarget⟩

theorem lastSync_checkCountOneDay (cfg : SyncCfg) (now : Int) (g : SyncGate) :
    (SyncSt.checkCountOneDay cfg now g).2.lastSync = g.lastSync := by
  unfold SyncSt.checkCountOneDay
  by_cases h0 : g.dayLast = 0
  · simp only [if_pos h0]
    split
    · rfl
    · split <;> rfl
  · simp only [if_neg h0]
    split
    · rfl
    · split <;> rfl

theorem doActiveSync_quota (hinit : s.initSyncFlag = true) :
    ((SyncSt.checkCountOneDay cfg e.now s.gate).1 = false ∧
        (s.doActiveSync cfg e).gate = (SyncSt.checkCountOneDay cfg e.now s.gate).2 ∧
        (s.doActiveSync cfg e).log = s.log) ∨
      ((SyncSt.checkCountOneDay cfg e.now s.gate).1 = true ∧
        (s.Clear cfg e →
          (s.doActiveSync cfg e).gate =
              { (SyncSt.checkCountOneDay cfg e.now s.gate).2 with lastSync := e.now } ∧
            s.log.length < (s.doActiveSync cfg e).log.length)) := by
  unfold SyncSt.doActiveSync
  rw [if_pos hinit]
  have hlast := lastSync_checkCountOneDay cfg e.now s.gate
  generalize SyncSt.checkCountOneDay cfg e.now s.gate = r at hlast
  obtain ⟨admitted, g⟩ := r
  simp only at hlast
  cases admitted with
  | false => exact .inl ⟨rfl, rfl, rfl⟩
  | true =>
    refine .inr ⟨rfl, ?_⟩
    rintro ⟨hspan, hback, hwin, htask, htarget⟩
    rw [← hlast] at hspan
    simp only [hspan, hback, hwin, and_self, if_true]
    exact startSync_sends (s := { s with gate := { g with lastSync := e.now } }) htask htarget

theorem svcTimeout_of_calls (h : s.CallsActiveSync e) :
    ∃ st f, (s.svcTimeout cfg e).gate =
      (SyncSt.doActiveSync cfg e { s with selfStat := st, flag := f }).gate ∧
      (s.svcTimeout cfg e).log =
        (SyncSt.doActiveSync cfg e { s with selfStat := st, flag := f }).log := by
  obtain ⟨hstat, hflag⟩ := wake_of_calls h
  obtain ⟨st, f, hwake⟩ := wake_eq e s
  refine ⟨st, f, ?_⟩
  rw [← hwake]
  simp only [SyncSt.svcTimeout, hstat, hflag, if_true, SyncSt.goOnLine]
  split <;> exact ⟨rfl, rfl⟩

theorem svcTimeout_of_not_calls (h : ¬ s.CallsActiveSync e) :
    (s.svcTimeout cfg e).gate = s.gate ∧ (s.svcTimeout cfg e).log = s.log := by
  have hnot : (s.wake e).selfStat = .waitSync → (s.wake e).flag ≠ .idle :=
    fun hs hf => h (calls_of_wake hs hf)
  obtain ⟨st, f, hwake⟩ := wake_eq e s
  rw [hwake] at hnot
  simp only [SyncSt.svcTimeout, hwake]
  split
  · rename_i hs
    rw [if_neg (hnot hs), SyncSt.goOnLine]
    split <;> exact ⟨rfl, rfl⟩
  · exact ⟨rfl, rfl⟩

/-- **One `svc_timeout`**: it does not ask, is refused, or is charged. -/
theorem svcTimeout_quota (cfg : SyncCfg) (e : SyncEnv) (s : SyncSt) :
    (¬ s.Asks e ∧ (s.svcTimeout cfg e).gate = s.gate ∧ (s.svcTimeout cfg e).log = s.log) ∨
      (s.Refused cfg e ∧
        (s.svcTimeout cfg e).gate = (SyncSt.checkCountOneDay cfg e.now s.gate).2 ∧
        (s.svcTimeout cfg e).log = s.log) ∨
      (s.Charged cfg e ∧
        (s.Clear cfg e →
          (s.svcTimeout cfg e).gate =
              { (SyncSt.checkCountOneDay cfg e.now s.gate).2 with lastSync := e.now } ∧
            s.log.length < (s.svcTimeout cfg e).log.length)) := by
  by_cases hcalls : s.CallsActiveSync e
  · obtain ⟨st, f, hgate, hlog⟩ := @svcTimeout_of_calls cfg e s hcalls
    rw [hgate, hlog]
    by_cases hinit : s.initSyncFlag = true
    · refine .inr ((@doActiveSync_quota cfg e { s with selfStat := st, flag := f } hinit).imp ?_ ?_)
      · exact fun ⟨hno, hrest⟩ => ⟨⟨⟨hcalls, hinit⟩, hno⟩, hrest⟩
      · exact fun ⟨hyes, hrest⟩ => ⟨⟨⟨hcalls, hinit⟩, hyes⟩, hrest⟩
    · refine .inl ⟨fun hasks => hinit hasks.2, ?_⟩
      unfold SyncSt.doActiveSync
      simp [hinit]
  · exact .inl ⟨fun hasks => hcalls hasks.1, svcTimeout_of_not_calls hcalls⟩

end Tick

/-! ## 3. The same timetable for every day -/

/-- A call that is charged sends a directory; the first call of a day apart, it comes `g c` seconds
    after the day began, when `c` calls were charged before it. The clock runs and does not go
    back. -/
def OnTime (cfg : SyncCfg) (g : Nat → Nat) (x : QuotaSt) : SyncAct → Prop
  | .timeout e => x.clock ≤ e.now ∧ 0 < e.now ∧
      (x.s.Charged cfg e → x.s.Clear cfg e ∧
        (0 < x.s.gate.dayCount → x.s.gate.dayCount < cfg.syncDirCount →
          e.now = x.s.gate.dayLast + g x.s.gate.dayCount))
  | _ => True

/-- The count is that of the current window; `n` requests later, a day has passed. -/
structure QuotaInv (g : Nat → Nat) (n : Nat) (x : QuotaSt) : Prop where
  count : x.s.gate.dayCount ≤ n
  fresh : x.s.gate.dayCount = 0 → x.s.gate.dayLast = 0 ∧ x.dispatched = []
  started : 0 < x.s.gate.dayCount → 0 < x.s.gate.dayLast
  windows : Windows g 86400 n x.s.gate.dayLast x.s.gate.dayCount x.dispatched
  past : ∀ t ∈ x.dispatched, t ≤ x.clock
  spaced : Spaced 86400 n x.dispatched

section Inv

variable {cfg : SyncCfg} {g : Nat → Nat} {x x' : QuotaSt} {e : SyncEnv}

theorem quotaInv_init (stat : SelfStat) : QuotaInv g cfg.syncDirCount (QuotaSt.init stat) where
  count := Nat.zero_le _
  fresh := fun _ => ⟨rfl, rfl⟩
  started := fun h => absurd h (Nat.lt_irrefl 0)
  windows := Windows.nil
  past := fun _ h => absurd h List.not_mem_nil
  spaced := trivial

theorem QuotaInv.dayLast_ne (h : QuotaInv g cfg.syncDirCount x) (hpos : 0 < x.s.gate.dayCount) :
    x.s.gate.dayLast ≠ 0 := by
  have := h.started hpos
  omega

theorem QuotaInv.refused (h : QuotaInv g cfg.syncDirCount x) (hn : 0 < cfg.syncDirCount)
    (hno : (SyncSt.checkCountOneDay cfg e.now x.s.gate).1 = false) :
    (SyncSt.checkCountOneDay cfg e.now x.s.gate).2 = x.s.gate ∧
      x.s.gate.dayCount = cfg.syncDirCount ∧ e.now < x.s.gate.dayLast + 86400 := by
  have hcount := h.count
  unfold SyncSt.checkCountOneDay at hno ⊢
  by_cases hpos : 0 < x.s.gate.dayCount
  · simp only [if_neg (h.dayLast_ne hpos)] at hno ⊢
    split at hno
    · cases hno
    split at hno
    · cases hno
    rename_i hfull hday
    rw [if_neg hfull, if_neg hday]
    exact ⟨rfl, by omega, by omega⟩
  · have hless : x.s.gate.dayCount < cfg.syncDirCount := by omega
    simp only [if_pos (h.fresh (by omega)).1, if_pos hless] at hno
    cases hno

theorem QuotaInv.charged (h : QuotaInv g cfg.syncDirCount x)
    (hyes : (SyncSt.checkCountOneDay cfg e.now x.s.gate).1 = true) :
    (x.s.gate.dayCount = 0 ∧ (SyncSt.checkCountOneDay cfg e.now x.s.gate).2 =
        { x.s.gate with dayLast := e.now, dayCount := 1 }) ∨
      (0 < x.s.gate.dayCount ∧ x.s.gate.dayCount < cfg.syncDirCount ∧
        (SyncSt.checkCountOneDay cfg e.now x.s.gate).2 =
          { x.s.gate with dayCount := x.s.gate.dayCount + 1 }) ∨
      (0 < x.s.gate.dayCount ∧ x.s.gate.dayCount = cfg.syncDirCount ∧
        x.s.gate.dayLast + 86400 ≤ e.now ∧
        (SyncSt.checkCountOneDay cfg e.now x.s.gate).2 =
          { x.s.gate with dayLast := e.now, dayCount := 1 }) := by
  have hcount := h.count
  unfold SyncSt.checkCountOneDay at hyes ⊢
  by_cases hpos : 0 < x.s.gate.dayCount
  · simp only [if_neg (h.dayLast_ne hpos)] at hyes ⊢
    split at hyes
    · rename_i hless
      rw [if_pos hless]
      exact .inr (.inl ⟨hpos, hless, rfl⟩)
    split at hyes
    · rename_i hfull hday
      rw [if_neg hfull, if_pos hday]
      exact .inr (.inr ⟨hpos, by omega, by omega, rfl⟩)
    · cases hyes
  · have hzero : x.s.gate.dayCount = 0 := by omega
    refine .inl ⟨hzero, ?_⟩
    simp only [if_pos (h.fresh hzero).1, hzero] at hyes ⊢
    split
    · rfl
    split
    · rfl
    rename_i hfull hday
    rw [if_neg hfull, if_neg hday] at hyes
    cases hyes

variable {s : SyncSt}

theorem QuotaInv.of_day {n c : Nat} {start now : Int} {ts : List Int}
    (hstart : s.gate.dayLast = start) (hcount : s.gate.dayCount = c) (hpos : 0 < c) (hc : c ≤ n)
    (hday : 0 < start) (hw : Windows g 86400 n start c ts) (hpast : ∀ t ∈ ts, t ≤ now)
    (hspaced : Spaced 86400 n ts) : QuotaInv g n ⟨s, now, ts⟩ := by
  subst hstart hcount
  exact ⟨hc, fun hzero => absurd hzero (Nat.ne_of_gt hpos), fun _ => hday, hw, hpast, hspaced⟩

theorem QuotaInv.send (h : QuotaInv g cfg.syncDirCount x) (hn : 0 < cfg.syncDirCount)
    (hg : Monotone g) (hg0 : g 0 = 0) (hclock : x.clock ≤ e.now) (hnow : 0 < e.now)
    (hyes : (SyncSt.checkCountOneDay cfg e.now x.s.gate).1 = true)
    (htime : 0 < x.s.gate.dayCount → x.s.gate.dayCount < cfg.syncDirCount →
      e.now = x.s.gate.dayLast + g x.s.gate.dayCount) (hgate :
    s.gate = { (SyncSt.checkCountOneDay cfg e.now x.s.gate).2 with lastSync := e.now }) :
    QuotaInv g cfg.syncDirCount ⟨s, e.now, e.now :: x.dispatched⟩ := by
  have hlast : ∀ t ∈ x.dispatched, t ≤ e.now := fun t ht => Int.le_trans (h.past t ht) hclock
  have hpast : ∀ t ∈ e.now :: x.dispatched, t ≤ e.now :=
    List.forall_mem_cons.mpr ⟨Int.le_refl _, hlast⟩
  obtain ⟨hzero, hcheck⟩ | ⟨hpos, hless, hcheck⟩ | ⟨hpos, hfull, hday, hcheck⟩ := h.charged hyes
  · have hnil := (h.fresh hzero).2
    rw [hcheck] at hgate
    rw [hnil] at hpast ⊢
    obtain ⟨hw, hold⟩ := @Windows.same g 86400 cfg.syncDirCount 0 e.now [] hg hg0 .nil hn
      (fun _ h => absurd h List.not_mem_nil)
    rw [hg0, Int.natCast_zero, Int.add_zero] at hw hold
    exact .of_day (by rw [hgate]) (by rw [hgate]) Nat.one_pos hn hnow hw hpast ⟨hold, trivial⟩
  · rw [hcheck] at hgate
    have hnow' := htime hpos hless
    rw [hnow'] at hlast
    obtain ⟨hw, hold⟩ := h.windows.same hg hg0 hless hlast
    rw [← hnow'] at hw hold
    exact .of_day (by rw [hgate]) (by rw [hgate]) (Nat.succ_pos _) hless (h.started hpos) hw hpast
      ⟨hold, h.spaced⟩
  · rw [hcheck] at hgate
    have hw := h.windows
    rw [hfull] at hw
    obtain ⟨hw, hold⟩ := hw.fresh hg0 hn hday hlast
    exact .of_day (by rw [hgate]) (by rw [hgate]) Nat.one_pos hn hnow hw hpast ⟨hold, h.spaced⟩

theorem syncNext_quota {s' : SyncSt} {a : SyncAct} (ha : ∀ e, a ≠ .timeout e)
    (hs : syncNext cfg s a = some s') : s'.gate = s.gate := by
  cases a with
  | timeout e => exact absurd rfl (ha e)
  | initDone =>
    cases hs
    rfl
  | connect ip =>
    cases hs
    rfl
  | gen =>
    cases hs
    unfold SyncSt.genSync
    split <;> rfl
  | close conn =>
    cases hs
    unfold SyncSt.close
    split
    · rfl
    · dsimp only
      split <;> rfl
  | response conn k =>
    cases hs
    unfold SyncSt.response
    split <;> rfl

theorem QuotaInv.keep {clock : Int} (h : QuotaInv g cfg.syncDirCount x)
    (hgate : s.gate = x.s.gate) (hclock : x.clock ≤ clock) :
    QuotaInv g cfg.syncDirCount ⟨s, clock, x.dispatched⟩ := by
  obtain ⟨hcount, hfresh, hstarted, hwindows, hpast, hspaced⟩ := h
  rw [← hgate] at hcount hfresh hstarted hwindows
  exact ⟨hcount, hfresh, hstarted, hwindows, fun t ht => Int.le_trans (hpast t ht) hclock, hspaced⟩

section Steps

variable (hn : 0 < cfg.syncDirCount) (hg : Monotone g) (hg0 : g 0 = 0)
  (h : QuotaInv g cfg.syncDirCount x)

include hn hg hg0 h

theorem QuotaInv.timeout (hok : OnTime cfg g x (.timeout e))
    (hs : quotaNext cfg x (.timeout e) = some x') : QuotaInv g cfg.syncDirCount x' := by
  obtain ⟨hclock, hnow, hcharged⟩ := hok
  rw [quotaNext_timeout] at hs
  cases hs
  obtain ⟨-, hgate, hlog⟩ | ⟨hno, hgate, hlog⟩ | ⟨hyes, hsend⟩ := svcTimeout_quota cfg e x.s
  · rw [hlog, if_neg (Nat.lt_irrefl _)]
    exact h.keep hgate hclock
  · rw [hlog, if_neg (Nat.lt_irrefl _)]
    exact h.keep (hgate.trans (h.refused hn hno.2).1) hclock
  · obtain ⟨hclear, htime⟩ := hcharged hyes
    obtain ⟨hgate, hlog⟩ := hsend hclear
    rw [if_pos hlog]
    exact h.send hn hg hg0 hclock hnow hyes.2 htime hgate

theorem QuotaInv.next {a : SyncAct} (hok : OnTime cfg g x a) (hs : quotaNext cfg x a = some x') :
    QuotaInv g cfg.syncDirCount x' := by
  have hother : (∀ e, a ≠ .timeout e) → ∀ s, syncNext cfg x.s a = some s →
      QuotaInv g cfg.syncDirCount { x with s := s } :=
    fun ha s hs => h.keep (syncNext_quota ha hs) (Int.le_refl _)
  cases a with
  | timeout e => exact h.timeout hn hg hg0 hok hs
  | gen | initDone | connect | close | response =>
    cases hs
    exact hother (fun _ => SyncAct.noConfusion) _ rfl

end Steps

end Inv

/-! ## 4. The quota -/

/-- **The quota counts requests**, when the configured number fits eight bits and is not 0, whatever
    is charged is sent and every day has the same timetable. -/
theorem quota_counts {cfg : SyncCfg} {configured : Int} {g : Nat → Nat} {stat : SelfStat}
    {x : QuotaSt} (hcfg : cfg.syncDirCount = reloadSyncDirCount configured) (hpos : 0 < configured)
    (hlt : configured < 256) (hg : Monotone g) (hg0 : g 0 = 0)
    (hrun : Run (quotaNext cfg) (OnTime cfg g) (QuotaSt.init stat) x) :
    (∀ e : SyncEnv, x.clock ≤ e.now → x.s.Refused cfg e →
        configured ≤ within 86400 (e.now - 86400) x.dispatched) ∧
      ∀ t, within 86400 t x.dispatched ≤ configured := by
  have hcount : (cfg.syncDirCount : Int) = configured := by
    rw [hcfg, reloadSyncDirCount]
    omega
  have hn : 0 < cfg.syncDirCount := by omega
  have hinv := hrun.inv (quotaInv_init stat) fun _ _ _ h hok hs => h.next hn hg hg0 hok hs
  constructor
  · intro e hclock hno
    obtain ⟨-, hfull, hday⟩ := hinv.refused hn hno.2
    have hle := hinv.windows.le_within (t := e.now - 86400) (by omega) fun u hu => by
      have := hinv.past u hu
      omega
    omega
  · intro t
    have := hinv.spaced.within_le hn t
    omega

/-! ### Runs -/

instance (e : SyncEnv) (s : SyncSt) : Decidable (s.Asks e) := inferInstanceAs (Decidable (_ ∧ _))

instance (cfg : SyncCfg) (e : SyncEnv) (s : SyncSt) : Decidable (s.Charged cfg e) :=
  inferInstanceAs (Decidable (_ ∧ _))

instance (cfg : SyncCfg) (e : SyncEnv) (s : SyncSt) : Decidable (s.Clear cfg e) :=
  inferInstanceAs (Decidable (_ ∧ _ ∧ _ ∧ _ ∧ _))

instance decidableOnTime (cfg : SyncCfg) (g : Nat → Nat) (x : QuotaSt) :
    ∀ a, Decidable (OnTime cfg g x a)
  | .timeout e => inferInstanceAs (Decidable (x.clock ≤ e.now ∧ 0 < e.now ∧
      (x.s.Charged cfg e → x.s.Clear cfg e ∧
        (0 < x.s.gate.dayCount → x.s.gate.dayCount < cfg.syncDirCount →
          e.now = x.s.gate.dayLast + g x.s.gate.dayCount))))
  | .gen | .initDone | .connect _ | .close _ | .response _ _ => isTrue trivial

instance decidableTicks (x : QuotaSt) : ∀ a, Decidable (Ticks x a)
  | .timeout e => inferInstanceAs (Decidable (x.clock ≤ e.now))
  | .gen | .initDone | .connect _ | .close _ | .response _ _ => isTrue trivial

/-- A domain of two, with the given number of syncs a day. -/
def quotaCfg (configured : Int) : SyncCfg :=
  { syncWith [2] with syncDirCount := reloadSyncDirCount configured }

/-- A `svc_timeout` at a time, with a number of directory tasks. -/
def tickAt (now : Int) (running : Nat) : SyncAct := .timeout ⟨now, now, running, true⟩

/-- The plan of four directories, and the other member. -/
def fourDirs : List SyncAct := [.gen, .gen, .gen, .gen, .initDone, .connect 2]

/-- Two directories in the first day, refused before it is over, and the third one in the next
    day. -/
def steadyDays : List SyncAct :=
  fourDirs ++ [tickAt 1000 0, .response 0 0, tickAt 1300 0, .response 0 1, tickAt 1600 0,
    tickAt 87400 0]

theorem quota_counts_two : ∃ x : QuotaSt, x.dispatched = [87400, 1300, 1000] ∧
    (∀ e : SyncEnv, x.clock ≤ e.now → x.s.Refused (quotaCfg 2) e →
      (2 : Int) ≤ within 86400 (e.now - 86400) x.dispatched) ∧
    ∀ t, within 86400 t x.dispatched ≤ (2 : Int) := by
  have hmeets : Meets (quotaNext (quotaCfg 2)) (OnTime (quotaCfg 2) fun c =>
      300 * c) (QuotaSt.init .unknown)
      steadyDays := by decide +kernel
  have hmono : Monotone fun c => 300 * c := fun a b h => Nat.mul_le_mul_left 300 h
  exact ⟨_, rfl, @quota_counts (quotaCfg 2) 2 (fun c => 300 * c) .unknown _ rfl (by decide)
    (by decide) hmono rfl (run_of_exec steadyDays .start hmeets rfl)⟩

/-- One sync a day: a backlog stops the first call, and the second one is refused. -/
def backlogged : List SyncAct := fourDirs ++ [tickAt 1000 1024]

/-- Two syncs a day: one late on the first day, two early on the second. -/
def lateAndEarly : List SyncAct :=
  fourDirs ++ [tickAt 1000 0, .response 0 0, tickAt 87000 0, .response 0 1, tickAt 87400 0,
    .response 0 2, tickAt 87500 0]

/-- A call is refused though nothing was ever sent; and three directories are sent within 24 hours
    where two are allowed. -/
theorem quota_miscounts :
    (∃ x, Run (quotaNext (quotaCfg 1)) Ticks (QuotaSt.init .unknown) x ∧ x.dispatched = [] ∧
      x.s.Refused (quotaCfg 1) ⟨1001, 1001, 0, true⟩) ∧
    ∃ x, Run (quotaNext (quotaCfg 2)) Ticks (QuotaSt.init .unknown) x ∧
      within 86400 1100 x.dispatched = 3 := by
  have hback : Meets (quotaNext (quotaCfg 1)) Ticks (QuotaSt.init .unknown) backlogged := by
    decide +kernel
  have hlate : Meets (quotaNext (quotaCfg 2)) Ticks (QuotaSt.init .unknown) lateAndEarly := by
    decide +kernel
  refine ⟨⟨_, run_of_exec backlogged .start hback rfl, rfl, ?_⟩, _,
    run_of_exec lateAndEarly .start hlate rfl, ?_⟩
  · exact ⟨⟨.inr ⟨rfl, .inl rfl⟩, rfl⟩, by decide +kernel⟩
  · decide +kernel

end Pfs
