/-
  The storage keeps a book: its steps are turns of the book.

  A delayed task says which operation it reports and to whom. The two queues of such tasks are seen
  as lists of that (`Pool.line`), and so are the steps: `pfs_get_task` takes the head of one list,
  `pfs_set_task` appends, everything else leaves both lists alone.

  Main result: `step_turn`.
-/
import Pfs.Watch.Run

namespace Pfs

open Lib List

/-! ## 1. The view -/

/-- What a delayed task reports, and to whom. -/
def Tasklist.entry (n : Tasklist) : Entry := (n.op, n.sub.peerip)

def Pool.line (p : Pool) (q : TaskQ) : List Entry := (p.q q).map fun i => (p.node i).entry

section Lines

variable {p p' r : Pool} {i j : NodeId} {q : TaskQ} {e : Env}

/-- What a queue carries: its nodes, in order, with their tasks. -/
def Pool.carried (p : Pool) (q : TaskQ) : List (NodeId × Item) :=
  (p.q q).map fun i => (i, (p.node i).item)

theorem line_eq (p : Pool) (q : TaskQ) :
    p.line q = (p.carried q).map fun x => (x.2.op, x.2.sub.peerip) := by
  unfold Pool.line Pool.carried
  rw [map_map]
  rfl

theorem carried_fst (p : Pool) (q : TaskQ) : (p.carried q).map Prod.fst = p.q q := by
  unfold Pool.carried
  rw [map_map]
  exact map_id _

theorem carried_congr (hq : p'.q q = p.q q) (hn : ∀ j ∈ p.q q, (p'.node j).item = (p.node j).item) :
    p'.carried q = p.carried q := by
  unfold Pool.carried
  rw [hq]
  exact map_congr_left fun j hj => by rw [hn j hj]

theorem line_congr (hq : p'.q q = p.q q) (hn : ∀ j ∈ p.q q, (p'.node j).item = (p.node j).item) :
    p'.line q = p.line q := by
  rw [line_eq, line_eq, carried_congr hq hn]

theorem line_of_same (h : SameDelayed r p) (hd : q.Delayed) : p.line q = r.line q :=
  line_congr (h.queue q hd) (h.item q hd)

theorem carried_modify (hi : i ∉ p.q q) (f : Tasklist → Tasklist) :
    (p.modify i f).carried q = p.carried q := by
  refine carried_congr rfl fun j hj => ?_
  rw [node_modify_ne]
  rintro rfl
  exact hi hj

theorem line_modify (hi : i ∉ p.q q) (f : Tasklist → Tasklist) :
    (p.modify i f).line q = p.line q := by
  rw [line_eq, line_eq, carried_modify hi]

theorem carried_set (hi : ∀ q, i ∉ p.q q) (e : Env) (q r : TaskQ) : (e.set i q p).carried r =
    if e.setLock q = true ∧ r = q then p.carried r ++ [(i, (p.node i).item)] else p.carried r := by
  have hun : (p.unlink i).q r = p.q r := filter_ne_self (hi r)
  unfold Pool.carried
  simp only [item_set, Env.q_set, hun]
  by_cases hlock : e.setLock q = true
  · by_cases hr : r = q
    · simp [hr, hlock]
    · simp [hr]
  · simp [hlock]

theorem line_set (hi : ∀ q, i ∉ p.q q) (e : Env) (q r : TaskQ) : (e.set i q p).line r =
    if e.setLock q = true ∧ r = q then p.line r ++ [(p.node i).entry] else p.line r := by
  rw [line_eq, line_eq, carried_set hi]
  split
  · rw [map_append]
    rfl
  · rfl

end Lines

/-! ## 2. Tasks in hand -/

section Hand

variable {P : Place → Item → Prop} {sl : Slot → Option NodeId} {p p' : Pool} {i : NodeId} {e : Env}
variable {q r : TaskQ}

theorem InHand.notMem {o : Option Slot} (h : InHand P p sl i ⟨none, o⟩) (q : TaskQ) :
    i ∉ p.q q := by
  obtain ⟨loc, ht, hl, -⟩ := h
  intro hi
  have hlink := (ht.link i q).mp hi
  rw [hl] at hlink
  cases hlink

theorem carried_get (h : Stored P p sl) (hq : q ≠ .home) (hg : e.get q p = some (i, p')) :
    p.carried q = (i, (p'.node i).item) :: p'.carried q := by
  have hnodup := h.nodup q
  have hitem (j : NodeId) : (p.node j).item = (p'.node j).item := (item_get hg j).symm
  obtain ⟨js, hl, rfl⟩ | ⟨hhome, -, -⟩ := Env.get_cases hg
  · rw [hl] at hnodup
    have hrest : (p.q q).filter (· != i) = js := by
      rw [hl, filter_cons_of_neg (by simp)]
      exact filter_ne_self (nodup_cons.mp hnodup).1
    unfold Pool.carried
    rw [hl, map_cons, hitem]
    show _ = _ :: List.map _ ((p.q q).filter (· != i))
    rw [hrest]
    exact congrArg _ (map_congr_left fun j _ => by rw [hitem])
  · exact absurd hhome hq

theorem line_get (h : Stored P p sl) (hq : q ≠ .home) (hg : e.get q p = some (i, p')) :
    p.line q = (p'.node i).entry :: p'.line q := by
  rw [line_eq, line_eq, carried_get h hq hg]
  rfl

theorem carried_get_ne (h : Stored P p sl) (hr : r ≠ q) (hg : e.get q p = some (i, p')) :
    p'.carried r = p.carried r := by
  have hi := h.get_notMem hr hg
  refine carried_congr ?_ fun j _ => item_get hg j
  obtain ⟨js, -, rfl⟩ | ⟨-, rfl, rfl⟩ := Env.get_cases hg
  · exact filter_ne_self hi
  · rfl

theorem line_get_ne (h : Stored P p sl) (hr : r ≠ q) (hg : e.get q p = some (i, p')) :
    p'.line r = p.line r := by
  rw [line_eq, line_eq, carried_get_ne h hr hg]

theorem get_eq_none (hlock : e.getLock q = true) (hg : e.get q p = none) : p.line q = [] := by
  unfold Env.get pfsGetTask at hg
  rw [if_pos hlock] at hg
  split at hg
  · cases hg
  rename_i hl
  unfold Pool.line
  rw [hl]
  rfl

variable {W : Watch} {datadir : Path}

/-- **A task goes from one queue to another**: from the head of the one to the end of the other, or
    it is lost when the lock is not obtained. -/
theorem line_move (dst : TaskQ) (h : Held W datadir p sl)
    (hq : Free W q) (hhome : q ≠ .home) (hg : e.get q p = some (i, p')) (hne : q ≠ dst) :
    p.line q = (p'.node i).entry :: (e.set i dst p').line q ∧
      (e.set i dst p').line dst =
        p.line dst ++ (if e.setLock dst = true then [(p'.node i).entry] else []) ∧
      ∀ r, r ≠ q → r ≠ dst → (e.set i dst p').line r = p.line r := by
  obtain ⟨hloose, -⟩ := h.take hq hg
  have hout := hloose.inHand.notMem
  refine ⟨?_, ?_, fun r hr hr' => ?_⟩
  · rw [line_set hout, if_neg fun h => hne h.2]
    exact line_get h.stored hhome hg
  · rw [line_set hout, line_get_ne h.stored (Ne.symm hne) hg]
    by_cases hl : e.setLock dst = true
    · rw [if_pos ⟨hl, rfl⟩, if_pos hl]
    · rw [if_neg fun h => hl h.1, if_neg hl, append_nil]
  · rw [line_set hout, if_neg fun h => hr' h.2]
    exact line_get_ne h.stored hr hg

section New

variable (h : Held W datadir p sl) (hg : e.get .home p = some (i, p')) (now : Int) (base : TaskBase)
  (sub : TaskSub) (op : Option Nat) (hr : r ≠ .home)

include h hg now base sub op hr

theorem carried_new : (e.set i q (p'.create i now base sub op)).carried r =
      if e.setLock q = true ∧ r = q then p.carried r ++ [(i, ⟨base, sub, now, op⟩)]
      else p.carried r := by
  obtain ⟨hloose, -⟩ := h.take (free (by decide)) hg
  have hout : ∀ q, i ∉ p'.q q := hloose.inHand.notMem
  have hcarried : (p'.create i now base sub op).carried r = p.carried r :=
    (carried_modify (hout r) _).trans (carried_get_ne h.stored hr hg)
  have hitem : ((p'.create i now base sub op).node i).item = ⟨base, sub, now, op⟩ := by
    rw [Pool.create, node_modify_self]
    rfl
  rw [carried_set (show ∀ q, i ∉ (p'.create i now base sub op).q q from hout), hcarried, hitem]

theorem line_new : (e.set i q (p'.create i now base sub op)).line r =
      if e.setLock q = true ∧ r = q then p.line r ++ [(op, sub.peerip)] else p.line r := by
  rw [line_eq, line_eq, carried_new h hg now base sub op hr]
  split
  · rw [map_append]
    rfl
  · rfl

end New

end Hand

/-! ## 3. The book of a storage -/

def Sig.book (g : Sig) : Book where
  wait := g.pool.line .waitSync
  parked := g.pool.line .waitSyncIp
  peers := g.peers
  popped := g.popped
  owed := g.owed
  puts := g.puts
  sent := g.sent
  expired := g.expired

/-- The members that finished tasks are reported to. -/
def Cfg.others (cfg : Cfg) : List UInt32 :=
  (cfg.members.filter fun m => m.ip ≠ cfg.selfIp ∧ m.offline = false).map (·.ip)

/-- Nothing is watched; the delayed tasks may be compared with those of an earlier state. -/
def compared (r : Option Sig) : Watch := ⟨False, False, False, r⟩

section Compared

variable {cfg : Cfg} {sl : Slot → Option NodeId} {r g : Sig} {s t : Storage} {a : Act}

theorem envOk_compared (o : Option Sig) (cfg : Cfg) (e : Env) : EnvOk (compared o) cfg e :=
  ⟨False.elim, False.elim⟩

theorem stepOk_compared (o : Option Sig) (cfg : Cfg) (s : Storage) (a : Act) :
    StepOk (compared o) cfg s a :=
  ⟨False.elim, False.elim, False.elim⟩

theorem queuedOk_compared (o : Option Sig) (datadir : Path) (q : TaskQ) (n : Item) :
    QueuedOk (compared o) datadir q n :=
  ⟨False.elim, False.elim⟩

theorem policy_compared {o o' : Option Sig} {datadir : Path} {l : Place} {n : Item}
    (h : Policy (compared o) datadir l n) : Policy (compared o') datadir l n := by
  rcases l with ⟨q, _ | w⟩
  · cases q with
    | none => exact h
    | some q => exact ⟨False.elim, queuedOk_compared o' datadir q n⟩
  · exact ⟨h.1, fun _ => ⟨False.elim, False.elim⟩⟩

theorem Held.compare {datadir : Path} (h : Held (compared none) datadir g.pool sl) :
    Held (compared (some g)) datadir g.pool sl := by
  obtain ⟨loc, ht, hall⟩ := h.stored
  refine ⟨⟨loc, ht, fun i => ⟨fun hi => policy_compared ((hall i).1 hi), (hall i).2⟩⟩, ?_⟩
  rintro r ⟨rfl⟩
  exact .refl _

theorem SigInv.compare (h : SigInv (compared none) cfg sl g) :
    SigInv (compared (some g)) cfg sl g where
  tasks := h.tasks.compare
  expired := False.elim
  marks := by
    rintro r ⟨rfl⟩
    exact .refl _

theorem Inv.compare (h : Inv (compared none) cfg s) : Inv (compared (some s.toSig)) cfg s where
  expired := False.elim
  marks := h.sig.compare.marks
  busy := False.elim
  ops := False.elim
  timers := False.elim
  tasks := h.tasks.compare

theorem book_pool {p : Pool} (hd : SameDelayed g.pool p) :
    Sig.book { g with pool := p } = g.book := by
  unfold Sig.book
  rw [line_of_same hd (.inl rfl), line_of_same hd (.inr rfl)]

theorem quiets_of_same (hm : SameMarks r g) (hd : SameDelayed r.pool g.pool) :
    r.book.Quiets g.book := by
  refine ⟨hm.peers, ?_⟩
  show Sig.book g = _
  unfold Sig.book
  rw [line_of_same hd (.inl rfl), line_of_same hd (.inr rfl), hm.popped, hm.owed, hm.puts, hm.sent,
    hm.expired]

theorem SigInv.quiets (h : SigInv (compared (some r)) cfg sl g) : r.book.Quiets g.book :=
  quiets_of_same (h.marks r rfl) (h.tasks.framed r rfl)

theorem step_quiets (hi : Inv (compared none) cfg s) (hs : step cfg s a = .ok t) (ha : a.Apart) :
    s.book.Quiets t.book :=
  ((step_watched hi.compare (stepOk_compared _ cfg s a) (.inr ha)).of_ok hs).sig.quiets

end Compared

/-! ## 4. The parts of `check_task` -/

section Pass

variable {cfg : Cfg} {sl : Slot → Option NodeId} {g : Sig} {e : Env} {envs : Nat → Env} {n k : Nat}
variable {safe : Prop} {i : NodeId} {pool : Pool}

theorem kept_ite {x : Entry} {lock : Bool} (hsafe : safe → lock = true) :
    Kept safe x (if lock = true then [x] else []) := by
  by_cases hl : lock = true
  · exact .inl (if_pos hl)
  · exact .inr ⟨fun hs => hl (hsafe hs), if_neg hl⟩

theorem moveAll_unparks (hp : Held (compared none) cfg.datadir g.pool sl)
    (hsafe : safe → ∀ k, (envs k).setLock .waitSync = true) :
    Relation.ReflTransGen (Book.Unparks safe) g.book
      (Sig.book { g with pool := moveAll envs .waitSyncIp .waitSync n k g.pool }) := by
  induction n generalizing k g with
  | zero => exact .refl
  | succ n ih =>
    unfold moveAll
    split
    · exact .refl
    rename_i i p hget
    have hfree : Free (compared none) .waitSyncIp := free_of_ref rfl (by decide)
    obtain ⟨hsrc, hdst, -⟩ := line_move .waitSync hp hfree (by decide) hget (by decide)
    obtain ⟨hloose, -⟩ := hp.take hfree hget
    have hmoved := hloose.place (e := envs k) (q := .waitSync) (free_of_ref rfl (by decide))
      False.elim (queuedOk_compared _ _ _ _)
    refine .head ?_ (ih (g := { g with pool := (envs k).set i .waitSync p }) hmoved)
    have hbook : Sig.book { g with pool := (envs k).set i .waitSync p } =
        { g.book with parked := ((envs k).set i .waitSync p).line .waitSyncIp }.await
          (if (envs k).setLock .waitSync = true then [(p.node i).entry] else []) := by
      simp only [Sig.book, Book.await, hdst]
    rw [hbook]
    exact .move hsrc (kept_ite fun hs => hsafe hs k)

theorem moveAll_empties {p : Pool} (hp : Held (compared none) cfg.datadir p sl)
    (hlock : ∀ k, (envs k).getLock .waitSyncIp = true) (hn : (p.line .waitSyncIp).length ≤ n) :
    (moveAll envs .waitSyncIp .waitSync n k p).line .waitSyncIp = [] := by
  induction n generalizing k p with
  | zero => exact length_eq_zero_iff.mp (Nat.le_zero.mp hn)
  | succ n ih =>
    unfold moveAll
    split
    · rename_i hget
      exact get_eq_none (hlock k) hget
    rename_i i p' hget
    have hfree : Free (compared none) .waitSyncIp := free_of_ref rfl (by decide)
    obtain ⟨hsrc, -, -⟩ := line_move .waitSync hp hfree (by decide) hget (by decide)
    obtain ⟨hloose, -⟩ := hp.take hfree hget
    refine ih (hloose.place (free_of_ref rfl (by decide)) False.elim
      (queuedOk_compared _ _ _ _)) ?_
    rw [hsrc] at hn
    exact Nat.le_of_succ_le_succ hn

theorem offline_of_find {ip : UInt32} (h : g.findIpStat ip = none) : g.book.Offline ip := by
  intro hip
  obtain ⟨p, hp, rfl⟩ := mem_map.mp hip
  have := find?_eq_none.mp h p hp
  simp at this

theorem online_of_find {ip : UInt32} {peer : SigPeer} (h : g.findIpStat ip = some peer) :
    peer ∈ g.book.peers ∧ peer.ip = ip :=
  ⟨mem_of_find?_eq_some h, by simpa using find?_some h⟩

section Delays

variable (hg : SigInv (compared none) cfg sl g)

include hg

theorem delayOne_delays
    (hget : e.get .waitSync g.pool = some (i, pool)) (hsafe : safe → e.setLock .waitSyncIp = true) :
    Book.Delays safe g.book (delayOne e false i { g with pool := pool }).book := by
  have hfree : Free (compared none) .waitSync := free_of_ref rfl (by decide)
  unfold delayOne
  simp only [Bool.false_eq_true, if_false]
  split
  · rename_i hfind
    obtain ⟨hsrc, hdst, -⟩ := line_move .waitSyncIp hg.tasks hfree (by decide) hget (by decide)
    have hbook : Sig.book { g with pool := e.set i .waitSyncIp pool } =
        { g.book with
          wait := (e.set i .waitSyncIp pool).line .waitSync
          parked := g.book.parked ++
            (if e.setLock .waitSyncIp = true then [(pool.node i).entry] else []) } := by
      simp only [Sig.book, hdst]
    have hoff : g.book.Offline (pool.node i).entry.2 :=
      offline_of_find (g := { g with pool := pool }) hfind
    show Book.Delays safe g.book (Sig.book { g with pool := e.set i .waitSyncIp pool })
    rw [hbook]
    exact .park hsrc hoff (kept_ite hsafe)
  · rename_i peer hfind
    obtain ⟨hsrc, -, hrest⟩ := line_move .home hg.tasks hfree (by decide) hget (by decide)
    obtain ⟨hpeer, hip⟩ := online_of_find hfind
    have hbook : Sig.book { g.doDispatchTask peer (pool.node i).base TASK_SYNC (pool.node i).op with
        pool := e.set i .home pool } =
        { g.book with wait := (e.set i .home pool).line .waitSync }.put peer
          ⟨(pool.node i).op, createSigMsg NEWTASK_REQ TASK_SYNC (pool.node i).base.bytes
            BASE_SIZE⟩ := by
      simp only [Sig.book, Book.put, Sig.doDispatchTask, Sig.say,
        hrest .waitSyncIp (by decide) (by decide)]
    show Book.Delays safe g.book (Sig.book { g.doDispatchTask peer _ _ _ with
      pool := e.set i .home pool })
    rw [hbook]
    exact .put (x := (pool.node i).entry) hsrc hpeer hip rfl

theorem delayOne_line (hget : e.get .waitSync g.pool = some (i, pool)) : g.pool.line .waitSync =
      (pool.node i).entry :: (delayOne e false i { g with pool := pool }).pool.line .waitSync := by
  have hmove (q : TaskQ) (hq : TaskQ.waitSync ≠ q) :=
    (line_move q hg.tasks (free_of_ref rfl (by decide)) (by decide) hget hq).1
  unfold delayOne
  simp only
  split
  · exact hmove _ (by decide)
  · exact hmove _ (by decide)

theorem delayOne_sound {dir : Bool} {q : TaskQ}
    (hq : q.Unheld) (hget : e.get q g.pool = some (i, pool)) :
    SigInv (compared none) cfg sl (delayOne e dir i { g with pool := pool }) := by
  obtain ⟨hloose, -⟩ := hg.tasks.take (free_of_ref rfl hq) hget
  exact delayOne_watched hloose False.elim (marked_of_ref rfl _) False.elim
    (.inl rfl) (envOk_compared none cfg e)

theorem delayOne_quiets (hget : e.get .waitSyncDir g.pool = some (i, pool)) :
    g.book.Quiets (delayOne e true i { g with pool := pool }).book := by
  obtain ⟨hloose, -⟩ := hg.compare.tasks.take (free (by decide)) hget
  have hone : SigInv (compared (some g)) cfg sl (delayOne e true i { g with pool := pool }) :=
    delayOne_watched hloose False.elim (fun r hr => (hg.compare.marks r hr).pool pool)
      False.elim (.inr rfl) (envOk_compared _ cfg e)
  exact hone.quiets

theorem delayLoop_delays (hsafe : safe → ∀ k, (envs k).setLock .waitSyncIp = true) :
    Relation.ReflTransGen (Book.Delays safe) g.book (delayLoop envs n k g).book := by
  induction n generalizing k g with
  | zero => exact .refl
  | succ n ih =>
    unfold delayLoop
    split
    · rename_i hget
      exact .head (delayOne_delays hg hget fun hs => hsafe hs k)
        (ih (delayOne_sound hg (by decide) hget))
    split
    · rename_i hget
      exact .head (.quiet (delayOne_quiets hg hget)) (ih (delayOne_sound hg (by decide) hget))
    · exact .refl

theorem delayLoop_empties
    (hlock : ∀ k, (envs k).getLock .waitSync = true) (hn : (g.pool.line .waitSync).length ≤ n) :
    (delayLoop envs n k g).pool.line .waitSync = [] := by
  induction n generalizing k g with
  | zero => exact length_eq_zero_iff.mp (Nat.le_zero.mp hn)
  | succ n ih =>
    unfold delayLoop
    split
    · rename_i hget
      refine ih (delayOne_sound hg (by decide) hget) ?_
      rw [delayOne_line hg hget] at hn
      exact Nat.le_of_succ_le_succ hn
    · rename_i hnone
      have hempty := get_eq_none (hlock k) hnone
      split
      · rename_i i pool hget
        have hsame : (delayOne (envs k) true i { g with pool := pool }).book.wait =
          g.book.wait := by
          rw [(delayOne_quiets hg hget).rest]
        refine ih (delayOne_sound hg (by decide) hget) ?_
        rw [show (delayOne (envs k) true i { g with pool := pool }).pool.line .waitSync = [] from
          hsame.trans hempty]
        exact Nat.zero_le _
      · exact hempty

end Delays

end Pass

/-! ## 5. Finished tasks -/

section Finished

variable {cfg : Cfg} {sl : Slot → Option NodeId} {g : Sig} {e : Env} {envs : Nat → Env} {n k : Nat}
variable {safe : Prop} {i : NodeId} {pool : Pool}

/-- Nothing fails on the way of a new delayed task. -/
def Env.Creates (e : Env) : Prop :=
  e.getLock .home = true ∧ e.malloc = true ∧ e.setLock .waitSync = true

theorem get_home_isSome (hlock : e.getLock .home = true) (hm : e.malloc = true) (p : Pool) :
    ∃ i p', e.get .home p = some (i, p') := by
  unfold Env.get pfsGetTask
  rw [if_pos hlock]
  split
  · exact ⟨_, _, rfl⟩
  · rw [if_pos ⟨rfl, hm⟩]
    exact ⟨_, _, rfl⟩

theorem createDelayTask_book (ip : UInt32) (op : Nat) (base : TaskBase)
    (hp : Held (compared none) cfg.datadir g.pool sl) (hsafe : safe → e.Creates) :
    ∃ kept, Kept safe (some op, ip) kept ∧
      (createDelayTask e ip op base g).2.book = g.book.await kept := by
  unfold createDelayTask
  split
  · rename_i hnone
    refine ⟨[], .inr ⟨fun hs => ?_, rfl⟩, by simp [Book.await]⟩
    obtain ⟨hlock, hm, -⟩ := hsafe hs
    obtain ⟨i, p', hsome⟩ := get_home_isSome hlock hm g.pool
    cases hnone.symm.trans hsome
  · rename_i i pool hget
    refine ⟨_, kept_ite fun hs => (hsafe hs).2.2, ?_⟩
    simp only [Sig.book, Book.await]
    rw [line_new hp hget _ _ _ _ (by decide), line_new hp hget _ _ _ _ (by decide)]
    by_cases hl : e.setLock .waitSync = true <;> simp [hl]

section Finish

variable (hg : SigInv (compared none) cfg sl g)

include hg

theorem syncMembers_serves {op : Nat} {ms : List Member} {base : TaskBase}
    (hsafe : safe → ∀ k, (envs k).Creates) :
    Book.Serves safe op ((ms.filter fun m => m.ip ≠ cfg.selfIp ∧ m.offline = false).map (·.ip))
      g.book (syncMembers cfg envs op ms k base g).2.book := by
  induction ms generalizing k base g with
  | nil => exact .done _
  | cons m ms ih =>
    unfold syncMembers
    split
    · rename_i hskip
      rw [filter_cons_of_neg (by simpa [or_iff_not_imp_left] using hskip)]
      exact ih hg
    rename_i hmember
    rw [filter_cons_of_pos (by simpa using hmember), map_cons]
    have howed : SigInv (compared none) cfg sl { g with owed := g.owed ++ [(op, m.ip)] } :=
      ⟨hg.tasks, hg.expired, marked_of_ref rfl _⟩
    simp only
    split
    · rename_i hfind
      obtain ⟨kept, hk, hbook⟩ := createDelayTask_book (e := envs k) m.ip op base howed.tasks
        fun hs => hsafe hs k
      have hnext : SigInv (compared none) cfg sl (createDelayTask (envs k) m.ip op base _).2 :=
        (createDelayTask_watched m.ip op howed rfl (envOk_compared none cfg _) False.elim).1
      refine .delay (offline_of_find hfind) hk ?_
      show Book.Serves safe op _
        (Book.await (Sig.book { g with owed := g.owed ++ [(op, m.ip)] }) kept) _
      rw [← hbook]
      exact ih hnext
    · rename_i peer hfind
      obtain ⟨hpeer, hip⟩ := online_of_find hfind
      refine .put (m := ⟨some op, createSigMsg NEWTASK_REQ TASK_SYNC base.bytes BASE_SIZE⟩)
        hpeer hip rfl ?_
      exact ih (g := Sig.doDispatchTask { g with owed := g.owed ++ [(op, m.ip)] } peer base
        TASK_SYNC (some op)) ⟨hg.tasks, hg.expired, marked_of_ref rfl _⟩

theorem finOne_finishes (hsl : sl ⟨0, .hand⟩ = none)
    (hget : e.get .fin g.pool = some (i, pool)) (hsafe : safe → ∀ k, (envs (k + 1)).Creates) :
    Book.Finishes safe cfg.others g.book (finOne cfg envs i { g with pool := pool }).book := by
  obtain ⟨hloose, -⟩ := hg.tasks.take (free (by decide)) hget
  obtain ⟨hsame, -⟩ := hg.compare.tasks.take (free (by decide)) hget
  -- the node goes to a queue that holds no delayed tasks
  have hplace {p : Pool} {q : TaskQ} (hp : Loose (compared (some g)) cfg.datadir p sl i)
      (hq : q.Unheld ∧ ¬ q.Delayed) :
      g.book.Quiets (Sig.book { g with pool := (envs 0).set i q p }) :=
    quiets_of_same ((SameMarks.refl g).pool _)
      ((hp.place (free hq) False.elim (queuedOk_compared _ _ _ _)).framed g rfl)
  unfold finOne
  simp only
  split
  · exact .quiet (hplace (hsame.store _ _) (by decide))
  split
  · refine .report ?_
    have haside : SigInv (compared none) cfg (Function.update sl ⟨0, .hand⟩ (some i))
        { g with pool := pool, popped := g.popped + 1 } :=
      ⟨hloose.aside 0 hsl, False.elim, marked_of_ref rfl _⟩
    have hmembers : SigInv (compared none) cfg _ (syncTask2Domain cfg (fun k => envs (k + 1))
        (pool.node i).base { g with pool := pool }).2 :=
      syncMembers_watched haside rfl (fun k => envOk_compared none cfg _) False.elim
    have hserves : Book.Serves safe g.popped cfg.others
        (Sig.book { g with pool := pool, popped := g.popped + 1 }) (syncTask2Domain cfg
          (fun k => envs (k + 1)) (pool.node i).base { g with pool := pool }).2.book :=
      syncMembers_serves haside hsafe
    generalize syncTask2Domain cfg _ _ _ = r at hmembers hserves
    have hback := hmembers.tasks.compare.putBack hsl (free (q := .clean) (by decide)) (e := envs 0)
      False.elim (fun n => { n with base := r.1, sub := (pool.node i).sub })
      (queuedOk_compared _ _ _ _)
    rw [book_pool (g := { g with popped := g.popped + 1 }) (hsame.framed g rfl),
      ← book_pool (hback.framed r.2 rfl)] at hserves
    exact hserves
  · exact .quiet (hplace hsame (by decide))

theorem finLoop_finishes {fin : Nat → Nat → Env}
    (hsl : sl ⟨0, .hand⟩ = none) (hsafe : safe → ∀ k m, (fin k (m + 1)).Creates) :
    Relation.ReflTransGen (Book.Finishes safe cfg.others) g.book (finLoop cfg fin n k g).book := by
  induction n generalizing k g with
  | zero => exact .refl
  | succ n ih =>
    unfold finLoop
    split
    · exact .refl
    rename_i i pool hget
    obtain ⟨hloose, -⟩ := hg.tasks.take (free (by decide)) hget
    refine .head (finOne_finishes hg hsl hget fun hs => hsafe hs k) (ih ?_)
    exact finOne_watched hloose False.elim (queuedOk_compared _ _ _ _) rfl
      (fun k => envOk_compared none cfg _) hsl

theorem doCheckSyncTask_quiets :
    g.book.Quiets (doCheckSyncTask envs g).book :=
  (checkSyncLoop_watched hg.compare fun _ => envOk_compared _ cfg _).quiets

end Finish

end Finished

/-! ## 6. Expiry -/

section Expiry

variable {cfg : Cfg} {sl : Slot → Option NodeId} {g : Sig} {e : Env} {i : NodeId}

variable {p : Pool} {r q : TaskQ}

theorem line_sendHome (hr : r ≠ .home) :
    (sendHome e i p).line r = ((p.q r).filter (· != i)).map fun j => (p.node j).entry := by
  have hq (q : TaskQ) : ((p.unlink i).uncount i).q q = (p.q q).filter (· != i) := by
    rw [q_uncount]
    rfl
  have hnode : ((p.unlink i).uncount i).node = p.node := by
    unfold Pool.uncount
    split <;> rfl
  have hout (q : TaskQ) : i ∉ ((p.unlink i).uncount i).q q := by
    rw [hq]
    simp
  have hstore : (((p.unlink i).uncount i).store i .zero .zero).line r =
      ((p.unlink i).uncount i).line r := line_modify (hout r) _
  have hout' : ∀ q, i ∉ (((p.unlink i).uncount i).store i .zero .zero).q q := hout
  unfold sendHome
  rw [line_set hout', if_neg fun h => hr h.2, hstore, Pool.line, hq, hnode]

theorem filter_ne_of_nodup {js : List NodeId} (hnodup : js.Nodup) (hi : i ∈ js) :
    ∃ xs ys, js = xs ++ i :: ys ∧ js.filter (· != i) = xs ++ ys := by
  obtain ⟨xs, ys, rfl⟩ := append_of_mem hi
  rw [nodup_append] at hnodup
  obtain ⟨-, hys, hne⟩ := hnodup
  refine ⟨xs, ys, rfl, ?_⟩
  rw [filter_append, filter_cons_of_neg (by simp), filter_ne_self, filter_ne_self]
  · exact (nodup_cons.mp hys).1
  · exact fun hx => hne i hx i mem_cons_self rfl

theorem Stored.queue_unique {P : Place → Item → Prop} (h : Stored P p sl)
    (hq : i ∈ p.q q) (hr : i ∈ p.q r) : q = r := by
  obtain ⟨loc, ht, -⟩ := h
  exact Option.some.inj (((ht.link i q).mp hq).symm.trans ((ht.link i r).mp hr))

theorem entry_over (p : Pool) (i j : NodeId) (o : UInt8) :
    ((p.over i o).node j).entry = (p.node j).entry := by
  by_cases hj : j = i
  · subst hj
    rw [Pool.over, node_modify_self]
    rfl
  · rw [Pool.over, node_modify_ne _ _ hj]

theorem line_expire (hr : r ≠ .home) (o : UInt8) :
    (sendHome e i (p.over i o)).line r = ((p.q r).filter (· != i)).map fun j =>
      (p.node j).entry := by
  rw [line_sendHome hr]
  exact map_congr_left fun j _ => entry_over p i j o

theorem line_expire_self (hq : q ≠ .home) (hnodup : (p.q q).Nodup)
    (hi : i ∈ p.q q) (o : UInt8) : ∃ xs ys, p.line q = xs ++ (p.node i).entry :: ys ∧
      (sendHome e i (p.over i o)).line q = xs ++ ys := by
  obtain ⟨xs, ys, hsplit, hrest⟩ := filter_ne_of_nodup hnodup hi
  refine ⟨xs.map fun j => (p.node j).entry, ys.map fun j => (p.node j).entry, ?_, ?_⟩
  · rw [Pool.line, hsplit, map_append, map_cons]
  · rw [line_expire hq, hrest, map_append]

theorem checkTaskTimeout_expires (hg : SigInv (compared none) cfg sl g) (hi : i ∈ g.pool.q q) :
    Relation.ReflTransGen Book.Expires g.book (checkTaskTimeout cfg e g i).book := by
  have hother (r : TaskQ) (hr : r ≠ .home) (hne : r ≠ q) :
      (sendHome e i (g.pool.over i OVER_TIMEOUT)).line r = g.pool.line r := by
    rw [line_expire hr, filter_ne_self fun hir => hne (hg.tasks.stored.queue_unique hir hi)]
    rfl
  have hself (hq : q ≠ .home) :=
    line_expire_self (e := e) hq (hg.tasks.stored.nodup q) hi OVER_TIMEOUT
  let x : Expired :=
    ⟨e.now, (g.pool.node i).born, (g.pool.node i).op, (g.pool.node i).sub.peerip⟩
  rcases checkTaskTimeout_cases cfg e g i with ⟨-, heq⟩ | heq
  · rw [heq]
    refine .single ?_
    by_cases hw : q = .waitSync
    · subst hw
      obtain ⟨xs, ys, hsplit, hrest⟩ := hself (by decide)
      simp only [Sig.book, hrest, hother .waitSyncIp (by decide) (by decide)]
      exact .wait (b := g.book) (x := x) hsplit
    · by_cases hp : q = .waitSyncIp
      · subst hp
        obtain ⟨xs, ys, hsplit, hrest⟩ := hself (by decide)
        simp only [Sig.book, hrest, hother .waitSync (by decide) (by decide)]
        exact .parked (b := g.book) (x := x) hsplit
      · simp only [Sig.book, hother .waitSync (by decide) (Ne.symm hw),
          hother .waitSyncIp (by decide) (Ne.symm hp)]
        exact .other g.book x
  · rw [heq]
    have hsame (r : TaskQ) : (g.pool.over i (g.pool.node i).base.overstatus).line r =
        g.pool.line r :=
      map_congr_left fun j _ => entry_over g.pool i j _
    simp only [Sig.book, hsame]
    exact .refl

theorem scanTimeout_expires (hq : q ∈ scannedQueues) (hg : SigInv (compared none) cfg sl g) :
    Relation.ReflTransGen Book.Expires g.book (scanTimeout cfg e g q).book := by
  unfold scanTimeout
  split
  · refine (foldl_scan (I := fun t => SigInv (compared none) cfg sl t ∧
      Relation.ReflTransGen Book.Expires g.book t.book) (fun t => t.pool.q q) ?_ ?_ ⟨hg, .refl⟩
      (hg.tasks.stored.nodup q)).2
    · rintro t i ⟨ht, hto⟩ hi
      exact ⟨checkTaskTimeout_watched ht rfl hq hi False.elim,
        hto.trans (checkTaskTimeout_expires ht hi)⟩
    · exact fun t i j hj h => mem_checkTaskTimeout hj h
  · exact .refl

theorem doTimeoutTask_expires (hg : SigInv (compared none) cfg sl g) :
    Relation.ReflTransGen Book.Expires g.book (doTimeoutTask cfg e g).book := by
  have hfold (qs : List TaskQ) (hqs : ∀ q ∈ qs, q ∈ scannedQueues) (g : Sig)
      (hg : SigInv (compared none) cfg sl g) :
      Relation.ReflTransGen Book.Expires g.book (qs.foldl (scanTimeout cfg e) g).book := by
    induction qs generalizing g with
    | nil => exact .refl
    | cons q qs ih =>
      have hq := hqs q mem_cons_self
      exact (scanTimeout_expires hq hg).trans (ih (fun r hr => hqs r (mem_cons_of_mem _ hr)) _
        (scanTimeout_watched hg rfl hq False.elim))
  unfold doTimeoutTask
  split
  · exact hfold scannedQueues (fun _ hq => hq) g hg
  · exact .refl

end Expiry

/-! ## 7. One step -/

/-- No report is lost: no connection closes with a report in its buffer, and the locks of
    `check_task` on the queues of delayed tasks, and what a new one needs, are obtained. -/
def ReportsKept (s : Storage) : Act → Prop
  | .sigClose fd => ∀ p ∈ s.peers, p.fd = fd → ∀ m ∈ p.out, m.op = none
  | .newtask fd h _ _ =>
    h.bodylen ≠ BASE_SIZE → ∀ p ∈ s.peers, p.fd = fd → ∀ m ∈ p.out, m.op = none
  | .sigCheck v =>
    (∀ k, (v.unpark k).setLock .waitSync = true) ∧ (∀ k, (v.delay k).setLock .waitSyncIp = true) ∧
      ∀ k m, (v.fin k (m + 1)).Creates
  | _ => True

/-- Every pass empties both queues of delayed tasks before it looks at the finished ones, and
    starts when no member has tasks in both. -/
def QueuesServed (cfg : Cfg) (s : Storage) : Act → Prop
  | .sigCheck v =>
    (∀ k, (v.unpark k).getLock .waitSyncIp = true) ∧ (∀ k, (v.delay k).getLock .waitSync = true) ∧
      (s.pool.q .waitSync).length + (s.pool.q .waitSyncIp).length ≤ cfg.maxTaskRunOnce ∧
      ∀ i ∈ s.pool.q .waitSync, ∀ j ∈ s.pool.q .waitSyncIp,
        (s.pool.node i).sub.peerip ≠ (s.pool.node j).sub.peerip
  | _ => True

section Step

variable {cfg : Cfg} {s t : Storage} {a : Act} {safe whole : Prop}

theorem flushOut_op {n : Nat} {ms : List OutMsg} {m : OutMsg} {k : Nat} (hm : m ∈ ms)
    (hop : m.op = some k) :
    k ∈ (flushOut n ms).2 ∨ ∃ m' ∈ (flushOut n ms).1, m'.op = some k := by
  induction ms generalizing n with
  | nil => cases hm
  | cons m₀ ms ih =>
    unfold flushOut
    split
    · rcases mem_cons.mp hm with rfl | hm
      · exact .inl (mem_append_left _ (by simp [hop]))
      · exact (ih hm).imp_left fun h => mem_append_right _ h
    · rcases mem_cons.mp hm with rfl | hm
      · exact .inr ⟨_, mem_cons_self, hop⟩
      · exact .inr ⟨m, mem_cons_of_mem _ hm, hop⟩

theorem flush_turn (g : Sig) (fd : Fd) (n : Nat) :
    Book.Turn cfg.others safe whole g.book (g.flush fd n).book := by
  refine .flush (b := g.book) (fun p' hp' => ?_) fun p hp m hm k hop => ?_
  · obtain ⟨p, hp, rfl⟩ := mem_map.mp hp'
    refine ⟨p, hp, ?_⟩
    split <;> rfl
  · by_cases hfd : p.fd = fd
    · rcases flushOut_op (n := n) hm hop with hk | ⟨m', hm', hop'⟩
      · refine .inl (mem_flatMap.mpr ⟨p, hp, ?_⟩)
        rw [if_pos hfd]
        exact mem_map.mpr ⟨k, hk, rfl⟩
      · refine .inr ⟨{ p with out := (flushOut n p.out).1 }, ?_, rfl, m', hm', hop'⟩
        exact mem_map.mpr ⟨p, hp, if_pos hfd⟩
    · exact .inr ⟨p, mem_map.mpr ⟨p, hp, if_neg hfd⟩, rfl, m, hm, hop⟩

theorem sigCheckTask_turn {sl : Slot → Option NodeId} (hi : SigInv (compared none) cfg sl s.toSig)
    (hsl : sl ⟨0, .hand⟩ = none) (v : PassEnv) :
    Book.Turn cfg.others (ReportsKept s (.sigCheck v)) (QueuesServed cfg s (.sigCheck v)) s.book
      (sigCheckTask cfg v s.toSig).book := by
  let pool := moveAll v.unpark .waitSyncIp .waitSync cfg.maxTaskRunOnce 0 s.pool
  let pool' := moveAll v.unparkDir .waitSyncDirTmp .waitSyncDir cfg.maxTaskRunOnce 0 pool
  have hmoved : Held (compared none) cfg.datadir pool sl :=
    moveAll_stored hi.tasks (free_of_ref rfl (by decide)) (free_of_ref rfl (by decide)) (by decide)
      (fun _ hf => hf.elim) fun _ _ => queuedOk_compared _ _ _ _
  have hdirs (o : Option Sig) (h : Held (compared o) cfg.datadir pool sl) :
      Held (compared o) cfg.datadir pool' sl :=
    moveAll_stored h (free (by decide)) (free (by decide)) (by decide) (fun _ hf => hf.elim)
      fun _ _ => queuedOk_compared _ _ _ _
  -- the files of directories are moved without touching the book
  have hsame : SameDelayed pool pool' :=
    (hdirs _ (Held.compare (g := { s.toSig with pool := pool }) hmoved)).framed _ rfl
  have hbook : Sig.book { s.toSig with pool := pool' } = Sig.book { s.toSig with pool := pool } :=
    book_pool (g := { s.toSig with pool := pool }) hsame
  have hready : SigInv (compared none) cfg sl { s.toSig with pool := pool' } :=
    hi.work (hdirs none hmoved)
  have hdelayed : SigInv (compared none) cfg sl
      (delayLoop v.delay cfg.maxTaskRunOnce 0 { s.toSig with pool := pool' }) :=
    delayLoop_watched hready rfl fun _ => envOk_compared none cfg _
  have hunpark : Relation.ReflTransGen (Book.Unparks (ReportsKept s (.sigCheck v))) s.book
      (Sig.book { s.toSig with pool := pool' }) := by
    rw [hbook]
    exact moveAll_unparks hi.tasks fun hs => hs.1
  refine .pass ?_ hunpark ?_ (delayLoop_delays hready fun hs => hs.2.1) ?_
    (finLoop_finishes hdelayed hsl fun hs => hs.2.2)
    (doCheckSyncTask_quiets
      (finLoop_watched hdelayed rfl (fun _ _ => envOk_compared none cfg _) hsl))
  · rintro ⟨-, -, -, hapart⟩ x hx y hy
    obtain ⟨i, hi', rfl⟩ := mem_map.mp hx
    obtain ⟨j, hj', rfl⟩ := mem_map.mp hy
    exact hapart i hi' j hj'
  · rintro ⟨hlock, -, hlen, -⟩
    rw [hbook]
    refine moveAll_empties hi.tasks hlock ?_
    rw [Pool.line, length_map]
    omega
  · rintro ⟨-, hlock, hlen, -⟩
    refine delayLoop_empties hready hlock ?_
    have hboth : s.book.wait.length + s.book.parked.length ≤ cfg.maxTaskRunOnce := by
      simpa [Sig.book, Pool.line] using hlen
    have hafter := Book.inv_of_moves (fun _ _ hb hm => Book.Unparks.length_le hb hm) hunpark hboth
    exact Nat.le_trans (Nat.le_add_right _ _) hafter

theorem connect_turn (g : Sig) (fd : Fd) (ip : UInt32) :
    Book.Turn cfg.others safe whole g.book (g.connect fd ip).book := by
  unfold Sig.connect
  split
  · exact .quiet ⟨forall₂_same.mpr fun p _ => .refl p, rfl⟩
  · exact .connect (b := g.book) (p := ⟨fd, ip, []⟩) rfl

/-- **Every step of the storage is a turn of its book.** -/
theorem step_turn (hi : Inv (compared none) cfg s) (hs : step cfg s a = .ok t) :
    Book.Turn cfg.others (ReportsKept s a) (QueuesServed cfg s a) s.book t.book := by
  cases a with
  | sigConnect fd ip =>
    cases hs
    exact connect_turn s.toSig fd ip
  | sigClose fd =>
    cases hs
    exact .close (b := s.book) fun hkept => hkept
  | sigFlush fd n =>
    cases hs
    exact flush_turn s.toSig fd n
  | newtask fd h base e =>
    by_cases hlen : h.bodylen = BASE_SIZE
    · exact .quiet (step_quiets hi hs hlen)
    -- a body of the wrong length closes the connection
    simp only [step, recvNewtask] at hs
    split at hs
    · cases hs
      exact .quiet ⟨forall₂_same.mpr fun p _ => .refl p, rfl⟩
    rw [if_pos hlen] at hs
    cases hs
    exact .close (b := s.book) fun hkept => hkept hlen
  | sigCheck v =>
    cases hs
    exact sigCheckTask_turn hi.sig (slots_hand _ _) v
  | timeout e =>
    cases hs
    exact .expire (doTimeoutTask_expires hi.sig)
  | _ => exact .quiet (step_quiets hi hs trivial)

end Step

end Pfs
