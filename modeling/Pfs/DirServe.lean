/-
  The answers to SYNC_DIR_REQ (network/S/pfs_sig_task.c, pfs_sig_base.c,
  pfs_sig_sync_dir.c, pfs_sig_sub.c; network/pfs_file_filter.c).

  A request is stored in a task node, the directory thread enumerates the directory and creates a
  task for every file, and `do_check_sync_task` answers. The machine below takes these three as its
  steps; everything else the storage does is a step that leaves the two queues of requests and
  their records alone (`Elsewhere`). Marks: what every node was taken for and what was done for it
  (`DirJob`), and the answers.

  Main result: `answered_done`.
-/
import Pfs.Delayed

namespace Pfs

open Lib Function List

/-! ## 1. The request -/

/-- `n` bytes in memory as a signed number. -/
def readInt (n : Nat) (b : List UInt8) : Int :=
  Int.bmod ((b.take n).foldr (fun c x => c.toNat + 256 * x) 0) (256 ^ n)

/-- `t_pfs_sync_task`, without its type. -/
structure SyncTask where
  d1 : Int
  d2 : Int
  starttime : Int
  endtime : Int
  deriving DecidableEq, Repr

/-- The record of a node, read as a `t_pfs_sync_task`. -/
def readSyncTask (b : List UInt8) : SyncTask :=
  ⟨readInt 4 b, readInt 4 (b.drop 4), readInt 8 (b.drop 8), readInt 8 (b.drop 16)⟩

/-- A time within the requested interval; 0 is no bound. -/
def SyncTask.covers (t : SyncTask) (ctime : Int) : Bool :=
  !(t.starttime != 0 && decide (ctime < t.starttime)) &&
    !(t.endtime != 0 && decide (t.endtime < ctime))

/-! ## 2. The files of a directory -/

/-- network/pfs_file_filter.c: `disable_filter` and `allow_list`. -/
structure FileFilter where
  disabled : Bool
  allow : List (List UInt8)

/-- `check_file_allow`: a suffix is kept in 64 bytes, its length in 8 bits. -/
def FileFilter.checkFileAllow (w : FileFilter) (file : Path) : Bool :=
  w.allow.any fun s => decide (s.length % 256 ≤ file.length) &&
    file.drop (file.length - s.length % 256) == s.take 63

/-- `check_file_filter` returns 0. -/
def FileFilter.checkFileFilter (w : FileFilter) (file : Path) : Bool :=
  w.disabled || w.checkFileAllow file

structure FileFacts where
  size : Int
  ctime : Int
  mtime : Int
  regular : Bool
  readable : Bool
  deriving DecidableEq, Repr

/-- What `readdir` gives: a name, the file of that name, and what the calls on the path that is
    built from the name answer: `stat` with `access`, and `getfilemd5`. -/
structure DirEntry where
  name : Path
  file : FileFacts
  stat : Option FileFacts
  md5 : Option (List UInt8)
  deriving DecidableEq, Repr

section Listing

variable (datadir : Path) (w : FileFilter) (t : SyncTask)

/-- `realpath`. -/
def syncRealpath : Path :=
  (datadir ++ slash :: decimalInt t.d1 ++ slash :: decimalInt t.d2).take 255

/-- `file`. -/
def entryPath (d : DirEntry) : Path := (syncRealpath datadir t ++ slash :: d.name).take 255

/-- `do_sync_dir_req_sub` for one name, up to the digest. -/
def syncEntry (d : DirEntry) : Option DirFile :=
  if d.name.head? = some dot then none
  else if w.checkFileFilter d.name then
    match d.stat with
    | none => none
    | some f =>
      if f.size = 0 then none
      else if f.regular && t.covers f.ctime && f.readable then
        d.md5.map fun m => ⟨entryPath datadir t d, f.size, f.mtime, m⟩
      else none
  else none

def DirEntry.Wanted (d : DirEntry) : Bool :=
  d.file.regular && d.file.readable && d.file.size != 0 && w.checkFileFilter d.name &&
    t.covers d.file.ctime

end Listing

/-- Nothing fails for a file: its name is no hidden one, `stat` and `access` see the file itself,
    and its digest is computed. -/
def DirEntry.Readable (d : DirEntry) : Prop :=
  d.name.head? ≠ some dot ∧ d.stat = some d.file ∧ d.md5 ≠ none

/-! ## 3. The machine -/

/-- What a node was taken for, and what the thread did: what it found in the directory (`none` when
    `opendir` failed), and the tasks it added to TASK_Q_WAIT_SYNC_DIR, with their members. -/
structure DirJob where
  ip : UInt32
  req : List UInt8
  round : Option (Option (List DirEntry) × List (UInt32 × TaskBase))

/-- A SYNC_DIR_RSP that was put on a connection. -/
structure DirAnswer where
  ip : UInt32
  job : DirJob

structure DirSt where
  sig : Sig
  job : NodeId → DirJob
  answers : List DirAnswer

def DirSt.init : DirSt := ⟨Storage.init.toSig, fun _ => ⟨0, [], none⟩, []⟩

def taskOf (x : NodeId × Item) : UInt32 × TaskBase := (x.2.sub.peerip, x.2.base)

/-- The tasks that were added to TASK_Q_WAIT_SYNC_DIR. -/
def newTasks (p p' : Pool) : List (UInt32 × TaskBase) :=
  ((p'.carried .waitSyncDir).drop (p.carried .waitSyncDir).length).map taskOf

def DirJob.done (j : DirJob) (listing : Option (List DirEntry)) (ts : List (UInt32 × TaskBase)) :
    DirJob :=
  { j with round := some (listing, ts) }

/-- `do_sync_dir_req`. -/
def DirSt.request (s : DirSt) (e : Env) (peer : SigPeer) (req : List UInt8) : DirSt :=
  match e.get .home s.sig.pool with
  | none =>
    { s with
      sig := doSyncDirReq e peer req s.sig
      answers := s.answers ++ [⟨peer.ip, ⟨peer.ip, req, none⟩⟩] }
  | some (i, _) =>
    { s with
      sig := doSyncDirReq e peer req s.sig
      job := update s.job i ⟨peer.ip, req, none⟩ }

/-- `do_req` for SYNC_DIR_REQ; a body of another length is dropped. -/
def DirSt.recvRequest (s : DirSt) (fd : Fd) (req : List UInt8) (e : Env) : DirSt :=
  match s.sig.peers.find? fun p => p.fd == fd with
  | none => s
  | some peer => if req.length = SYNC_SIZE then s.request e peer req else s

/-- The answers of `do_check_sync_task`, one for every node whose member is connected. -/
def checkAnswers (job : NodeId → DirJob) (envs : Nat → Env) : Nat → Nat → Sig → List DirAnswer
  | 0, _, _ => []
  | n + 1, k, g =>
    match (envs k).get .syncDirRsp g.pool with
    | none => []
    | some (i, pool) =>
      ((g.findIpStat (pool.node i).base.dstip).map fun peer => ⟨peer.ip, job i⟩).toList ++
        checkAnswers job envs n (k + 1) (checkSyncOne (envs k) i { g with pool := pool })

/-- `do_check_sync_task`. -/
def DirSt.check (s : DirSt) (envs : Nat → Env) : DirSt :=
  { s with
    sig := doCheckSyncTask envs s.sig
    answers := s.answers ++
      checkAnswers s.job envs (s.sig.pool.q .syncDirRsp).length 0 s.sig }

/-- What can happen to a service that answers directory requests. -/
inductive DirAct where
  | connect (fd : Fd) (ip : UInt32)
  | close (fd : Fd)
  | request (fd : Fd) (req : List UInt8) (e : Env)
  /-- a round of `sync_dir_thread`, which finds `listing` in the directory -/
  | round (e : Env) (envs : Nat → Env) (listing : Option (List DirEntry))
  | check (envs : Nat → Env)
  /-- anything else, and what is there then -/
  | other (g : Sig)

section Machine

variable (cfg : Cfg) (w : FileFilter)

/-- A round of `sync_dir_thread`. -/
def DirSt.round (s : DirSt) (e : Env) (envs : Nat → Env) (listing : Option (List DirEntry)) :
    DirSt :=
  match e.get .syncDirReq s.sig.pool with
  | none => s
  | some (i, pool) =>
    let t := readSyncTask (pool.node i).base.filename
    let sig :=
      syncDirTask e envs (listing.map fun l => l.filterMap (syncEntry cfg.datadir w t)) s.sig
    { s with
      sig := sig
      job := update s.job i ((s.job i).done listing (newTasks s.sig.pool sig.pool)) }

def dirNext (s : DirSt) : DirAct → Option DirSt
  | .connect fd ip => some { s with sig := s.sig.connect fd ip }
  | .close fd => some { s with sig := s.sig.close fd }
  | .request fd req e => some (s.recvRequest fd req e)
  | .round e envs listing => some (s.round cfg w e envs listing)
  | .check envs => some (s.check envs)
  | .other g => some { s with sig := g }

/-- What the rest of the storage does: the nodes stay where they may be, and the two queues carry
    what they carried. -/
structure Elsewhere (g g' : Sig) : Prop where
  sound : ∃ sl, sl ⟨0, .hand⟩ = none ∧ Held (compared none) cfg.datadir g'.pool sl
  req : g'.pool.carried .syncDirReq = g.pool.carried .syncDirReq
  rsp : g'.pool.carried .syncDirRsp = g.pool.carried .syncDirRsp

/-- Whatever else happens leaves the requests alone. -/
def Admits (s : DirSt) : DirAct → Prop
  | .other g => Elsewhere cfg s.sig g
  | _ => True

/-- Nothing fails on the way of a request. -/
def Thorough (s : DirSt) : DirAct → Prop
  | .request _ _ e => e.getLock .home = true ∧ e.malloc = true
  | .round e envs listing =>
    (∀ k, (envs k).getLock .home = true ∧ (envs k).malloc = true ∧
      (envs k).setLock .waitSyncDir = true) ∧
    ∀ i pool, e.get .syncDirReq s.sig.pool = some (i, pool) → ∃ entries, listing = some entries ∧
      ∀ d ∈ entries, d.Wanted w (readSyncTask (pool.node i).base.filename) = true → d.Readable
  | .other g => Elsewhere cfg s.sig g
  | _ => True

/-- The directory was enumerated, and among the tasks that were created there is one for every file
    the request asks for, addressed to the member that sent it. -/
def DirJob.Done (j : DirJob) : Prop :=
  ∃ entries created ts, j.round = some (some entries, created) ∧ List.Sublist ts created ∧
    List.Forall₂ (fun d t => t.1 = j.ip ∧ t.2.type = TASK_ADDFILE ∧
        t.2.filename = entryPath cfg.datadir (readSyncTask j.req) d ∧ t.2.fsize = d.file.size ∧
        t.2.mtime = d.file.mtime ∧ d.md5 = some t.2.filemd5)
      (entries.filter fun d => d.Wanted w (readSyncTask j.req)) ts

end Machine

/-! ## 4. The directory thread -/

section Thread

variable {cfg : Cfg} {sl : Slot → Option NodeId} {g g' g'' : Sig} {e : Env} {envs : Nat → Env}
variable {ip : UInt32} {i : NodeId}

/-- The record that `do_sync_dir_req_sub` makes for a file. -/
def fileBase (f : DirFile) : TaskBase :=
  { TaskBase.zero with
    filename := f.filename, fsize := f.fsize, mtime := f.mtime, filemd5 := f.filemd5,
    type := TASK_ADDFILE }

/-- Tasks are added to TASK_Q_WAIT_SYNC_DIR; the other queues but TASK_Q_HOME stay, and so do the
    nodes that are held. -/
structure AddsTasks (sl : Slot → Option NodeId) (g g' : Sig) (ts : List (UInt32 × TaskBase)) :
    Prop where
  wait : ∃ l, g'.pool.carried .waitSyncDir = g.pool.carried .waitSyncDir ++ l ∧ l.map taskOf = ts
  rest : ∀ r, r ≠ .home → r ≠ .waitSyncDir → g'.pool.carried r = g.pool.carried r
  held : ∀ s j, sl s = some j → (g'.pool.node j).item = (g.pool.node j).item

namespace AddsTasks

theorem refl (sl : Slot → Option NodeId) (g : Sig) : AddsTasks sl g g [] :=
  ⟨⟨[], (append_nil _).symm, rfl⟩, fun _ _ _ => rfl, fun _ _ _ => rfl⟩

theorem trans {ts ts' : List (UInt32 × TaskBase)} (h : AddsTasks sl g g' ts)
    (h' : AddsTasks sl g' g'' ts') : AddsTasks sl g g'' (ts ++ ts') where
  wait := by
    obtain ⟨l, hl, rfl⟩ := h.wait
    obtain ⟨l', hl', rfl⟩ := h'.wait
    exact ⟨l ++ l', by rw [hl', hl, append_assoc], map_append⟩
  rest r hr hr' := (h'.rest r hr hr').trans (h.rest r hr hr')
  held s j hs := (h'.held s j hs).trans (h.held s j hs)

end AddsTasks

theorem InHand.ne_of_slot {P : Place → Item → Prop} {p : Pool} {s : Slot} {j : NodeId}
    (h : InHand P p sl i ⟨none, none⟩) (hs : sl s = some j) : j ≠ i := by
  rintro rfl
  cases (Focus.slot_eq h).mp hs

theorem syncDirFile_adds (hp : Held (compared none) cfg.datadir g.pool sl)
    (hlock : e.getLock .home = true) (hm : e.malloc = true) (hset : e.setLock .waitSyncDir = true)
    (f : DirFile) : AddsTasks sl g (syncDirFile e ip f g) [(ip, fileBase f)] := by
  obtain ⟨i, pool, hget⟩ := get_home_isSome hlock hm g.pool
  have hfile : syncDirFile e ip f g = { g with
      pool := e.set i .waitSyncDir
        (pool.create i e.now (fileBase f) { TaskSub.zero with peerip := ip }
        none) } := by
    unfold syncDirFile
    rw [hget]
    rfl
  rw [hfile]
  refine ⟨⟨[(i, ⟨fileBase f, { TaskSub.zero with peerip := ip }, e.now, none⟩)], ?_, rfl⟩,
    fun r hr hr' => ?_, fun s j hs => ?_⟩
  · change (e.set i .waitSyncDir _).carried .waitSyncDir = _
    rw [carried_new hp hget _ _ _ _ (by decide), if_pos ⟨hset, rfl⟩]
  · change (e.set i .waitSyncDir _).carried r = _
    rw [carried_new hp hget _ _ _ _ hr, if_neg fun h => hr' h.2]
  · obtain ⟨hloose, -⟩ := hp.take (free (by decide)) hget
    change ((e.set i .waitSyncDir (pool.create i _ _ _ _)).node j).item = _
    rw [item_set, Pool.create, node_modify_ne _ _ (hloose.inHand.ne_of_slot hs)]
    exact item_get hget j

theorem syncDirFiles_adds (ip : UInt32) (k : Nat) (hp : SigInv (compared none) cfg sl g)
    (hok : ∀ k, (envs k).getLock .home = true ∧ (envs k).malloc = true ∧
      (envs k).setLock .waitSyncDir = true) (fs : List DirFile) :
    AddsTasks sl g (syncDirFiles envs ip fs k g) (fs.map fun f => (ip, fileBase f)) := by
  induction fs generalizing k g with
  | nil => exact .refl sl g
  | cons f fs ih =>
    obtain ⟨hlock, hm, hset⟩ := hok k
    have hone : AddsTasks sl g (syncDirFile (envs k) ip f g) [(ip, fileBase f)] :=
      syncDirFile_adds hp.tasks hlock hm hset f
    have hp' : SigInv (compared none) cfg sl (syncDirFiles envs ip [f] k g) :=
      syncDirFiles_watched ip k hp (fun _ => envOk_compared _ _ _) fun hf => hf.elim
    exact hone.trans (ih (k + 1) hp')

/-- A node that is taken and held aside stays out of every queue while tasks are added. -/
theorem AddsTasks.notMem {ts : List (UInt32 × TaskBase)} {fd : Fd}
    (h : AddsTasks (update sl ⟨fd, .hand⟩ (some i)) g g' ts)
    (hp : Held (compared none) cfg.datadir g'.pool (update sl ⟨fd, .hand⟩ (some i)))
    (hi : ∀ q, i ∉ g.pool.q q) (q : TaskQ) : i ∉ g'.pool.q q := by
  intro hq
  obtain ⟨l, ⟨loc, ht, hloc, -⟩, hl, -⟩ := Stored.ofSlot hp.stored (update_self _ _ _)
  have hlink : (loc i).link = some q := (ht.link i q).mp hq
  rw [hloc] at hlink
  rcases hl with ⟨rfl, -⟩ | rfl
  · cases hlink
  obtain rfl : TaskQ.recv = q := Option.some.inj hlink
  rw [← carried_fst, h.rest .recv (by decide) (by decide), carried_fst] at hq
  exact hi .recv hq

/-- What `sync_dir_thread` does to the queues of a node it got, when nothing fails. -/
structure Serves (g g' : Sig) (pool : Pool) (i : NodeId) (ts : List (UInt32 × TaskBase)) :
    Prop where
  wait : ∃ l, g'.pool.carried .waitSyncDir = g.pool.carried .waitSyncDir ++ l ∧ l.map taskOf = ts
  req : g'.pool.carried .syncDirReq = pool.carried .syncDirReq
  rsp : ∀ x ∈ g'.pool.carried .syncDirRsp, x ∈ g.pool.carried .syncDirRsp ∨
    x.1 = i ∧ x.2.base.dstip = (pool.node i).base.dstip

theorem AddsTasks.serves {P : Place → Item → Prop} {pool : Pool} {ts : List (UInt32 × TaskBase)}
    (h : AddsTasks (update sl ⟨0, .hand⟩ (some i)) { g with pool := pool } g' ts)
    (hp : Stored P g.pool sl) (hget : e.get .syncDirReq g.pool = some (i, pool))
    (hout : ∀ q, i ∉ g'.pool.q q) (o : UInt8) :
    Serves g { g' with pool := e.set i .syncDirRsp (g'.pool.over i o) } pool i ts := by
  have hcarried (r : TaskQ) : (e.set i .syncDirRsp (g'.pool.over i o)).carried r =
      if e.setLock .syncDirRsp = true ∧ r = .syncDirRsp then
        g'.pool.carried r ++ [(i, ((g'.pool.over i o).node i).item)]
      else g'.pool.carried r := by
    rw [carried_set (show ∀ q, i ∉ (g'.pool.over i o).q q from hout), Pool.over,
      carried_modify (hout r)]
  have hother (r : TaskQ) (hr : r ≠ .syncDirRsp) :
      (e.set i .syncDirRsp (g'.pool.over i o)).carried r = g'.pool.carried r := by
    rw [hcarried, if_neg fun h => hr h.2]
  refine ⟨?_, ?_, fun x hx => ?_⟩
  · obtain ⟨l, hl, hts⟩ := h.wait
    refine ⟨l, ?_, hts⟩
    rw [hother _ (by decide), hl]
    exact congrArg (· ++ l) (carried_get_ne hp (by decide) hget)
  · rw [hother _ (by decide)]
    exact h.rest .syncDirReq (by decide) (by decide)
  · have hrest : g'.pool.carried .syncDirRsp = g.pool.carried .syncDirRsp :=
      (h.rest .syncDirRsp (by decide) (by decide)).trans (carried_get_ne hp (by decide) hget)
    rw [hcarried, hrest] at hx
    split at hx
    · rcases mem_append.mp hx with hx | hx
      · exact .inl hx
      have hitem : ((g'.pool.node i).item).base.dstip = (pool.node i).base.dstip := by
        rw [h.held ⟨0, .hand⟩ i (update_self _ _ _)]
        rfl
      rw [mem_singleton.mp hx, item_over]
      exact .inr ⟨rfl, hitem⟩
    · exact .inl hx

theorem syncDirTask_serves (hp : SigInv (compared none) cfg sl g) (hsl : sl ⟨0, .hand⟩ = none)
    {pool : Pool} (hget : e.get .syncDirReq g.pool = some (i, pool))
    (hok : ∀ k, (envs k).getLock .home = true ∧ (envs k).malloc = true ∧
      (envs k).setLock .waitSyncDir = true) (fs : List DirFile) :
    Serves g (syncDirTask e envs (some fs) g) pool i
      (fs.map fun f => ((pool.node i).base.dstip, fileBase f)) := by
  obtain ⟨hin, -⟩ := hp.tasks.take (free (by decide)) hget
  -- the thread has the request in hand while it takes nodes for the files
  have haside : SigInv (compared none) cfg (update sl ⟨0, .hand⟩ (some i))
      { g with pool := pool } :=
    ⟨hin.aside 0 hsl, hp.expired, fun r hr => (hp.marks r hr).pool pool⟩
  have hadds := syncDirFiles_adds (pool.node i).base.dstip 0 haside hok fs
  have hfiles : SigInv (compared none) cfg (update sl ⟨0, .hand⟩ (some i))
      (syncDirFiles envs (pool.node i).base.dstip fs 0 { g with pool := pool }) :=
    syncDirFiles_watched _ 0 haside (fun k => envOk_compared none cfg (envs k)) fun hf => hf.elim
  unfold syncDirTask
  rw [hget]
  exact hadds.serves hp.tasks.stored hget (hadds.notMem hfiles.tasks hin.inHand.notMem) OVER_OK

end Thread

/-! ## 5. The invariant -/

section Files

variable {datadir : Path} {w : FileFilter} {t : SyncTask}

theorem syncEntry_of_wanted (datadir : Path) {d : DirEntry} (hd : d.Wanted w t = true)
    (hr : d.Readable) :
    ∃ m, d.md5 = some m ∧
      syncEntry datadir w t d = some ⟨entryPath datadir t d, d.file.size, d.file.mtime, m⟩ := by
  obtain ⟨hname, hstat, hmd5⟩ := hr
  obtain ⟨m, hm⟩ := Option.ne_none_iff_exists'.mp hmd5
  unfold DirEntry.Wanted at hd
  simp only [Bool.and_eq_true, bne_iff_ne] at hd
  obtain ⟨⟨⟨⟨hreg, hread⟩, hsize⟩, hfilter⟩, hcovers⟩ := hd
  refine ⟨m, hm, ?_⟩
  unfold syncEntry
  simp [hname, hfilter, hstat, hsize, hreg, hcovers, hread, hm]

theorem wanted_have_tasks (ip : UInt32) (entries : List DirEntry)
    (hread : ∀ d ∈ entries, d.Wanted w t = true → d.Readable) :
    ∃ ts, List.Sublist ts
        ((entries.filterMap (syncEntry datadir w t)).map fun f => (ip, fileBase f)) ∧
      List.Forall₂ (fun d (x : UInt32 × TaskBase) => x.1 = ip ∧ x.2.type = TASK_ADDFILE ∧
          x.2.filename = entryPath datadir t d ∧ x.2.fsize = d.file.size ∧
          x.2.mtime = d.file.mtime ∧ d.md5 = some x.2.filemd5)
        (entries.filter fun d => d.Wanted w t) ts := by
  induction entries with
  | nil => exact ⟨[], .slnil, .nil⟩
  | cons d ds ih =>
    obtain ⟨ts, hsub, hall⟩ := ih fun d' hd' => hread d' (mem_cons_of_mem _ hd')
    rw [filterMap_cons]
    by_cases hd : d.Wanted w t = true
    · obtain ⟨m, hm, he⟩ := syncEntry_of_wanted datadir hd (hread d mem_cons_self hd)
      rw [he, filter_cons_of_pos hd]
      exact ⟨_ :: ts, hsub.cons_cons _, .cons ⟨rfl, rfl, rfl, rfl, rfl, hm⟩ hall⟩
    rw [filter_cons_of_neg hd]
    refine ⟨ts, ?_, hall⟩
    split
    · exact hsub
    · exact hsub.cons _

end Files

section Inv

variable (cfg : Cfg) (w : FileFilter)

/-- The requests that wait for the thread are as they came; those that wait for their answer are
    done. -/
structure DirPool (job : NodeId → DirJob) (p : Pool) : Prop where
  sound : ∃ sl, sl ⟨0, .hand⟩ = none ∧ Held (compared none) cfg.datadir p sl
  req : ∀ x ∈ p.carried .syncDirReq, x.2.base.dstip = (job x.1).ip ∧
    x.2.base.filename = (job x.1).req
  rsp : ∀ x ∈ p.carried .syncDirRsp, x.2.base.dstip = (job x.1).ip ∧ (job x.1).Done cfg w

def DirAnswer.Earned (a : DirAnswer) : Prop := a.ip = a.job.ip ∧ a.job.Done cfg w

/-- The pool is as it should be, and every answer was earned. -/
structure DirInv (s : DirSt) : Prop where
  pool : DirPool cfg w s.job s.sig.pool
  answers : ∀ a ∈ s.answers, a.Earned cfg w

end Inv

section Steps

variable {cfg : Cfg} {w : FileFilter} {job : NodeId → DirJob} {p p' : Pool} {g : Sig} {s : DirSt}
variable {e : Env} {envs : Nat → Env} {i : NodeId}

theorem sigInv_of_held {sl : Slot → Option NodeId}
    (h : Held (compared none) cfg.datadir g.pool sl) : SigInv (compared none) cfg sl g :=
  ⟨h, fun hf => hf.elim, marked_of_ref rfl g⟩

theorem mem_of_carried {q : TaskQ} {x : NodeId × Item} (hx : x ∈ p.carried q) : x.1 ∈ p.q q := by
  rw [← carried_fst]
  exact mem_map_of_mem hx

theorem update_job_of_carried {q : TaskQ} {x : NodeId × Item} (hx : x ∈ p.carried q)
    (hi : i ∉ p.q q) (j : DirJob) : update job i j x.1 = job x.1 := by
  refine update_of_ne ?_ _ _
  rintro rfl
  exact hi (mem_of_carried hx)

theorem DirInv.init : DirInv cfg w DirSt.init where
  pool := by
    have hempty (q : TaskQ) (hq : q ≠ .home) : DirSt.init.sig.pool.carried q = [] := by
      change List.map _ (update (fun _ => []) TaskQ.home (homeInit 2048) q) = []
      rw [update_of_ne hq]
      rfl
    refine ⟨⟨slots fun _ => none, slots_hand _ 0, (inv_init cfg rfl).tasks⟩, ?_, ?_⟩
    · rw [hempty _ (by decide)]
      exact fun x hx => absurd hx not_mem_nil
    · rw [hempty _ (by decide)]
      exact fun x hx => absurd hx not_mem_nil
  answers := fun a ha => absurd ha not_mem_nil

theorem DirInv.request (h : DirInv cfg w s) (hlock : e.getLock .home = true) (hm : e.malloc = true)
    (peer : SigPeer) {req : List UInt8} (hlen : req.length = SYNC_SIZE) :
    DirInv cfg w (s.request e peer req) := by
  obtain ⟨sl, hsl, hp⟩ := h.pool.sound
  obtain ⟨i, pool, hget⟩ := get_home_isSome hlock hm s.sig.pool
  unfold DirSt.request
  rw [hget]
  refine ⟨⟨⟨sl, hsl, ?_⟩, fun x hx => ?_, fun x hx => ?_⟩, h.answers⟩
  · exact (doSyncDirReq_watched (sigInv_of_held hp) (envOk_compared none cfg e)).tasks
  · unfold doSyncDirReq at hx
    rw [hget] at hx
    change x ∈ (e.set i .syncDirReq (pool.create i _ _ _ _)).carried .syncDirReq at hx
    change _ = (update s.job i _ x.1).ip ∧ _ = (update s.job i _ x.1).req
    rw [carried_new hp hget _ _ _ _ (by decide)] at hx
    have hold (hx : x ∈ s.sig.pool.carried .syncDirReq) :
        x.2.base.dstip = (update s.job i ⟨peer.ip, req, none⟩ x.1).ip ∧
          x.2.base.filename = (update s.job i ⟨peer.ip, req, none⟩ x.1).req := by
      rw [update_job_of_carried hx (hp.stored.get_notMem (by decide) hget)]
      exact h.pool.req x hx
    split at hx
    · rcases mem_append.mp hx with hx | hx
      · exact hold hx
      · rw [mem_singleton.mp hx, update_self]
        exact ⟨rfl, take_of_length_le (Nat.le_of_eq hlen)⟩
    · exact hold hx
  · unfold doSyncDirReq at hx
    rw [hget] at hx
    change x ∈ (e.set i .syncDirReq (pool.create i _ _ _ _)).carried .syncDirRsp at hx
    change _ = (update s.job i _ x.1).ip ∧ (update s.job i _ x.1).Done cfg w
    rw [carried_new hp hget _ _ _ _ (by decide), if_neg (by simp)] at hx
    rw [update_job_of_carried hx (hp.stored.get_notMem (by decide) hget)]
    exact h.pool.rsp x hx

theorem newTasks_of_append {l : List (NodeId × Item)}
    (h : p'.carried .waitSyncDir = p.carried .waitSyncDir ++ l) : newTasks p p' = l.map taskOf := by
  unfold newTasks
  rw [h, drop_left]

theorem DirInv.round {listing : Option (List DirEntry)} (h : DirInv cfg w s)
    (hok : Thorough cfg w s (.round e envs listing)) :
    DirInv cfg w (s.round cfg w e envs listing) := by
  obtain ⟨sl, hsl, hp⟩ := h.pool.sound
  have hsig : SigInv (compared none) cfg sl s.sig := sigInv_of_held hp
  unfold DirSt.round
  split
  · exact h
  rename_i i pool hget
  obtain ⟨entries, rfl, hread⟩ := hok.2 i pool hget
  obtain ⟨hin, -⟩ := hp.take (free (by decide)) hget
  have hreq := carried_get hp.stored (by decide) hget
  obtain ⟨hip, hfile⟩ := h.pool.req (i, (pool.node i).item) (hreq ▸ mem_cons_self)
  have hserves := syncDirTask_serves hsig hsl hget hok.1
    (entries.filterMap (syncEntry cfg.datadir w (readSyncTask (pool.node i).base.filename)))
  refine ⟨⟨⟨sl, hsl, ?_⟩, fun x hx => ?_, fun x hx => ?_⟩, h.answers⟩
  · exact (syncDirTask_watched hsig (envOk_compared none cfg e)
      (fun k => envOk_compared none cfg (envs k)) (fun hf => hf.elim) hsl).tasks
  · change x ∈ (syncDirTask e envs (some _) s.sig).pool.carried .syncDirReq at hx
    change _ = (update s.job i _ x.1).ip ∧ _ = (update s.job i _ x.1).req
    rw [hserves.req] at hx
    rw [update_job_of_carried hx (hin.inHand.notMem _)]
    exact h.pool.req x (hreq ▸ mem_cons_of_mem _ hx)
  · change x ∈ (syncDirTask e envs (some _) s.sig).pool.carried .syncDirRsp at hx
    change _ = (update s.job i _ x.1).ip ∧ (update s.job i _ x.1).Done cfg w
    rcases hserves.rsp x hx with hx | ⟨rfl, hdst⟩
    · rw [update_job_of_carried hx (hp.stored.get_notMem (by decide) hget)]
      exact h.pool.rsp x hx
    rw [update_self]
    obtain ⟨l, hl, hts⟩ := hserves.wait
    obtain ⟨ts, hsub, hall⟩ := wanted_have_tasks (pool.node x.1).base.dstip entries hread
    rw [← hts, ← newTasks_of_append hl] at hsub
    have hip : (pool.node x.1).base.dstip = (s.job x.1).ip := hip
    have hfile : (pool.node x.1).base.filename = (s.job x.1).req := hfile
    rw [hip, hfile] at hall
    exact ⟨hdst.trans hip, entries, _, ts, rfl, hsub, hall⟩

theorem checkLoop_inv (envs : Nat → Env) (n k : Nat) (h : DirPool cfg w job g.pool) :
    DirPool cfg w job (checkSyncLoop envs n k g).pool ∧
      ∀ a ∈ checkAnswers job envs n k g, a.Earned cfg w := by
  induction n generalizing k g with
  | zero => exact ⟨h, fun a ha => absurd ha not_mem_nil⟩
  | succ n ih =>
    unfold checkSyncLoop checkAnswers
    cases hget : (envs k).get .syncDirRsp g.pool with
    | none => exact ⟨h, fun a ha => absurd ha not_mem_nil⟩
    | some r =>
      obtain ⟨i, pool⟩ := r
      obtain ⟨sl, hsl, hp⟩ := h.sound
      obtain ⟨hin, -⟩ := hp.take (free (by decide)) hget
      have hrsp := carried_get hp.stored (by decide) hget
      obtain ⟨hip, hdone⟩ := h.rsp (i, (pool.node i).item) (hrsp ▸ mem_cons_self)
      have hpool : (checkSyncOne (envs k) i { g with pool := pool }).pool =
        (envs k).set i .home pool := by
        unfold checkSyncOne
        dsimp only
        split <;> rfl
      have hcarried (r : TaskQ) (hr : r ≠ .home) :
          ((envs k).set i .home pool).carried r = pool.carried r := by
        rw [carried_set hin.inHand.notMem, if_neg fun h => hr h.2]
      have hone : DirPool cfg w job (checkSyncOne (envs k) i { g with pool := pool }).pool := by
        rw [hpool]
        refine ⟨⟨sl, hsl, ?_⟩, fun x hx => ?_, fun x hx => ?_⟩
        · exact hin.place (free (by decide)) (fun hf => hf.elim) (queuedOk_compared _ _ _ _)
        · rw [hcarried _ (by decide), carried_get_ne hp.stored (by decide) hget] at hx
          exact h.req x hx
        · rw [hcarried _ (by decide)] at hx
          exact h.rsp x (hrsp ▸ mem_cons_of_mem _ hx)
      obtain ⟨hend, hans⟩ := ih (k + 1) hone
      refine ⟨hend, fun a ha => ?_⟩
      rcases mem_append.mp ha with ha | ha
      · obtain ⟨peer, hpeer, rfl⟩ := Option.map_eq_some_iff.mp (Option.mem_toList.mp ha)
        have hfound : peer.ip = (pool.node i).base.dstip := by simpa using find?_some hpeer
        exact ⟨hfound.trans hip, hdone⟩
      · exact hans a ha

theorem DirInv.step {s' : DirSt} {a : DirAct} (h : DirInv cfg w s) (hok : Thorough cfg w s a)
    (hs : dirNext cfg w s a = some s') : DirInv cfg w s' := by
  cases a with
  | connect fd ip =>
    cases hs
    refine ⟨?_, h.answers⟩
    change DirPool cfg w s.job (s.sig.connect fd ip).pool
    unfold Sig.connect
    split <;> exact h.pool
  | close fd =>
    cases hs
    exact ⟨h.pool, h.answers⟩
  | request fd req e =>
    cases hs
    unfold DirSt.recvRequest
    split
    · exact h
    split
    · rename_i hlen
      exact h.request hok.1 hok.2 _ hlen
    · exact h
  | round e envs listing =>
    cases hs
    exact h.round hok
  | check envs =>
    cases hs
    obtain ⟨hpool, hans⟩ := checkLoop_inv envs (s.sig.pool.q .syncDirRsp).length 0 h.pool
    refine ⟨hpool, fun a ha => ?_⟩
    rcases mem_append.mp ha with ha | ha
    · exact h.answers a ha
    · exact hans a ha
  | other g =>
    cases hs
    refine ⟨⟨hok.sound, ?_, ?_⟩, h.answers⟩
    · change ∀ x ∈ g.pool.carried .syncDirReq, _
      rw [hok.req]
      exact h.pool.req
    · change ∀ x ∈ g.pool.carried .syncDirRsp, _
      rw [hok.rsp]
      exact h.pool.rsp

end Steps

/-! ## 6. Answers -/

/-- **A directory sync is acknowledged only when it was done**: every answer went to the member that
    had asked, for a request whose directory was enumerated, with a task for every file it asked
    for. -/
theorem answered_done (cfg : Cfg) (w : FileFilter) {s : DirSt}
    (h : Run (dirNext cfg w) (Thorough cfg w) DirSt.init s) :
    ∀ a ∈ s.answers, a.ip = a.job.ip ∧ a.job.Done cfg w := by
  refine (Run.inv (I := DirInv cfg w) DirInv.init ?_ h).answers
  intro s s' a hinv hok hs
  exact hinv.step hok hs

/-- The directory 1/2, without bounds on the time. -/
def wholeDir : List UInt8 := [1, 0, 0, 0, 2, 0, 0, 0] ++ List.replicate 24 0

def openFilter : FileFilter := ⟨true, []⟩

def oneFile : DirEntry :=
  ⟨ascii "a", ⟨3, 10, 10, true, true⟩, some ⟨3, 10, 10, true, true⟩, some [7]⟩

/-- Member 2 asks for the directory; the thread finds `listing` there. -/
def oneSync (e : Env) (listing : Option (List DirEntry)) : List DirAct :=
  [.connect 9 2, .request 9 wholeDir e, .round (smallEnv 5) (fun _ => smallEnv 5) listing,
    .check fun _ => smallEnv 6]

theorem answered_done_one : ∃ s : DirSt, s.answers.map DirAnswer.ip = [2] ∧
    ∀ a ∈ s.answers, a.ip = a.job.ip ∧ a.job.Done smallCfg openFilter := by
  have hmeets : Meets (dirNext smallCfg openFilter) (Thorough smallCfg openFilter) DirSt.init
      (oneSync (smallEnv 4) (some [oneFile])) := by
    refine ⟨trivial, fun s hs => ⟨⟨rfl, rfl⟩, fun s' hs' => ⟨⟨fun k => ⟨rfl, rfl, rfl⟩, ?_⟩,
      fun s'' hs'' => ⟨trivial, fun _ _ => trivial⟩⟩⟩⟩
    intro i pool hget
    refine ⟨[oneFile], rfl, fun d hd _ => ?_⟩
    rw [mem_singleton.mp hd]
    exact ⟨by decide, rfl, by decide⟩
  exact ⟨_, rfl, answered_done smallCfg openFilter (run_of_exec _ .start hmeets rfl)⟩

/-- **Answers without a sync**: no node can be had for the request; or the directory cannot be
    opened. -/
theorem answered_undone :
    (∃ s a, Run (dirNext smallCfg openFilter) (Admits smallCfg) DirSt.init s ∧ s.answers = [a] ∧
      a.ip = 2 ∧ a.job.round = none ∧ ¬ a.job.Done smallCfg openFilter) ∧
    (∃ s a, Run (dirNext smallCfg openFilter) (Admits smallCfg) DirSt.init s ∧ s.answers = [a] ∧
      a.ip = 2 ∧ a.job.round = some (none, []) ∧ ¬ a.job.Done smallCfg openFilter) := by
  have hmeets (e : Env) : Meets (dirNext smallCfg openFilter) (Admits smallCfg) DirSt.init
      (oneSync e none) :=
    ⟨trivial, fun _ _ => ⟨trivial, fun _ _ => ⟨trivial, fun _ _ => ⟨trivial, fun _ _ => trivial⟩⟩⟩⟩
  refine ⟨⟨_, _, run_of_exec _ .start (hmeets { smallEnv 4 with getLock := fun _ => false }) rfl,
    rfl, rfl, rfl, ?_⟩, ⟨_, _, run_of_exec _ .start (hmeets (smallEnv 4)) rfl, rfl, rfl, rfl, ?_⟩⟩
  · rintro ⟨entries, created, ts, hr, -⟩
    cases hr
  · rintro ⟨entries, created, ts, hr, -⟩
    cases hr

end Pfs
