/-
  One connection of the upload service (network/U/pfs_up_task.c, network/U/pfs_up.c):
  what its requests and its file bytes come to.

  Messages and file bytes are steps of the storage (Machine.lean), everything else is a step that
  leaves the connection's task alone (`LeavesUpload`). Mark: the file of the last request, with what
  has been written (`UpFile`).
-/
import Pfs.StreamDigest
import Pfs.Watch.Run

namespace Pfs

open Lib Function List

/-! ## 1. The machine -/

/-- The file of a connection's last request: its names, the announced digest and size, and what has
    been written. -/
structure UpFile where
  tmpfile : Path
  path : Path
  filemd5 : List UInt8
  fsize : Int
  written : List UInt8

structure UpSt where
  store : Storage
  file : UpFile

def UpSt.init : UpSt := ⟨Storage.init, ⟨[], [], [], 0, []⟩⟩

/-- What an upload is made of, and what else may come in between. -/
inductive UpAct where
  /-- `svc_recv` finds a message -/
  | msg (h : SigHead) (base : TaskBase) (e e' : Env)
  /-- `svc_recv` in RECVFILEING -/
  | data (b : Mybuff) (e e' : Env)
  /-- anything else, and what is there then -/
  | other (t : Storage)

def Storage.recvtask (s : Storage) (fd : Fd) : Option NodeId := (s.conn fd).bind (·.recvtask)

section Machine

variable (cfg : Cfg) (fd : Fd)

/-- A request that gives the connection a task begins a file. -/
def UpFile.begun (x : UpFile) (base : TaskBase) (s t : Storage) : UpFile :=
  match s.recvtask fd, t.recvtask fd with
  | none, some i =>
    ⟨(t.pool.node i).base.tmpfile, (t.pool.node i).base.filename, base.filemd5, base.fsize, []⟩
  | _, _ => x

/-- The file after a call of `svc_recv`. -/
def UpFile.received (x : UpFile) (b : Mybuff) (e : Env) (s : Storage) : UpFile :=
  match s.conn fd with
  | none => x
  | some p =>
    match p.recvtask with
    | none => x
    | some i =>
      let sub := (s.pool.node i).sub
      { x with
        written :=
          (svcRecvFile md5 e.write b ⟨sub.processlen, sub.lastlen, p.ctx, x.written⟩).2.2.file }

/-- A step of the storage, and of the mark. -/
def upNext (s : UpSt) : UpAct → Option UpSt
  | .msg h base e e' =>
    (next cfg s.store (.recvMsg fd h base e e')).map fun t => ⟨t, s.file.begun fd base s.store t⟩
  | .data b e e' =>
    (next cfg s.store (.recvData fd b e e')).map fun t => ⟨t, s.file.received fd b e s.store⟩
  | .other t => some ⟨t, s.file⟩

end Machine

/-! ## 2. What is observed -/

/-- A CMD_PUT_FILE_RSP whose body starts with "OK|" is queued on the connection. -/
def RepliesOk (fd : Fd) (s t : Storage) : Prop :=
  ∃ p p' body, s.conn fd = some p ∧ t.conn fd = some p' ∧ body.length < 2 ^ 16 ∧
    ascii "OK|" <+: body ∧
    p'.sendBuff.contents =
      p.sendBuff.contents ++ createSigMsg CMD_PUT_FILE_RSP 0 body body.length

/-- A source task with OVER_OK comes to TASK_Q_FIN. -/
def HandsOver (s t : Storage) : Prop :=
  ∃ i, i ∉ s.pool.q .fin ∧ i ∈ t.pool.q .fin ∧
    (t.pool.node i).item.base.overstatus = OVER_OK ∧ (t.pool.node i).item.sub.needSync = .source

/-- The operation took effect: a delete has renamed the named file away, or the complete file, with
    the announced digest, has got its final name. -/
def Done (cfg : Cfg) (s t : UpSt) : UpAct → Prop
  | .msg _ base e _ =>
    base.type = TASK_DELFILE ∧ e.fs.rename = true ∧
      ∃ r file, storageConvert e.pre cfg.datadir base.filename = .ok (some (r, file)) ∧
        t.store.fs = s.store.fs ++ [.rename file ((file ++ rmSuffix).take 255)]
  | .data _ e _ =>
    (t.file.written.length = t.file.fsize ∧ md5.digest t.file.written = t.file.filemd5.dropLast) ∧
      e.fs.rename = true ∧
      ∃ ops, t.store.fs = s.store.fs ++ (ops ++ [.rename t.file.tmpfile t.file.path])
  | .other _ => False

/-- A step that handles a CMD_PUT_FILE_REQ, other than the query. -/
def UpAct.Handles : UpAct → Prop
  | .msg h base _ _ => h.cmdid = CMD_PUT_FILE_REQ ∧ h.bodylen = BASE_SIZE ∧
    ¬ (base.type = TASK_DELFILE ∧ h.status = ADD_QUERY_DIR)
  | .data _ _ _ => True
  | .other _ => False

/-! ## 3. Conditions -/

/-- No node is both free and finished, and all of them are allocated. -/
structure Tidy (p : Pool) : Prop where
  apart : ∀ i ∈ p.q .home, i ∉ p.q .fin
  home : ∀ i ∈ p.q .home, i < p.fresh
  fin : ∀ i ∈ p.q .fin, i < p.fresh

/-- What the rest of the storage does: the connection stays, but for its send buffer, ends, or is a
    new one; and its task stays as it is, outside of TASK_Q_FIN. -/
structure LeavesUpload (fd : Fd) (s t : Storage) : Prop where
  tidy : Tidy t.pool
  conn : ∀ p', t.conn fd = some p' → (∃ ip, p' = .init .up ip) ∨
    ∃ p b n, s.conn fd = some p ∧ p' = { p with sendBuff := b, sendLen := n }
  task : ∀ p i, t.conn fd = some p → p.recvtask = some i →
    (t.pool.node i).item = (s.pool.node i).item ∧ i ∉ t.pool.q .fin ∧ i < t.pool.fresh

/-- A call of `svc_recv` that writes and digests the same bytes: `write` takes all or fails, no more
    is buffered than the file is missing, and fewer than `2^31` bytes. A digest that is computed
    again is that of the file. -/
structure CleanCall (x : UpFile) (b : Mybuff) (e : Env) : Prop where
  write : ∀ k : Nat, e.write k = k ∨ e.write k = -1
  missing : (b.contents.length : Int) ≤ x.fsize - x.written.length
  short : b.contents.length < 2 ^ 31
  all : TakesAll (x.fsize - x.written.length).toNat b.contents.length
  reread : ∀ m, e.fs.filemd5 = some m → m = md5.digest (x.written ++ b.contents)

/-- The lock of TASK_Q_FIN is had, a delete can be made, and parts come as in `CleanCall`. -/
def Sound (fd : Fd) (s : UpSt) : UpAct → Prop
  | .msg h base e _ => h.cmdid = CMD_PUT_FILE_REQ → ∀ p, s.store.conn fd = some p →
    if base.type = TASK_DELFILE then
      slash ∈ base.filename ∧ e.fs.rename = true ∧ e.setLock .fin = true
    else p.ctx = md5.init
  | .data b e _ => e.setLock .fin = true ∧ (s.store.recvtask fd ≠ none → CleanCall s.file b e)
  | .other t => LeavesUpload fd s.store t

/-! ## 4. The pool -/

section Pool

variable {e : Env} {p p' : Pool} {i j : NodeId} {q r : TaskQ}

theorem mem_of_get (h : e.get q p = some (i, p')) (hj : j ∈ p'.q r) : j ∈ p.q r := by
  obtain ⟨js, -, rfl⟩ | ⟨-, rfl, rfl⟩ := Env.get_cases h
  · exact mem_of_mem_filter hj
  · exact hj

theorem Tidy.get (h : Tidy p) (hget : e.get .home p = some (i, p')) :
    Tidy p' ∧ i ∉ p.q .fin ∧ i < p'.fresh := by
  have hsub {r : TaskQ} {j : NodeId} (hj : j ∈ p'.q r) : j ∈ p.q r := mem_of_get hget hj
  have hnode : i ∉ p.q .fin ∧ i < p'.fresh ∧ p.fresh ≤ p'.fresh := by
    obtain ⟨js, hq, rfl⟩ | ⟨-, rfl, rfl⟩ := Env.get_cases hget
    · have hmem : i ∈ p.q .home := by
        rw [hq]
        exact mem_cons_self
      exact ⟨h.apart i hmem, h.home i hmem, Nat.le_refl _⟩
    · exact ⟨fun hmem => absurd (h.fin _ hmem) (Nat.lt_irrefl _), Nat.lt_succ_self _,
        Nat.le_succ _⟩
  refine ⟨⟨fun j hj hf => h.apart j (hsub hj) (hsub hf), fun j hj => ?_, fun j hj => ?_⟩, hnode.1,
    hnode.2.1⟩
  · exact Nat.lt_of_lt_of_le (h.home j (hsub hj)) hnode.2.2
  · exact Nat.lt_of_lt_of_le (h.fin j (hsub hj)) hnode.2.2

theorem Tidy.modify (h : Tidy p) (i : NodeId) (f : Tasklist → Tasklist) : Tidy (p.modify i f) :=
  ⟨h.apart, h.home, h.fin⟩

theorem mem_of_set (h : j ∈ (e.set i q p).q r) :
    j ∈ p.q r ∧ (e.setLock q = true → j ≠ i) ∨ e.setLock q = true ∧ j = i ∧ r = q := by
  have hrest (hj : j ∈ (p.unlink i).q r) : j ∈ p.q r ∧ j ≠ i := by
    obtain ⟨hmem, hne⟩ := mem_filter.mp hj
    exact ⟨hmem, by simpa using hne⟩
  rw [Env.q_set] at h
  split at h
  · rename_i hlock
    split at h
    · rename_i hr
      rcases mem_append.mp h with h | h
      · exact .inl ⟨(hrest h).1, fun _ => (hrest h).2⟩
      · exact .inr ⟨hlock, mem_singleton.mp h, hr⟩
    · exact .inl ⟨(hrest h).1, fun _ => (hrest h).2⟩
  · rename_i hlock
    exact .inl ⟨h, fun hl => absurd hl hlock⟩

theorem mem_set_self (h : e.setLock q = true) : i ∈ (e.set i q p).q q := by
  rw [Env.q_set, if_pos h, if_pos rfl]
  exact mem_append_right _ mem_cons_self

theorem Tidy.set (h : Tidy p) (hi : i < p.fresh) (hq : q ≠ .home) : Tidy (e.set i q p) := by
  have hfresh : (e.set i q p).fresh = p.fresh := fresh_set e i q p
  have hhome {j : NodeId} (hj : j ∈ (e.set i q p).q .home) :
      j ∈ p.q .home ∧ (e.setLock q = true → j ≠ i) := by
    rcases mem_of_set hj with h | h
    · exact h
    · exact absurd h.2.2.symm hq
  refine ⟨fun j hj hf => ?_, fun j hj => ?_, fun j hj => ?_⟩
  · rcases mem_of_set hf with hf | ⟨hlock, rfl, -⟩
    · exact h.apart j (hhome hj).1 hf.1
    · exact (hhome hj).2 hlock rfl
  · rw [hfresh]
    exact h.home j (hhome hj).1
  · rw [hfresh]
    rcases mem_of_set hj with hj | ⟨-, rfl, -⟩
    · exact h.fin j hj.1
    · exact hi

def watchNothing : Watch := ⟨False, False, False, none⟩

theorem tidy_of_reach {cfg : Cfg} {s : Storage} (h : Reach (next cfg) Storage.init s) :
    Tidy s.pool := by
  have hi : Inv watchNothing cfg s :=
    inv_of_run rfl (h.mono fun _ _ _ => ⟨fun hf => hf.elim, fun hf => hf.elim, fun hf => hf.elim⟩)
  obtain ⟨loc, ht, hall⟩ := hi.tasks.stored
  have hlink (i : NodeId) (q : TaskQ) : i ∈ s.pool.q q ↔ (loc i).link = some q := ht.link i q
  have hfresh (i : NodeId) (q : TaskQ) (hm : i ∈ s.pool.q q) : i < s.pool.fresh := by
    by_contra hn
    have hnone := (hall i).2 hn
    rw [hlink, hnone] at hm
    cases hm
  refine ⟨fun i hh hf => ?_, fun i hm => hfresh i _ hm, fun i hm => hfresh i _ hm⟩
  rw [hlink] at hh hf
  cases hh.symm.trans hf

end Pool

/-! ## 5. Replies -/

section Replies

variable {cfg : Cfg} {fd : Fd} {s t : Storage} {p p' : Peer}

theorem contents_createPushRsp (cfg : Cfg) (base : TaskBase) (p : Peer) :
    ∃ body, body.length < 2 ^ 16 ∧ ascii "OK|" <+: body ∧
      (createPushRsp cfg base p).sendBuff.contents =
        p.sendBuff.contents ++ createSigMsg CMD_PUT_FILE_RSP 0 body body.length := by
  let text := ascii "OK|" ++ base.retfile ++ ascii "|" ++ cfg.domain
  have hlen : (charField 256 (text.take 255)).length = 256 := by
    unfold charField
    rw [length_take, length_append, length_replicate]
    omega
  refine ⟨charField 256 (text.take 255), by rw [hlen]; decide, ?_, ?_⟩
  · have hc : text = ascii "OK|" ++ (base.retfile ++ ascii "|" ++ cfg.domain) := by
      simp only [text, append_assoc]
    rw [hc]
    exact ⟨_, rfl⟩
  · rw [hlen]
    exact Mybuff.contents_setdata _ _

theorem createPushRspErr_ne {errmsg body : List UInt8} (herr : errmsg.head? ≠ some 79)
    (hlen : body.length < 2 ^ 16) (hok : ascii "OK|" <+: body) :
    createSigMsg CMD_PUT_FILE_RSP 0 errmsg errmsg.length ≠
      createSigMsg CMD_PUT_FILE_RSP 0 body body.length := by
  obtain ⟨c, rfl⟩ := hok
  intro h
  have hbody := congrArg (List.drop 4) h
  change errmsg.take _ = (ascii "OK|" ++ c).take _ at hbody
  rw [Nat.mod_eq_of_lt hlen, take_length] at hbody
  have hhead := congrArg List.head? hbody
  rw [head?_take] at hhead
  split at hhead
  · cases hhead
  · exact herr hhead

theorem not_repliesOk_of_same (hp : s.conn fd = some p) (hp' : t.conn fd = some p')
    (hb : p'.sendBuff = p.sendBuff) : ¬ RepliesOk fd s t := by
  intro hx
  obtain ⟨q, q', body, hq, hq', -, -, hc⟩ := hx
  rw [hp] at hq
  rw [hp'] at hq'
  cases hq
  cases hq'
  rw [hb] at hc
  have hlen := congrArg List.length hc
  simp [createSigMsg, headBytes] at hlen

theorem not_repliesOk_of_err (hp : s.conn fd = some p) {q : Peer} {errmsg : List UInt8}
    (hp' : t.conn fd = some (createPushRspErr cfg errmsg q)) (hb : q.sendBuff = p.sendBuff)
    (herr : errmsg.head? ≠ some 79) : ¬ RepliesOk fd s t := by
  intro hx
  obtain ⟨x, x', body, hx, hx', hlen, hok, hc⟩ := hx
  rw [hp] at hx
  rw [hp'] at hx'
  cases hx
  cases hx'
  have hsay : (createPushRspErr cfg errmsg q).sendBuff.contents =
      q.sendBuff.contents ++ createSigMsg CMD_PUT_FILE_RSP 0 errmsg errmsg.length :=
    Mybuff.contents_setdata _ _
  rw [hsay, hb] at hc
  exact createPushRspErr_ne herr hlen hok (append_cancel_left hc)

theorem repliesOk_of_rsp (hp : s.conn fd = some p) {q : Peer} {base : TaskBase}
    (hp' : t.conn fd = some p') (hb : q.sendBuff = p.sendBuff)
    (hb' : p'.sendBuff = (createPushRsp cfg base q).sendBuff) : RepliesOk fd s t := by
  obtain ⟨body, hlen, hok, hc⟩ := contents_createPushRsp cfg base q
  refine ⟨p, p', body, hp, hp', hlen, hok, ?_⟩
  rw [hb', hc, hb]

theorem not_repliesOk_of_closed (h : t.conn fd = none) : ¬ RepliesOk fd s t := by
  intro hx
  obtain ⟨p, p', body, -, hp', -⟩ := hx
  rw [h] at hp'
  cases hp'

theorem not_handsOver (h : ∀ i ∈ t.pool.q .fin, i ∈ s.pool.q .fin ∨
    (t.pool.node i).item.base.overstatus ≠ OVER_OK) : ¬ HandsOver s t := by
  intro hx
  obtain ⟨i, hnot, hin, hover, -⟩ := hx
  rcases h i hin with h | h
  · exact hnot h
  · exact h hover

end Replies

/-! ## 6. What a request comes to -/

/-- What `do_push_task` of the upload service comes to. -/
inductive Pushed (cfg : Cfg) (fd : Fd) (e : Env) (h : SigHead) (base : TaskBase) (p : Peer)
    (s : Storage) : Storage → Prop where
  | query (hq : base.type = TASK_DELFILE ∧ h.status = ADD_QUERY_DIR) :
    Pushed cfg fd e h base p s (s.setPeer fd (doQueryOther cfg e p))
  | full (hget : e.get .home s.pool = none) :
    Pushed cfg fd e h base p s (s.setPeer fd (createPushRspErr cfg (ascii "malloc error!")
      { p with sockStat := .prepareRecvfile }))
  | deleted {i : NodeId} {pool : Pool} {ret : LocalRet} {b : TaskBase} {ops : List FsOp}
    {rm : Option Path} {k : Svc → Nat} (hget : e.get .home s.pool = some (i, pool))
    (htype : base.type = TASK_DELFILE)
    (hdel : deleteLocalfile e.pre cfg.datadir e.fs base = .ok (ret, b, ops, rm)) :
    Pushed cfg fd e h base p s
      ({ s with
          pool := e.set i .fin
            ((pool.create i e.now (pushBase e p base) (pushSub p base) none).over i OVER_OK)
          picIndex := k
          timers := s.timers ++ rm.toList
          fs := s.fs ++ ops }.setPeer fd
        (createPushRsp cfg (pushBase e p base)
          { p with sockStat := .prepareRecvfile, recvtask := none }))
  | unopened {i : NodeId} {pool : Pool} {b b' : TaskBase} {lfd : Int} {ops : List FsOp}
    {k : Svc → Nat} {g : Nat} (hget : e.get .home s.pool = some (i, pool))
    (htype : base.type ≠ TASK_DELFILE) :
    Pushed cfg fd e h base p s
      ({ s with
          pool := e.set i .clean (((pool.create i e.now b (pushSub p base) none).store i b'
            (pushSub p base)).over i OVER_E_OPEN_DSTFILE)
          picIndex := k
          gIndex := g
          fs := s.fs ++ ops }.setPeer fd
        (createPushRspErr cfg (ascii "open remote file err")
          { p with sockStat := .prepareRecvfile, localInFd := lfd, recvtask := none }))
  | opened {i : NodeId} {pool : Pool} {b b' : TaskBase} {lfd : Int} {ops : List FsOp}
    {k : Svc → Nat} {g : Nat} (hget : e.get .home s.pool = some (i, pool))
    (htype : base.type ≠ TASK_DELFILE) (hmd5 : b'.filemd5 = base.filemd5) :
    Pushed cfg fd e h base p s
      ({ s with
          pool := (pool.create i e.now b (pushSub p base) none).store i b' (pushSub p base)
          picIndex := k
          gIndex := g
          fs := s.fs ++ ops }.setPeer fd
        { p with sockStat := .recvfileing, localInFd := lfd, recvtask := some i })

section Push

variable {cfg : Cfg} {fd : Fd} {e : Env} {h : SigHead} {base : TaskBase} {p : Peer}
variable {s t : Storage} {ret : RecvRet}

theorem openTmpLocalfile4Write_filemd5 {pre datadir : Path} {fs : FsEnv} {g g' : Nat}
    {b b' : TaskBase} {r : LocalRet} {lfd : Option Int} {ops : List FsOp}
    (h : openTmpLocalfile4Write pre datadir fs g b = .ok (r, lfd, b', g', ops)) :
    b'.filemd5 = b.filemd5 := by
  unfold openTmpLocalfile4Write at h
  split at h
  · cases h
  · cases h
    rfl
  simp only at h
  split at h
  · cases h
  · cases h
    rfl

theorem pushBase_filemd5 (e : Env) (p : Peer) (b : TaskBase) :
    (pushBase e p b).filemd5 = b.filemd5 := by
  unfold pushBase
  split <;> rfl

theorem doPushTask_pushed (hsvc : p.svc = .up)
    (hr : doPushTask cfg e fd h base p s = .ok (ret, t)) :
    Pushed cfg fd e h base p s t ∧ ret ≠ .close := by
  obtain ⟨svc, ip, mode, stat, lfd, headlen, close, ctx, rt, st, len, buf⟩ := p
  obtain rfl : svc = .up := hsvc
  unfold doPushTask at hr
  split at hr
  · rename_i hq
    cases hr
    exact ⟨.query hq.2, by decide⟩
  unfold pushTask at hr
  cases hget : e.get .home s.pool with
  | none =>
    simp only [hget] at hr
    cases hr
    exact ⟨.full hget, by decide⟩
  | some x =>
    obtain ⟨i, pool⟩ := x
    simp only [hget] at hr
    split at hr
    · cases hr
    rename_i name k hname
    by_cases htype : base.type = TASK_DELFILE
    · -- a delete keeps the name it came with
      have hsame : name = base.filename := by
        unfold pushName at hname
        rw [if_neg (fun hc => hc.1 htype), if_neg (fun hc => hc.1 htype)] at hname
        cases hname
        rfl
      subst hsame
      rw [if_pos htype] at hr
      unfold pushDelete at hr
      split at hr
      · cases hr
      rename_i r b ops rm hdel
      simp only [Storage.log, base_create] at hr
      cases hr
      exact ⟨.deleted hget htype hdel, by decide⟩
    · rw [if_neg htype] at hr
      unfold pushOpen at hr
      simp only [base_create, sub_create] at hr
      split at hr
      · cases hr
      rename_i r lfd b' g ops hopen
      have hmd5 := openTmpLocalfile4Write_filemd5 hopen
      rw [pushBase_filemd5] at hmd5
      split at hr
      · cases hr
        exact ⟨.unopened hget htype, by decide⟩
      · cases hr
        exact ⟨.opened hget htype hmd5, by decide⟩

end Push

theorem doReq_up {cfg : Cfg} {fd : Fd} {e : Env} {h : SigHead} {base : TaskBase} {p : Peer}
    {s t : Storage} {ret : RecvRet} (hsvc : p.svc = .up) (hrt : p.recvtask = none)
    (hr : doReq cfg e fd h base p s = .ok (ret, t)) :
    ret = .close ∧ t = s ∧ ¬ (h.cmdid = CMD_PUT_FILE_REQ ∧ h.bodylen = BASE_SIZE) ∨
      ret ≠ .close ∧ h.cmdid = CMD_PUT_FILE_REQ ∧ Pushed cfg fd e h base p s t := by
  unfold doReq at hr
  split at hr
  · rename_i hcmd
    have hput : ¬ (h.cmdid = CMD_PUT_FILE_REQ ∧ h.bodylen = BASE_SIZE) := by
      rw [hcmd]
      exact fun hc => absurd hc.1 (by decide)
    split at hr
    · cases hr
      exact .inl ⟨rfl, rfl, hput⟩
    unfold doRecvTask at hr
    rw [hrt] at hr
    split at hr
    · cases hr
      exact .inl ⟨rfl, rfl, hput⟩
    · cases hr
  · split at hr
    · rename_i hdata
      rw [hsvc] at hdata
      cases hdata.2
    split at hr
    · rename_i hcmd
      split at hr
      · rename_i hlen
        cases hr
        exact .inl ⟨rfl, rfl, fun hc => hlen hc.2⟩
      · obtain ⟨hpushed, hret⟩ := doPushTask_pushed hsvc hr
        exact .inr ⟨hret, hcmd, hpushed⟩
    · rename_i hcmd
      cases hr
      exact .inl ⟨rfl, rfl, fun hc => hcmd hc.1⟩

theorem doClose_idle {s : Storage} {fd : Fd} {p : Peer} (hp : s.conn fd = some p)
    (hrt : p.recvtask = none) (hst : p.sendtask = none) (e : Env) :
    (s.doClose e fd).pool = s.pool ∧ (s.doClose e fd).fs = s.fs ∧
      (s.doClose e fd).conn fd = none := by
  unfold Storage.doClose
  simp only [hp, svcFiniconn, finiSend, finiRecv, hrt, hst]
  exact ⟨trivial, trivial, update_self _ _ _⟩

/-! ## 7. One call of `svc_recv`, and the end of a file -/

section Calls

variable {C : Type} {D : IncDigest C} {write : Nat → Int} {b : Mybuff} {x : Incoming C}

theorem svcRecvFile_file (D : IncDigest C) (write : Nat → Int) (b : Mybuff) (f : List UInt8) :
    (svcRecvFile D write b { x with file := f }).1 = (svcRecvFile D write b x).1 ∧
    (svcRecvFile D write b { x with file := f }).2.2.lastlen =
      (svcRecvFile D write b x).2.2.lastlen ∧
    (svcRecvFile D write b { x with file := f }).2.2.ctx = (svcRecvFile D write b x).2.2.ctx := by
  unfold svcRecvFile
  cases mybuffGetdata b with
  | none => exact ⟨rfl, rfl, rfl⟩
  | some data =>
    unfold afterWrite
    simp only
    split <;> exact ⟨rfl, rfl, rfl⟩

theorem svcRecvFile_clean {P : Int} (hproc : x.processlen = P) (hlast : x.lastlen = x.file.length)
    (hctx : x.ctx = D.after x.file) (hw : ∀ k : Nat, write k = k ∨ write k = -1)
    (hle : (b.contents.length : Int) ≤ P - x.file.length) (hlt : b.contents.length < 2 ^ 31)
    (hall : TakesAll (P - x.file.length).toNat b.contents.length) :
    svcRecvFile D write b x = (.noData, b, x) ∨ svcRecvFile D write b x = (.writeErr, b, x) ∨
      svcRecvFile D write b x =
        (if P ≤ (x.file ++ b.contents).length then .complete else .more,
          mybuffSkipdata b b.contents.length,
          ⟨P, (x.file ++ b.contents).length, D.after (x.file ++ b.contents),
            x.file ++ b.contents⟩) := by
  by_cases hb : b.contents = []
  · left
    unfold svcRecvFile
    rw [b.getdata_eq, if_pos hb]
  right
  have hpos : 0 < b.contents.length := length_pos_iff.mpr hb
  obtain ⟨N, rfl⟩ : ∃ N : Nat, P = N := ⟨P.toNat, by omega⟩
  have hrec : Receiving N x := ⟨hproc, hlast, by omega⟩
  have hmissing : ((N : Int) - x.file.length).toNat = N - x.file.length := by omega
  rw [hmissing] at hall
  have htake : takeLen (N - x.file.length : Nat) b.contents.length = b.contents.length := by
    rw [takeLen_of_takesAll hall]
    omega
  have hcall : svcRecvFile D write b x =
      afterWrite D b x b.contents (write b.contents.length) := by
    unfold svcRecvFile
    rw [b.getdata_eq, if_neg hb]
    simp only [hrec.missing, htake]
  rcases hw b.contents.length with hk | hk
  · right
    have hview : (mybuffSkipdata b b.contents.length).view b.contents.length = b.contents := by
      rw [Mybuff.view_skipdata_all b _ _ (by rw [b.contents_length]),
        Mybuff.view_of_le b (by rw [b.contents_length]), take_length]
    rw [hcall, hk, afterWrite_takes D hrec hlt, hview, hctx, D.update_after _ (by omega)]
    simp only [take_length, length_append, hproc, hlast, Int.natCast_add]
    congr 1
    exact if_congr (by omega) rfl rfl
  · left
    rw [hcall, hk]
    unfold afterWrite
    simp only [show toInt32 (-1) < 0 by decide, if_true]
    simp

end Calls

section Close

variable {e : FsEnv} {base : TaskBase} {lfd : Int} {digest : List UInt8}

/-- The check of `close_tmp_check_mv`, by the streamed digest or the file's own. -/
def DigestOk (e : FsEnv) (base : TaskBase) (digest : List UInt8) : Prop :=
  digest = base.filemd5 ∨ ∃ m, e.filemd5 = some m ∧ m ++ [0] = base.filemd5

theorem checkDigest_ok :
    checkDigest e base = .ok ↔ ∃ m, e.filemd5 = some m ∧ m ++ [0] = base.filemd5 := by
  unfold checkDigest
  cases e.filemd5 with
  | none => simp
  | some m => by_cases hm : m ++ [0] = base.filemd5 <;> simp [hm]

/-- `close_tmp_check_mv` fails before the `rename`, or the digest is right and the `rename`
    decides. -/
theorem closeTmpCheckMv_cases (e : FsEnv) (base : TaskBase) (lfd : Int) (digest : List UInt8) :
    ∃ ops, (∀ p q, FsOp.rename p q ∉ ops) ∧
    ((closeTmpCheckMv e base lfd digest).1 ≠ .ok ∧ (closeTmpCheckMv e base lfd digest).2 = ops ∨
      DigestOk e base digest ∧ closeTmpCheckMv e base lfd digest =
        (if e.rename then .ok else .renameE, ops ++ [.rename base.tmpfile base.filename])) := by
  unfold closeTmpCheckMv
  by_cases hfd : lfd < 0
  · rw [if_pos hfd]
    exact ⟨[], by simp, Or.inl ⟨by decide, rfl⟩⟩
  rw [if_neg hfd]
  by_cases hfast : digest = base.filemd5
  · refine ⟨[], by simp, Or.inr ⟨Or.inl hfast, ?_⟩⟩
    simp [hfast]
  refine ⟨[.openRead base.tmpfile], by simp, ?_⟩
  have hslow : (digest == base.filemd5) = false := by simpa using hfast
  simp only [hslow, if_false, Bool.false_eq_true]
  by_cases hcheck : checkDigest e base = .ok
  · rw [if_pos hcheck]
    exact .inr ⟨Or.inr (checkDigest_ok.mp hcheck), rfl⟩
  · rw [if_neg hcheck]
    exact .inl ⟨hcheck, rfl⟩

theorem closeTmpCheckMv_only (h : (closeTmpCheckMv e base lfd digest).1 = .ok) :
    DigestOk e base digest ∧ e.rename = true ∧
      ∃ ops, (closeTmpCheckMv e base lfd digest).2 =
        ops ++ [.rename base.tmpfile base.filename] := by
  obtain ⟨ops, -, ⟨hne, -⟩ | ⟨hd, he⟩⟩ :=
    closeTmpCheckMv_cases e base lfd digest
  · exact absurd h hne
  rw [he] at h ⊢
  refine ⟨hd, ?_, ops, rfl⟩
  by_contra hn
  rw [if_neg hn] at h
  cases h

theorem closeTmpCheckMv_of_rename (hren : e.rename = true) {ops : List FsOp} {p q : Path}
    (h : (closeTmpCheckMv e base lfd digest).2 = ops ++ [.rename p q]) :
    (closeTmpCheckMv e base lfd digest).1 = .ok := by
  obtain ⟨ops', hno, ⟨-, he⟩ | ⟨-, he⟩⟩ :=
    closeTmpCheckMv_cases e base lfd digest
  · rw [he] at h
    exact absurd (h ▸ mem_append_right _ mem_cons_self) (hno p q)
  · rw [he, if_pos hren]

end Close

end Pfs
