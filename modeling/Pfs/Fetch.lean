/-
  A storage fetches a file from the storage it was uploaded to (`do_newtask` of
  network/S/pfs_sig_task.c, `check_task`, `do_send_task`, `do_recv_task` of network/D).

  The record of the file travels: with NEWTASK_REQ to the fetching storage, with CMD_GET_FILE_REQ
  back, and with the reply once more. The fetching storage converts the name in it to its own
  `datadir` before it asks; the storage it asks opens the name as it comes.

  Main results: `doSendTask_opens`, `dataCheckOne_record`, `doRecvTask_record`, `fetch_of_run`,
  `fetch_opens_own_name`.
-/
import Pfs.StoredName

namespace Pfs

open Lib

/-! ## 1. The record -/

/-- `check_task` up to the digest check: whether the file is here already, and the record. -/
def checkRecord (datadir : Path) (e : FsEnv) (base : TaskBase) : Except Fault (Bool × TaskBase) :=
  if 0 < base.fsize then
    match checkLocalfileMd5 nodePre datadir e base with
    | .error f => .error f
    | .ok (ret, base, _) => .ok (ret = .ok, base)
  else .ok (false, base)

/-- `do_send_task`: the status and record of the reply, and what is opened; `home` is whether there
    is a task for it. -/
def serveRecord (e : Env) (home : Bool) (req : TaskBase) : UInt8 × TaskBase × List Path :=
  let st := sendStat e req
  if st.1 ≠ .ok then (FILE_SYNC_DST_2_SRC_E_OPENFILE, st.2.1, [])
  else if home = false then (FILE_SYNC_DST_2_SRC_E_MALLOC, st.2.1, [])
  else if e.fs.openRead.isNone then (FILE_SYNC_DST_2_SRC_E_OPENFILE, st.2.1, [st.2.1.filename])
  else (FILE_SYNC_DST_2_SRC, st.2.1, [st.2.1.filename])

/-- `do_recv_task`: the record of the reply replaces one with another digest, and the temporary file
    is opened. -/
def recvRecord (datadir : Path) (e : FsEnv) (gIndex : Nat) (base rsp : TaskBase) :
    Except Fault (LocalRet × TaskBase) :=
  let base0 := if base.filemd5 = rsp.filemd5 then base else rsp
  match openTmpLocalfile4Write nodePre datadir e gIndex base0 with
  | .error f => .error f
  | .ok (ret, _, base0, _, _) => .ok (ret, base0)

/-! ## 2. The task -/

inductive TaskPlace where
  /-- TASK_Q_WAIT, or TASK_Q_WAIT_TMP from where the next pass takes it -/
  | wait
  /-- TASK_Q_RECV: CMD_GET_FILE_REQ is under way -/
  | asked (req : TaskBase)
  /-- CMD_GET_FILE_RSP is -/
  | answered (status : UInt8) (rsp : TaskBase)
  /-- RECVFILEING -/
  | receiving
  | fin
  | clean
  deriving DecidableEq

def TaskPlace.inFlight : TaskPlace → Bool
  | .asked _ | .answered _ _ | .receiving => true
  | .wait | .fin | .clean => false

def TaskPlace.record : TaskPlace → Option TaskBase
  | .asked req => some req
  | .answered _ rsp => some rsp
  | .wait | .receiving | .fin | .clean => none

/-- The task of the fetching storage. Marks: how often it was put back, the names that
    `open_localfile_4_read` of the other storage was given, and the names of the files stored. -/
structure Attempts where
  base : TaskBase
  place : TaskPlace
  putBacks : Nat
  opened : List Path
  stored : List Path

/-- The task in TASK_Q_WAIT for the first time. -/
def Attempts.init (base : TaskBase) : Attempts := ⟨base, .wait, 0, [], []⟩

/-- TASK_Q_WAIT once more, with the next try. -/
def Attempts.again (x : Attempts) : Attempts :=
  { x with
    base := { x.base with retry := x.base.retry + 1 }, place := .wait, putBacks := x.putBacks + 1 }

/-- TASK_Q_FIN with a status. -/
def Attempts.finish (x : Attempts) (overstatus : UInt8) : Attempts :=
  { x with base := { x.base with overstatus := overstatus }, place := .fin }

/-- What becomes of the task in `check_task` behind the digest check. -/
inductive CheckEnd where
  /-- there is no connection, or no space: to be tried again -/
  | hung
  | wrongType
  | diskErr
  | pfsTest
  | sent

/-- The calls that move one task through its attempts. -/
inductive AttemptAct where
  /-- `check_task` -/
  | check (e : FsEnv) (ending : CheckEnd)
  /-- `do_send_task` of the other storage -/
  | serve (e : Env) (home : Bool)
  /-- `do_recv_task` -/
  | recv (e : FsEnv) (gIndex : Nat)
  /-- the last bytes come: `close_tmp_check_mv` -/
  | done (e : FsEnv) (fd : Int) (md5 : List UInt8)
  /-- `svc_finiconn` -/
  | lost
  /-- `do_fin_task` -/
  | fin

/-- `OVER_E_MD5` with tries left. -/
def triesLeft (retry : UInt8) (base : TaskBase) : Bool :=
  base.overstatus == OVER_E_MD5 && retry != 0 && decide (base.retry < retry)

/-- `check_task` behind the digest check, with the record it has by then. -/
def Attempts.placeTask (x : Attempts) (base : TaskBase) : CheckEnd → Attempts
  | .hung => { x with base := base }
  | .wrongType => { x with base := base }.finish OVER_E_TYPE
  | .diskErr => { x with base := base }.finish OVER_DISK_ERR
  | .pfsTest => { x with base := base }.finish OVER_OK
  | .sent => { x with base := base, place := .asked base }

/-- One step; `none` where the program would fault or the step does not fit the place. -/
def retryNext (retry : UInt8) (datadir : Path) (x : Attempts) : AttemptAct → Option Attempts
  | .check e ending =>
    if x.place ≠ .wait then none
    else if retry < x.base.retry then some (x.finish OVER_TOO_MANY_TRY)
    else
      match checkRecord datadir e x.base with
      | .error _ => none
      | .ok (true, base) => some ({ x with base := base }.finish OVER_OK)
      | .ok (false, base) => some (x.placeTask base ending)
  | .serve e home =>
    match x.place with
    | .asked req =>
      let r := serveRecord e home req
      some { x with place := .answered r.1 r.2.1, opened := x.opened ++ r.2.2 }
    | _ => none
  | .recv e gIndex =>
    match x.place with
    | .answered status rsp =>
      if status ≠ FILE_SYNC_DST_2_SRC then some (x.finish OVER_E_OPEN_SRCFILE)
      else
        match recvRecord datadir e gIndex x.base rsp with
        | .error _ => none
        | .ok (ret, base) =>
          some (if ret = .ok then { x with base := base, place := .receiving }
            else
              { x with base := { base with overstatus := OVER_E_OPEN_DSTFILE }, place := .clean })
    | _ => none
  | .done e fd md5 =>
    if x.place ≠ .receiving then none
    else if (closeTmpCheckMv e x.base fd md5).1 = .ok then
      some ({ x with stored := x.stored ++ [x.base.filename] }.finish OVER_OK)
    else some (x.finish OVER_E_MD5)
  | .lost => if x.place.inFlight then some x.again else none
  | .fin =>
    if x.place ≠ .fin then none
    else if triesLeft retry x.base then
      some { x with base := { x.base with overstatus := OVER_UNKNOWN } }.again
    else some { x with place := .clean }

/-! ## 3. The names -/

/-- The two directories are the same, written with other separators perhaps. -/
def SameDir (dirA dirB : Path) : Prop := trimSep (dirA ++ [slash]) = trimSep (dirB ++ [slash])

instance (dirA dirB : Path) : Decidable (SameDir dirA dirB) :=
  inferInstanceAs (Decidable (_ = _))

theorem SameDir.trimSep_append {dirA dirB : Path} (h : SameDir dirA dirB) (t : Path) :
    trimSep (dirA ++ slash :: t) = trimSep (dirB ++ slash :: t) := by
  have hassoc (d : Path) : trimSep (d ++ slash :: t) = trimSep (trimSep (d ++ [slash]) ++ t) := by
    rw [trimSep_trimSep_append, List.append_assoc]
    rfl
  rw [hassoc, hassoc, h]

theorem storageConvert_moved {pre dirs name dir dir' ret path : Path} (hpre : Stops pre)
    (hdirs : DirTail dirs) (hn : slash ∉ name) (hplain : PlainEnd dir)
    (h : storageConvert pre dir' (trimSep (dir ++ (dirs ++ slash :: name))) =
      .ok (some (ret, path))) : path = trimSep (dir' ++ (dirs ++ slash :: name)) := by
  obtain ⟨t, ht⟩ := exists_cons_slash hdirs name
  rw [storageConvert_stored hpre hdirs hn] at h
  split at h
  · cases h
  · cases h
    rw [ht, trimSep_append_slashes _ hplain]

theorem stops_nodePre : Stops nodePre := rfl

theorem openTmp_ok {e : FsEnv} {file tmp : Path} (h : (openTmp e file tmp).1 = .ok) :
    (openTmp e file tmp).2.2.1 = file := by
  revert h
  unfold openTmp
  split
  · exact fun _ => rfl
  split
  · simp only
    split
    · exact nofun
    · split <;> exact fun _ => rfl
  · exact fun _ => rfl

theorem openTmpLocalfile4Write_ok {pre datadir : Path} {e : FsEnv} {gIndex gIndex' : Nat}
    {base base' : TaskBase} {fd : Option Int} {ops : List FsOp}
    (h : openTmpLocalfile4Write pre datadir e gIndex base = .ok (.ok, fd, base', gIndex', ops)) :
    ∃ ret, storageConvert pre datadir base.filename = .ok (some (ret, base'.filename)) := by
  unfold openTmpLocalfile4Write at h
  split at h
  · cases h
  · cases h
  rename_i ret file hs
  simp only at h
  split at h
  · cases h
  simp only [Except.ok.injEq, Prod.mk.injEq] at h
  obtain ⟨hok, -, rfl, -⟩ := h
  exact ⟨ret, by rw [hs, openTmp_ok hok]⟩

/-- What the exchange is about: the file was uploaded to the storage with `dirA`, under `path`, and
    belongs to `pathB` on the storage with `dirB`. -/
structure Uploaded (dirA dirB ret path pathB : Path) : Prop where
  split : ∃ dirs name, DirTail dirs ∧ slash ∉ name ∧ ret = dirs ++ slash :: name
  path_eq : path = trimSep (dirA ++ ret)
  pathB_eq : pathB = trimSep (dirB ++ ret)
  plainA : PlainEnd dirA
  plainB : PlainEnd dirB

section Names

variable {dirA dirB ret path pathB : Path}

section Records

variable (h : Uploaded dirA dirB ret path pathB)

include h

theorem Uploaded.same (hsame : SameDir dirA dirB) :
    path = pathB := by
  obtain ⟨dirs, name, hdirs, -, hret⟩ := h.split
  obtain ⟨t, ht⟩ := exists_cons_slash hdirs name
  rw [h.path_eq, h.pathB_eq, hret, ht, hsame.trimSep_append]

theorem Uploaded.convert {file r q : Path} (hfile : file = path ∨ file = pathB)
    (hc : storageConvert nodePre dirB file = .ok (some (r, q))) : q = pathB := by
  obtain ⟨dirs, name, hdirs, hn, hret⟩ := h.split
  rw [h.path_eq, h.pathB_eq, hret] at hfile
  rw [h.pathB_eq, hret]
  rcases hfile with rfl | rfl
  · exact storageConvert_moved stops_nodePre hdirs hn h.plainA hc
  · exact storageConvert_moved stops_nodePre hdirs hn h.plainB hc

theorem Uploaded.slash_mem {file : Path} (hfile : file = path ∨ file = pathB) : slash ∈ file := by
  obtain ⟨dirs, name, -, -, hret⟩ := h.split
  have hmem (d : Path) : slash ∈ trimSep (d ++ ret) :=
    mem_trimAux (by rw [hret]; simp) rfl
  rcases hfile with rfl | rfl
  · rw [h.path_eq]
    exact hmem dirA
  · rw [h.pathB_eq]
    exact hmem dirB

theorem Uploaded.checkRecord {e : FsEnv}
    {base base' : TaskBase} {here : Bool} (hname : base.filename = path ∨ base.filename = pathB)
    (hc : checkRecord dirB e base = .ok (here, base')) :
    base.fsize ≤ 0 ∧ base' = base ∨ 0 < base.fsize ∧ base'.filename = pathB := by
  unfold Pfs.checkRecord at hc
  split at hc
  · rename_i hsize
    unfold checkLocalfileMd5 at hc
    cases hs : storageConvert nodePre dirB base.filename with
    | error f =>
      rw [hs] at hc
      cases hc
    | ok o =>
      rw [hs] at hc
      cases o with
      | none => exact absurd (h.slash_mem hname) (storageConvert_none hs)
      | some rq =>
        obtain ⟨r, q⟩ := rq
        cases hc
        exact .inr ⟨hsize, h.convert hname hs⟩
  · rename_i hsize
    cases hc
    exact .inl ⟨Int.not_lt.mp hsize, rfl⟩

theorem Uploaded.recvRecord {e : FsEnv} {gIndex : Nat}
    {base rsp base' : TaskBase} (hname : base.filename = path ∨ base.filename = pathB)
    (hrsp : rsp.filename = path) (hr : recvRecord dirB e gIndex base rsp = .ok (.ok, base')) :
    base'.filename = pathB := by
  unfold Pfs.recvRecord at hr
  simp only at hr
  split at hr
  · cases hr
  rename_i hopen
  cases hr
  obtain ⟨r, hs⟩ := openTmpLocalfile4Write_ok hopen
  apply h.convert _ hs
  split
  · exact hname
  · exact .inl hrsp

end Records

end Names

/-! ## 4. Every run -/

/-- The condition on a step: when `check_task` looks at the record, the storages have one `datadir`,
    or the record has no size and still names the uploaded file. -/
def AsksRight (dirA dirB path : Path) (x : Attempts) : AttemptAct → Prop
  | .check _ _ => SameDir dirA dirB ∨ x.base.fsize ≤ 0 ∧ x.base.filename = path
  | _ => True

instance (dirA dirB path : Path) (x : Attempts) : ∀ a, Decidable (AsksRight dirA dirB path x a)
  | .check _ _ => inferInstanceAs (Decidable (_ ∨ _))
  | .serve _ _ => isTrue trivial
  | .recv _ _ => isTrue trivial
  | .done _ _ _ => isTrue trivial
  | .lost => isTrue trivial
  | .fin => isTrue trivial

/-- Where the record is, it has one of the two names: that of the uploaded file when it travels, and
    that of its place here when bytes are received. -/
structure FetchInv (path pathB : Path) (x : Attempts) : Prop where
  name : x.place ≠ .clean → x.base.filename = path ∨ x.base.filename = pathB
  record : ∀ b ∈ x.place.record, b.filename = path
  receiving : x.place = .receiving → x.base.filename = pathB
  opened : ∀ p ∈ x.opened, p = path
  stored : ∀ p ∈ x.stored, p = pathB

section Steps

variable {dirA dirB ret path pathB : Path} {retry : UInt8} {x x' : Attempts} {e : FsEnv}

/-- The task goes to another queue, with one of the two names unless it is given up. -/
theorem FetchInv.move (h : FetchInv path pathB x) {base : TaskBase} {place : TaskPlace} (n : Nat)
    (hname : place ≠ .clean → base.filename = path ∨ base.filename = pathB)
    (hplace : place.inFlight = false) :
    FetchInv path pathB { x with base := base, place := place, putBacks := n } where
  name := hname
  record := fun b hb => by
    cases place with
    | asked | answered => cases hplace
    | wait | receiving | fin | clean => cases hb
  receiving := fun hr => by
    rw [show place = .receiving from hr] at hplace
    cases hplace
  opened := h.opened
  stored := h.stored

theorem sendStat_filename (e : Env) (base : TaskBase) :
    (sendStat e base).2.1.filename = base.filename := by
  unfold sendStat getLocalfileStat
  split
  · split
    · rfl
    · simp only
      split <;> rfl
  · rfl

theorem serveRecord_filename (e : Env) (home : Bool) (req : TaskBase) :
    (serveRecord e home req).2.1.filename = req.filename ∧
      ∀ p ∈ (serveRecord e home req).2.2, p = req.filename := by
  have hname := sendStat_filename e req
  unfold serveRecord
  simp only
  split_ifs <;> simp [hname]

theorem serveRecord_opens {e : Env} {req : TaskBase} (h : (sendStat e req).1 = .ok) :
    (serveRecord e true req).2.2 = [req.filename] := by
  have hname := sendStat_filename e req
  unfold serveRecord
  simp only
  split_ifs <;> simp_all

section Handlers

variable (h : FetchInv path pathB x)

include h

theorem FetchInv.check (hu : Uploaded dirA dirB ret path pathB) {ending : CheckEnd}
    (hok : AsksRight dirA dirB path x (.check e ending))
    (hs : retryNext retry dirB x (.check e ending) = some x') : FetchInv path pathB x' := by
  unfold retryNext at hs
  simp only at hs
  split at hs
  · cases hs
  rename_i hplace
  rw [Decidable.not_not] at hplace
  have hname := h.name (by rw [hplace]; nofun)
  split at hs
  · cases hs
    exact h.move _ (fun _ => hname) rfl
  split at hs
  · cases hs
  · rename_i base hrec
    cases hs
    refine h.move _ (fun _ => ?_) rfl
    rcases hu.checkRecord hname hrec with ⟨-, rfl⟩ | ⟨-, hb⟩
    · exact hname
    · exact .inr hb
  rename_i base hrec
  have hbase : base.filename = path := by
    rcases hu.checkRecord hname hrec with ⟨-, rfl⟩ | ⟨hpos, hb⟩
    · rcases hok with hsame | ⟨-, hp⟩
      · rcases hname with hp | hp
        · exact hp
        · rw [hp, hu.same hsame]
      · exact hp
    · rcases hok with hsame | ⟨hsize, -⟩
      · rw [hb, hu.same hsame]
      · omega
  cases hs
  cases ending with
  | hung =>
    have hwait := h.move x.putBacks (fun _ : TaskPlace.wait ≠ .clean => .inl hbase) rfl
    rw [← hplace] at hwait
    exact hwait
  | wrongType | diskErr | pfsTest => exact h.move _ (fun _ => .inl hbase) rfl
  | sent =>
    refine ⟨fun _ => .inl hbase, fun b hb => ?_, nofun, h.opened, h.stored⟩
    cases hb
    exact hbase

theorem FetchInv.serve {e : Env} {home : Bool}
    (hs : retryNext retry dirB x (.serve e home) = some x') : FetchInv path pathB x' := by
  unfold retryNext at hs
  simp only at hs
  split at hs
  · rename_i req hplace
    cases hs
    obtain ⟨hname, hopened⟩ := serveRecord_filename e home req
    rw [h.record req (by rw [hplace]; rfl)] at hname hopened
    refine ⟨fun _ => h.name (by rw [hplace]; nofun), fun b hb => ?_, nofun, ?_, h.stored⟩
    · cases hb
      exact hname
    · exact fun p hp => (List.mem_append.mp hp).elim (h.opened p) (hopened p)
  · cases hs

theorem FetchInv.recv (hu : Uploaded dirA dirB ret path pathB) {gIndex : Nat}
    (hs : retryNext retry dirB x (.recv e gIndex) = some x') : FetchInv path pathB x' := by
  unfold retryNext at hs
  simp only at hs
  split at hs
  · rename_i status rsp hplace
    have hname := h.name (by rw [hplace]; nofun)
    split at hs
    · cases hs
      exact h.move _ (fun _ => hname) rfl
    split at hs
    · cases hs
    rename_i r base hrec
    cases hs
    split
    · rename_i hok
      rw [hok] at hrec
      have hb := hu.recvRecord hname (h.record rsp (by rw [hplace]; rfl)) hrec
      exact ⟨fun _ => .inr hb, nofun, fun _ => hb, h.opened, h.stored⟩
    · exact h.move _ (fun hc => absurd rfl hc) rfl
  · cases hs

theorem FetchInv.done {fd : Int} {md5 : List UInt8}
    (hs : retryNext retry dirB x (.done e fd md5) = some x') : FetchInv path pathB x' := by
  unfold retryNext at hs
  simp only at hs
  split at hs
  · cases hs
  rename_i hplace
  rw [Decidable.not_not] at hplace
  have hname := h.receiving hplace
  split at hs
  · cases hs
    refine { h.move x.putBacks (fun _ : TaskPlace.fin ≠ .clean => .inr hname) rfl with
      stored := fun p hp => ?_ }
    rcases List.mem_append.mp hp with hp | hp
    · exact h.stored p hp
    · rw [List.mem_singleton.mp hp, hname]
  · cases hs
    exact h.move _ (fun _ => .inr hname) rfl

theorem FetchInv.next (hu : Uploaded dirA dirB ret path pathB) {a : AttemptAct}
    (hok : AsksRight dirA dirB path x a) (hs : retryNext retry dirB x a = some x') :
    FetchInv path pathB x' := by
  cases a with
  | check e ending => exact h.check hu hok hs
  | serve e home => exact h.serve hs
  | recv e gIndex => exact h.recv hu hs
  | done e fd md5 => exact h.done hs
  | lost =>
    unfold retryNext at hs
    simp only at hs
    split at hs
    · rename_i hflight
      cases hs
      refine h.move _ (fun _ => h.name fun hc => ?_) rfl
      rw [hc] at hflight
      cases hflight
    · cases hs
  | fin =>
    unfold retryNext at hs
    simp only at hs
    split at hs
    · cases hs
    rename_i hplace
    rw [Decidable.not_not] at hplace
    split at hs
    · cases hs
      exact h.move _ (fun _ => h.name (by rw [hplace]; nofun)) rfl
    · cases hs
      exact h.move _ (fun hc => absurd rfl hc) rfl

end Handlers

end Steps

/-- **Fetching.** The name `file` is uploaded to the storage with `dirA`, as `path`. In every state
    of the exchange that is reached with the condition, a request that is served opens `path`, the
    bytes are received for the name's place under `dirB`, and the marks say the same of what was
    opened and stored before. -/
theorem fetch_of_run {pre dirA dirB file ret path : Path} {retry : UInt8} {base : TaskBase}
    {x : Attempts} (hup : storageConvert pre dirA file = .ok (some (ret, path)))
    (hA : PlainEnd dirA) (hB : PlainEnd dirB) (hbase : base.filename = path)
    (hrun : Run (retryNext retry dirB) (AsksRight dirA dirB path) (Attempts.init base) x) :
    (∀ req, x.place = .asked req → ∀ e, (sendStat e req).1 = .ok →
        (serveRecord e true req).2.2 = [path]) ∧
      (x.place = .receiving → x.base.filename = trimSep (dirB ++ ret)) ∧
      (∀ p ∈ x.opened, p = path) ∧ ∀ p ∈ x.stored, p = trimSep (dirB ++ ret) := by
  obtain ⟨dirs, dir, name, -, hdirs, hn, hret, hpath, -⟩ := storageConvert_parts hup
  have hu : Uploaded dirA dirB ret path (trimSep (dirB ++ ret)) :=
    ⟨⟨dirs, name, hdirs, hn, hret⟩, hpath, rfl, hA, hB⟩
  have h0 : FetchInv path (trimSep (dirB ++ ret)) (Attempts.init base) :=
    ⟨fun _ => .inl hbase, nofun, nofun, nofun, nofun⟩
  have h := hrun.inv h0 fun _ _ _ hi hok hs => hi.next hu hok hs
  refine ⟨fun req hreq e hst => ?_, h.receiving, h.opened, h.stored⟩
  rw [serveRecord_opens hst, h.record req (by rw [hreq]; rfl)]

/-- The connection is lost, then the digest is wrong, and the third request is answered. -/
def threeRequests : List AttemptAct :=
  let e := { smallEnv 5 with fs := { smallFs with filemd5 := some (List.replicate 16 0) } }
  [.check smallFs .sent, .lost, .check smallFs .hung, .check smallFs .sent, .serve e true,
    .recv smallFs 3, .done smallFs 7 (List.replicate 17 1), .fin, .check smallFs .sent,
      .serve e true,
    .recv smallFs 3, .done smallFs 7 (List.replicate 17 0), .fin]

def fetchBase (filename : Path) : TaskBase :=
  { smallBase TASK_ADDFILE filename with filemd5 := List.replicate 17 0 }

/-- With "/d" and "//d" the file "/d/1/2/f" is opened twice and stored. -/
theorem fetch_same_dir :
    ∃ x, exec (retryNext 5 (ascii "//d")) (Attempts.init (fetchBase (ascii "/d/1/2/f")))
        threeRequests = some x ∧
      (∀ p ∈ x.opened, p = ascii "/d/1/2/f") ∧ x.opened.length = 2 ∧
      (∀ p ∈ x.stored, p = ascii "/d/1/2/f") ∧ x.stored = [ascii "/d/1/2/f"] := by
  have hex := exec_eq_getD (Attempts.init TaskBase.zero)
    (show (exec (retryNext 5 (ascii "//d")) (Attempts.init (fetchBase (ascii "/d/1/2/f")))
      threeRequests).isSome = true by decide +kernel)
  have hrun := run_of_exec threeRequests .start (show Meets (retryNext 5 (ascii "//d"))
    (AsksRight (ascii "/d") (ascii "//d") (ascii "/d/1/2/f")) _ _ by decide +kernel) hex
  have h := @fetch_of_run [] (ascii "/d") (ascii "//d") (ascii "/1/2/f") (ascii "/1/2/f")
    (ascii "/d/1/2/f") 5 _ _ rfl (by decide +kernel) (by decide +kernel) rfl hrun
  exact ⟨_, hex, h.2.2.1, by decide +kernel, h.2.2.2, by decide +kernel⟩

/-- **With "/a" and "/b" the wrong name is opened**: the file is uploaded as "/a/1/2/f", the record
    is converted to "/b/1/2/f", and under that name the other storage looks for it. -/
theorem fetch_opens_own_name :
    storageConvert [] (ascii "/a") (ascii "/1/2/f") =
        .ok (some (ascii "/1/2/f", ascii "/a/1/2/f")) ∧
      ∃ x, exec (retryNext 5 (ascii "/b")) (Attempts.init (fetchBase (ascii "/a/1/2/f")))
          [.check smallFs .sent, .serve (smallEnv 5) true] = some x ∧
        x.opened = [ascii "/b/1/2/f"] := by
  refine ⟨rfl, _, exec_eq_getD (Attempts.init TaskBase.zero) ?_, ?_⟩
  all_goals decide +kernel

/-! ## 5. The handlers of the storage -/

section Handlers

variable (cfg : Cfg) {e : Env} {fd : Fd} {s : Storage} {i : NodeId} {base' : TaskBase}

/-- `do_send_task` opens what `serveRecord` says. -/
theorem doSendTask_opens (base : TaskBase) (p : Peer) :
    (doSendTask cfg e fd base p s).fs = s.fs ++ (sendStat e base).2.2 ++
      (serveRecord e (e.get .home s.pool).isSome base).2.2.map .openRead := by
  unfold doSendTask serveRecord
  simp only
  split
  · simp [Storage.setPeer, Storage.log]
  cases hget : e.get .home s.pool with
  | none => simp [Storage.setPeer, Storage.log, hget]
  | some r =>
    obtain ⟨i, pool⟩ := r
    cases hopen : e.fs.openRead <;>
      simp [openLocalfile4Read, hget, hopen, Storage.setPeer, Storage.log]

/-- A round of `check_task` goes on with the record that `checkRecord` gives. -/
theorem dataCheckOne_record {here : Bool} (hretry : ¬ cfg.retry < (s.pool.node i).base.retry)
    (h : checkRecord cfg.datadir e.fs (s.pool.node i).base = .ok (here, base')) :
    ∃ s' : Storage, (s'.pool.node i).base = base' ∧ dataCheckOne cfg e i s =
      .ok (if here then s'.finish e i OVER_OK else dataPlace cfg e i s') := by
  unfold checkRecord at h
  unfold dataCheckOne
  simp only [hretry, if_false]
  split at h
  · rename_i hsize
    rw [if_pos hsize]
    cases hc : checkLocalfileMd5 nodePre cfg.datadir e.fs (s.pool.node i).base with
    | error f =>
      rw [hc] at h
      cases h
    | ok r =>
      obtain ⟨ret, base, ops⟩ := r
      rw [hc] at h
      cases h
      refine ⟨{ s with pool := s.pool.store i base' (s.pool.node i).sub }.log ops, ?_, ?_⟩
      · simp [Storage.log, Pool.store, Pool.modify]
      · by_cases hret : ret = .ok <;> simp [hret]
  · rename_i hsize
    cases h
    exact ⟨s, rfl, by simp [hsize]⟩

/-- `do_recv_task` leaves the record that `recvRecord` gives in the task. -/
theorem doRecvTask_record {h : SigHead} {rsp : TaskBase} {p : Peer}
    (hp : p.sockStat = .prepareRecvfile) (hi : p.recvtask = some i)
    (hst : h.status = FILE_SYNC_DST_2_SRC)
    (hr : recvRecord cfg.datadir e.fs s.gIndex (s.pool.node i).base rsp = .ok (.ok, base')) :
    ∃ s', doRecvTask cfg e fd h rsp p s = .ok (.addEpollin, s') ∧
      (s'.pool.node i).base = base' := by
  unfold recvRecord at hr
  simp only at hr
  split at hr
  · cases hr
  rename_i ret lfd base0 gIndex ops hopen
  cases hr
  unfold doRecvTask
  simp only [hp, hi, hst, hopen, ne_eq, not_true_eq_false, if_false]
  exact ⟨_, rfl, by simp [Storage.log, Storage.setPeer, Pool.store, Pool.modify]⟩

end Handlers

end Pfs
