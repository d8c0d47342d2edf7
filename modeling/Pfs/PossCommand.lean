/-
  `do_request` with its handlers (network/pfs_maintain.c) over the arrays they use,
  `parsepara` and `GetParaValue` (network/parsepara.c), and `LOG` (lib/log.c).

  Every array is there: the twenty entries as `malloc` leaves them, `cmd_value`, `sendbuf`, the
  arrays of the handlers and the line of the log; an access outside of an array ends the run.
-/
import Pfs.Agent
import Pfs.ClientCache
import Pfs.Lib.CMem

namespace Pfs.Cmd

open Lib Client

/-! ## 1. What comes from elsewhere -/

inductive LogLevel where
  | normal
  | error
  deriving DecidableEq

/-- What the calls of a request return. -/
structure CmdEnv where
  /-- `CreateStringPairList` -/
  mem : Bool
  /-- lines of this level are written -/
  logs : LogLevel → Bool
  /-- colour, level and time in front of a line -/
  logHead : LogLevel → Path
  /-- `getseq` -/
  seq : UInt32
  /-- `get_strtime_by_t` -/
  strtime : Int → Path
  mktime : List Int → Int
  /-- `get_time_stamp_by_int` -/
  timeStamp : Int → Int → Int
  /-- `pfs_get_task` for the pair with this number -/
  getTask : Nat → Bool
  /-- what `%m` prints -/
  errmsg : Path
  /-- `str2ip` succeeds -/
  isAddr : Path → Bool
  /-- `gethostbyname`, and the address as `inet_ntop` prints it -/
  host : Path → Option Path
  /-- `myconfig_get_value` -/
  getValue : Path → Option Path
  /-- `myconfig_update_value` succeeds -/
  update : Path → Path → Bool
  /-- `pfs_start_time` -/
  startTime : Int
  /-- `compiling_date` and `compiling_time` -/
  compiled : Path
  pfsTest : UInt32
  taskTimeout : Int
  /-- `get_task_count` -/
  taskCount : TaskQ → Int
  logHead_ok : ∀ l, (logHead l).length ≤ 48 ∧ 0 ∉ logHead l
  strtime_nul : ∀ t, 0 ∉ strtime t
  mktime_lt : ∀ l, (mktime l).natAbs < 10 ^ 19
  timeStamp_lt : ∀ d1 d2, (timeStamp d1 d2).natAbs < 10 ^ 19
  errmsg_nul : 0 ∉ errmsg
  host_nul : ∀ name, ∀ text ∈ host name, 0 ∉ text
  compiled_ok : compiled.length ≤ 32 ∧ 0 ∉ compiled
  taskTimeout_lt : taskTimeout.natAbs < 10 ^ 19
  taskCount_lt : ∀ q, (taskCount q).natAbs < 10 ^ 10

def MAX_LOG_LEN : Nat := 2048

/-- `LOG`: the line is put together in `buf[MAX_LOG_LEN]`, and as many bytes are written as it would
    have if it had not been cut. -/
def log (env : CmdEnv) (l : LogLevel) (text : Except Oob Path) : Except Oob Unit :=
  if env.logs l = false then .ok ()
  else do
    let text ← text
    let (n, buf) ← (Buf.zero MAX_LOG_LEN).snprintf 0 (MAX_LOG_LEN - 1) (env.logHead l)
    let (k, buf) ← buf.snprintf n (MAX_LOG_LEN - n - 1) text
    let _ ← buf.strcat [27, 91, 48, 109]
    if n + k ≤ MAX_LOG_LEN then .ok () else .error .outside

/-! ## 2. The pairs -/

/-- `StringPair` -/
structure Entry where
  first : Buf MAX_NAME_LEN
  second : Buf MAX_VALUE_LEN

/-- The array of `CreateStringPairList(20)`. -/
structure PairMem where
  entries : List Entry
  size : entries.length = 20

namespace PairMem

def get (m : PairMem) (i : Nat) : Except Oob Entry :=
  match m.entries[i]? with
  | some e => .ok e
  | none => .error .outside

def put (m : PairMem) (i : Nat) (e : Entry) : PairMem :=
  ⟨m.entries.set i e, by rw [List.length_set, m.size]⟩

def setFirst (m : PairMem) (i : Nat) (s : Path) : Except Oob PairMem := do
  let e ← m.get i
  let first ← e.first.write 0 (s ++ [0])
  .ok (m.put i { e with first := first })

def setSecond (m : PairMem) (i : Nat) (s : Path) : Except Oob PairMem := do
  let e ← m.get i
  let second ← e.second.write 0 (s ++ [0])
  .ok (m.put i { e with second := second })

end PairMem

/-- The variables of `parsepara`: the entries, the current one, the part of `sBuffer` in use, and
    `chFlag`. -/
structure Split where
  mem : PairMem
  idx : Nat
  buf : Path
  flag : Bool

/-- `strcasecmp(b + i, s) == 0` -/
def caseEq {n : Nat} (b : Buf n) : Nat → Path → Except Oob Bool
  | i, [] => (b.get i).map (· == 0)
  | i, c :: s => do
    let d ← b.get i
    if lower d = lower c then caseEq b (i + 1) s else .ok false

/-- The name is "pfs_cmd". -/
def isPfsCmd (e : Entry) : Except Oob Bool := caseEq e.first 0 (ascii "pfs_cmd")

/-- `GetParaValue` of "pfs_cmd" into `cmd_value[32]`. -/
def getParaValue : List Entry → Except Oob (Option (Buf 32))
  | [] => .ok none
  | e :: es => do
    if ← isPfsCmd e then
      let v ← e.second.str 0
      let b ← (Buf.zero 32).write 0 (decodeString v 31)
      .ok (some b)
    else getParaValue es

/-- The loop over a value that ends at '\r' or '\n', at most `left` times from `p` on. -/
def cutLoop (b : Buf MAX_VALUE_LEN) : Nat → Nat → Except Oob (Buf MAX_VALUE_LEN)
  | 0, _ => .ok b
  | left + 1, p => do
    let c ← b.get p
    if c = 13 ∨ c = 10 then b.set p 0 else cutLoop b left (p + 1)

/-- How often `while (--n)` goes round, where `n` is the length: for an empty value it starts below
    0. -/
def turns (v : Path) : Nat := if v = [] then 2 ^ 32 - 1 else v.length - 1

def cutLine (b : Buf MAX_VALUE_LEN) : Except Oob (Buf MAX_VALUE_LEN) := do
  let v ← b.str 0
  cutLoop b (turns v) 0

/-- What is left of a value: all but its last byte are looked at. -/
def cutText (v : Path) : Path :=
  if v.dropLast.any fun c => c == 13 || c == 10 then v.takeWhile fun c =>
    !(c == 13 || c == 10) else v

/-- The loop that the handlers have in common: not for "pfs_cmd", and the value is cut. -/
def eachPair {σ : Type} (body : Nat → Entry → σ → Except Oob σ) :
    Nat → List Entry → σ → Except Oob σ
  | _, [], x => .ok x
  | i, e :: es, x => do
    if ← isPfsCmd e then eachPair body (i + 1) es x
    else
      let second ← cutLine e.second
      let x ← body i { e with second := second } x
      eachPair body (i + 1) es x

/-- `ol` and `buf` of a handler. -/
structure Out where
  len : Nat
  buf : Buf SENDBUF

/-- `sendbuf` at first. -/
def Out.start : Out := ⟨0, Buf.zero SENDBUF⟩

/-- `if (ol < len) ol += snprintf(buf + ol, len - ol, ...)` -/
def Out.add (o : Out) (text : Path) : Except Oob Out :=
  if o.len < SENDBUF then do
    let (k, buf) ← o.buf.snprintf o.len (SENDBUF - o.len) text
    .ok ⟨o.len + k, buf⟩
  else .ok o

/-- `get_time_t`, which takes the fields of "yyyymmddHHMMSS". -/
def getTimeT (env : CmdEnv) (p : Path) : Int :=
  if p.length ≠ 14 then 0
  else
    env.mktime [atoi (p.take 4) - 1900, atoi ((p.drop 4).take 2) - 1, atoi ((p.drop 6).take 2),
      atoi ((p.drop 8).take 2), atoi ((p.drop 10).take 2), atoi ((p.drop 12).take 2)]

/-- `get_strtime_by_t` into `stime[16]`. -/
def stime (env : CmdEnv) (t : Int) : Except Oob Path := do
  let b ← (Buf.zero 16).write 0 (env.strtime t ++ [0])
  b.str 0

/-- What `set_dirtime` prints for a pair. -/
def setText (key val old : Path) (tval oval : Int) : Path :=
  ascii "set fcs " ++ key ++ ascii "=" ++ val ++ ascii "(" ++ decimalInt tval ++ ascii "),old " ++
    old ++ ascii "(" ++ decimalInt oval ++ ascii ") "

/-- A pair of `set_dirtime`. -/
def setOne (env : CmdEnv) (_ : Nat) (e : Entry) (o : Out) : Except Oob Out := do
  let key ← e.first.str 0
  let val ← e.second.str 0
  match ← e.first.strchr 0 44 with
  | none => do
    log env .error (.ok (ascii "err data format " ++ key ++ ascii "=" ++ val ++ ascii "\n"))
    .ok o
  | some p => do
    let behind ← e.first.str (p + 1)
    let tval := getTimeT env val
    let oval := env.timeStamp (atoi key) (atoi behind)
    let old ← stime env oval
    log env .normal (.ok (ascii "set fcs " ++ key ++ ascii " = " ++ val ++ ascii "(" ++
      decimalInt tval ++ ascii "), old " ++ old ++ ascii "(" ++ decimalInt oval ++ ascii ")\n"))
    o.add (setText key val old tval oval)

/-- `set_dirtime`; the last `snprintf` is not guarded. -/
def setDirtime (env : CmdEnv) (es : List Entry) : Except Oob Out := do
  let o ← eachPair (setOne env) 0 es Out.start
  let (k, buf) ← o.buf.snprintf o.len (toSize (SENDBUF - o.len)) (ascii "\n")
  .ok ⟨o.len + k, buf⟩

/-- "sync key val err ..." -/
def syncErr (env : CmdEnv) (key val : Path) : Path :=
  ascii "sync " ++ key ++ ascii " " ++ val ++ ascii " err " ++ env.errmsg

/-- A pair of `poss_sync_file`. -/
def syncFileOne (env : CmdEnv) (i : Nat) (e : Entry) (o : Out) : Except Oob Out := do
  let key ← e.first.str 0
  let val ← e.second.str 0
  log env .normal (.ok (key ++ ascii "=" ++ val ++ ascii "\n"))
  if env.getTask i then .ok o else o.add (syncErr env key val)

/-- `poss_sync_file` -/
def possSyncFile (env : CmdEnv) (es : List Entry) : Except Oob Out :=
  eachPair (syncFileOne env) 0 es Out.start

/-- What `poss_sync_dir` prints for a value without '|'. -/
def formatErr (key val : Path) : Path :=
  ascii "sync " ++ key ++ ascii " " ++ val ++ ascii " errformat domain=d1,d2|yyyymmddHHMMSS"

/-- A pair of `poss_sync_dir`: the value is cut at its last '|'. -/
def syncDirOne (env : CmdEnv) (i : Nat) (e : Entry) (o : Out) : Except Oob Out := do
  let key ← e.first.str 0
  match ← e.second.strrchr 124 with
  | none => do
    let val ← e.second.str 0
    o.add (formatErr key val)
  | some p => do
    let second ← e.second.set p 0
    let time ← second.str (p + 1)
    let val ← second.str 0
    log env .normal (.ok (key ++ ascii "=" ++ val ++ ascii " stime=" ++ time ++ ascii ":" ++
      decimalInt (getTimeT env time) ++ ascii "\n"))
    if env.getTask i then .ok o else o.add (syncErr env key val)

/-- `poss_sync_dir` -/
def possSyncDir (env : CmdEnv) (es : List Entry) : Except Oob Out :=
  eachPair (syncDirOne env) 0 es Out.start

/-- `get_uint32_ip`: the address of a host is copied to `tmpip[16]`. -/
def getUint32Ip (env : CmdEnv) (name : Path) : Except Oob Unit :=
  if env.isAddr name then do
    let _ ← (Buf.zero 16).snprintf 0 16 name
    .ok ()
  else
    match env.host name with
    | none => .ok ()
    | some text => do
      let tmpip ← (Buf.zero 16).write 0 (text ++ [0])
      let ip ← tmpip.str 0
      let _ ← (Buf.zero 16).snprintf 0 16 ip
      .ok ()

/-- The addresses of a value, which is cut at each ','. -/
def ipLoop (env : CmdEnv) : Nat → Buf MAX_VALUE_LEN → Nat → Except Oob Unit
  | 0, _, _ => .error .outside
  | fuel + 1, b, v => do
    match ← b.strchr v 44 with
    | none => do
      let name ← b.str v
      getUint32Ip env name
    | some t => do
      let b ← b.set t 0
      let name ← b.str v
      getUint32Ip env name
      ipLoop env fuel b (t + 1)

/-- `poss_off_on_line`: nothing is printed. -/
def possOffOnLine (env : CmdEnv) (es : List Entry) : Except Oob Out :=
  eachPair (fun _ e o => do
    ipLoop env (MAX_VALUE_LEN + 1) e.second 0
    .ok o) 0 es Out.start

/-- `validcmd` -/
def validcmd : List Path :=
  ["cs_preday", "fcs_max_connects", "max_data_connects", "max_task_run_once", "pfs_test",
    "real_rm_time", "task_timeout", "fcs_max_task", "cs_sync_dir", "data_calcu_md5",
    "sync_dir_count", "timeout"].map ascii

/-- `isvalid(key) == 0` -/
def isValid (e : Entry) : List Path → Except Oob Bool
  | [] => .ok false
  | c :: cs => do if ← caseEq e.first 0 c then .ok true else isValid e cs

def VAL_MAX_LEN : Nat := 1024

/-- `do_confupda`: whether it returns 0. The old value is printed after its entry has been freed,
    and the new one is copied to `VAL_MAX_LEN` bytes. -/
def doConfupda (env : CmdEnv) : List Entry → Except Oob Bool
  | [] => .ok true
  | e :: es => do
    if ← isPfsCmd e then doConfupda env es
    else
      if ← isValid e validcmd then
        let second ← cutLine e.second
        let key ← e.first.str 0
        let val ← second.str 0
        log env .normal (if (env.getValue key).isSome then .error .outside else
          .ok (ascii "update key = " ++ key ++ ascii " val = " ++ val ++
            ascii ", old val is nothing\n"))
        let _ ← (Buf.zero VAL_MAX_LEN).write 0 (val ++ [0])
        if env.update key val then doConfupda env es else .ok false
      else
        log env .error (do
          let key ← e.first.str 0
          let val ← e.second.str 0
          .ok (ascii "ERROR CMD " ++ key ++ ascii " VALUE " ++ val ++ ascii "\n"))
        doConfupda env es

/-- The text of `get_info`. -/
def infoText (env : CmdEnv) (start : Path) : Path :=
  ascii "starttime=" ++ start ++ ascii "|compile_time=" ++ env.compiled ++ ascii "|pfs_test=" ++
    decimal env.pfsTest.toNat ++ ascii "|task_timeout=" ++ decimalInt env.taskTimeout ++
    ascii "|task_run=" ++ decimalInt (env.taskCount .run) ++
    ascii "|task_wait=" ++ decimalInt (env.taskCount .wait) ++
    ascii "|task_fin=" ++ decimalInt (env.taskCount .fin) ++
    ascii "|task_clean=" ++ decimalInt (env.taskCount .clean) ++
    ascii "|task_wait_sync=" ++ decimalInt (env.taskCount .waitSync) ++
    ascii "|task_wait_sync_ip=" ++ decimalInt (env.taskCount .waitSyncIp) ++
    ascii "|task_wait_tmp=" ++ decimalInt (env.taskCount .waitTmp) ++ ascii "|"

/-- `get_info` -/
def getInfo (env : CmdEnv) : Except Oob Out := do
  let start ← stime env env.startTime
  Out.start.add (infoText env start)

/-- `get_dirtime` calls itself. -/
def getDirtime : Nat → Option Out
  | 0 => none
  | fuel + 1 => getDirtime fuel

/-! ## 4. `do_request` -/

/-- A command that prints the request, `%s` with `data`; `snprintf` returns -1 for a text that is
    longer than an `int` can say. -/
def echo (payload before behind : Path) : Except Oob Out := do
  let data ← cstr payload
  let o ← Out.start.add (before ++ data ++ behind)
  .ok (if o.len < 2 ^ 31 then o else { o with len := 0 })

/-- A text in place of one that is empty. -/
def Out.orElse (o : Out) (x : Except Oob Out) : Except Oob Out := if o.len = 0 then x else .ok o

/-- The switch over the commands; `none` where it does not return. -/
def answer (fuel : Nat) (env : CmdEnv) (es : List Entry) (payload : Path) :
    PfsCmd → Except Oob (Option Out)
  | .confupda => do
    let ok ← doConfupda env es
    (echo payload [] (if ok then ascii "::Result=OK&Code=0&Msg=Success"
      else ascii "::Msg=Failed")).map some
  | .getinfo => (getInfo env).map some
  | .setdirtime => (setDirtime env es).map some
  | .getdirtime => .ok (getDirtime fuel)
  | .syncfile => do
    let o ← possSyncFile env es
    (o.orElse (Out.start.add (ascii "sync file OK!"))).map some
  | .syncdir => do
    let o ← possSyncDir env es
    (o.orElse (Out.start.add (ascii "sync dir OK!"))).map some
  | .offline => do
    let o ← possOffOnLine env es
    (o.orElse (echo payload (ascii "offline ") (ascii " OK!"))).map some
  | .online => do
    let o ← possOffOnLine env es
    (o.orElse (echo payload (ascii "online ") (ascii " OK!"))).map some
  | .addModGroup => (echo payload [] (ascii ":: not implement")).map some
  | .delGroup => (echo payload [] (ascii ":: not implement")).map some

/-- `sendbuf` in the end, and the bytes that were queued. -/
structure Reply where
  sendbuf : Buf SENDBUF
  wire : Path

/-- The head and `sendlen` bytes of `sendbuf` are queued. -/
def queue (env : CmdEnv) (o : Out) : Except Oob Reply :=
  if o.len = 0 then .ok ⟨o.buf, []⟩
  else do
    log env .normal (do .ok (ascii "return [" ++ (← o.buf.str 0) ++ ascii "]\n"))
    if o.len ≤ SENDBUF then
      .ok ⟨o.buf, createPossHead RSP_PFS_CMD o.len env.seq ++ o.buf.bytes.take o.len⟩
    else .error .outside

end Pfs.Cmd
