/-
  Where the reports of the agent are (network/pfs_agent.c).

  A report is in `databuff`, in a frame of the connection, in a file of the tmp directory, or it was
  handed over on an earlier connection. It is lost with a connection that is closed before the frame
  is written completely, since `do_run` makes the buffer of the next one empty, and with a round
  without a connection whose file cannot be opened or takes only a part.

  Main results: `reports_of_run`, `unsent_report_dropped`.
-/
import Pfs.Agent

namespace Pfs

open Lib List

namespace Agent

/-! ## 1. The places of a report -/

structure Carries (f : PossFrame) (r : Rec) : Prop where
  submit : f.cmdid = REQ_SUBMIT
  mem : r ∈ f.recs
  text : r.text <:+: f.body

/-- A frame with the report is completely on the wire. -/
def HandedOver (wire : List UInt8) (fs : List PossFrame) (r : Rec) : Prop :=
  ∃ pre f post, fs = pre ++ f :: post ∧ Carries f r ∧ wireOf (pre ++ [f]) <+: wire

/-- **Where a report is**: in `databuff`, in a file of the tmp directory, in a frame of the
    connection, or handed over on an earlier connection. -/
inductive Kept (s : AgentSt) (r : Rec) : Prop where
  | data (hr : r ∈ s.data) (ht : r.text <:+: s.databuff.contents)
  | file {name : Path} {tf : TmpFile} (hd : s.dir name = some tf) (hr : r ∈ tf.recs)
      (ht : r.text <:+: tf.content)
  | queued {f : PossFrame} (hup : s.up = true) (hf : f ∈ s.frames) (hc : Carries f r)
  | handed {wire : List UInt8} {fs : List PossFrame} (hp : (wire, fs) ∈ s.past)
      (hh : HandedOver wire fs r)

/-- **No report is lost.** What a connection has not written yet is in its buffer. -/
structure NothingLost (s : AgentSt) : Prop where
  kept : ∀ r ∈ s.produced, Kept s r
  buffered : s.up = true → s.wire ++ s.send.contents ++ s.pending = wireOf s.frames

/-- The frames of which not all bytes are among the first `n`. -/
def unsent : Nat → List PossFrame → List PossFrame
  | _, [] => []
  | n, f :: fs => if f.encode.length ≤ n then unsent (n - f.encode.length) fs else f :: fs

/-- The connection may be closed: no frame that is not on the wire has a report, but the one whose
    file is being sent. -/
def Flushed (s : AgentSt) : Prop :=
  ∀ f ∈ unsent s.wire.length s.frames,
    f.recs = [] ∨ mybuffGetfile s.send ≠ none ∧ s.frames.getLast? = some f

/-- The condition on a step: nothing is queued while a file is pending, the connection is not closed
    with reports in its buffer, and without a connection the file takes everything. -/
def Careful (s : AgentSt) (a : AgentAct) : Prop :=
  Undisturbed s a ∧
    match a with
    | .close | .send .error _ _ => Flushed s
    | .offline texts _ openOk write =>
      s.databuff.contents ++ texts.flatten ≠ [] →
        openOk = true ∧ (s.databuff.contents ++ texts.flatten).length ≤ write.getD 0
    | _ => True

/-! ## 2. What is not on the wire -/

theorem unsent_append {pre : List PossFrame} (fs : List PossFrame) :
    ∀ {n : Nat}, (wireOf pre).length ≤ n →
      unsent n (pre ++ fs) = unsent (n - (wireOf pre).length) fs := by
  induction pre with
  | nil => exact fun _ => rfl
  | cons f pre ih =>
    intro n h
    have hlen : (wireOf (f :: pre)).length = f.encode.length + (wireOf pre).length := by
      simp [wireOf]
    rw [hlen] at h ⊢
    rw [cons_append, unsent, if_pos (by omega), ih (by omega), Nat.sub_sub]

theorem exists_sent (n : Nat) (fs : List PossFrame) :
    ∃ pre, fs = pre ++ unsent n fs ∧ (wireOf pre).length ≤ n := by
  induction fs generalizing n with
  | nil => exact ⟨[], rfl, Nat.zero_le _⟩
  | cons f fs ih =>
    unfold unsent
    split
    · rename_i hle
      obtain ⟨pre, hpre, hlen⟩ := ih (n - f.encode.length)
      refine ⟨f :: pre, by rw [cons_append, ← hpre], ?_⟩
      have hcons : (wireOf (f :: pre)).length = f.encode.length + (wireOf pre).length := by
        simp [wireOf]
      omega
    · exact ⟨[], rfl, Nat.zero_le _⟩

theorem wireOf_mono {fs gs : List PossFrame} (h : fs <+: gs) : wireOf fs <+: wireOf gs := by
  obtain ⟨rest, hrest⟩ := h
  exact ⟨wireOf rest, by rw [← hrest]; simp [wireOf]⟩

theorem handedOver_or_unsent {wire : List UInt8} {fs : List PossFrame} (hw : wire <+: wireOf fs)
    {f : PossFrame} (hf : f ∈ fs) {r : Rec} (hc : Carries f r) :
    HandedOver wire fs r ∨ f ∈ unsent wire.length fs := by
  obtain ⟨pre, hpre, hlen⟩ := exists_sent wire.length fs
  generalize unsent wire.length fs = rest at *
  subst hpre
  obtain hf | hf := mem_append.mp hf
  · obtain ⟨a, b, rfl⟩ := append_of_mem hf
    have hfront : a ++ [f] <+: a ++ f :: b := ⟨b, by simp⟩
    have hle := (wireOf_mono hfront).length_le
    refine .inl ⟨a, f, b ++ rest, by simp, hc, ?_⟩
    exact prefix_of_prefix_length_le (wireOf_mono (hfront.trans (prefix_append _ _))) hw
      (Nat.le_trans hle hlen)
  · exact .inr hf

/-! ## 3. The invariant -/

/-- The file range of the connection is of the first file of the list, which is in the last
    frame. -/
def Sending (s : AgentSt) : Prop :=
  ∃ name tf pre seq, s.todo.head? = some name ∧ s.dir name = some tf ∧ s.file = tf.content ∧
    s.frames = pre ++ [⟨REQ_SUBMIT, seq, tf.content, tf.recs⟩]

/-- The invariant. -/
structure Stored (s : AgentSt) : Prop where
  wire : WireInv s
  texts : s.databuff.contents = (s.data.map Rec.text).flatten
  files : ∀ name tf, s.dir name = some tf → ∀ r ∈ tf.recs, r.text <:+: tf.content
  sending : s.up = true → mybuffGetfile s.send ≠ none → Sending s
  kept : ∀ r ∈ s.produced, Kept s r

section Reports

variable {init : Nat} {s s' : AgentSt} {rs : List Rec} {texts : List (List UInt8)}

theorem infix_texts {r : Rec} (hr : r ∈ rs) : r.text <:+: (rs.map Rec.text).flatten :=
  infix_of_mem_flatten (mem_map_of_mem hr)

theorem Kept.mono {r : Rec} (h : Kept s r) (hdata : s'.data = s.data)
    (hbuff : s'.databuff = s.databuff) (hdir : s'.dir = s.dir) (hpast : s'.past = s.past)
    (hup : s.up = true → s'.up = true ∧ ∀ f ∈ s.frames, f ∈ s'.frames) : Kept s' r := by
  cases h with
  | data hr ht => exact .data (hdata ▸ hr) (hbuff ▸ ht)
  | file hd hr ht => exact .file (hdir ▸ hd) hr ht
  | queued h hf hc => exact .queued (hup h).1 ((hup h).2 _ hf) hc
  | handed hp hh => exact .handed (hpast ▸ hp) hh

theorem flushed_of_empty (hw : WireInv s) (hsend : mybuffGetfile s.send ≠ none → Sending s)
    (hempty : s.send.contents = []) : Flushed s := by
  intro f hf
  have hwhole := hw.whole
  rw [hempty, append_nil] at hwhole
  cases hfile : mybuffGetfile s.send with
  | none =>
    rw [pending_of_none hfile, append_nil] at hwhole
    have hnil := @unsent_append s.frames [] s.wire.length (by rw [hwhole])
    rw [append_nil] at hnil
    rw [hnil] at hf
    cases hf
  | some x =>
    obtain ⟨fd, start, len⟩ := x
    have hne : mybuffGetfile s.send ≠ none := by rw [hfile]; exact Option.some_ne_none _
    obtain ⟨name, tf, pre, seq, -, -, hcontent, hframes⟩ := hsend hne
    obtain ⟨-, hrange⟩ := hw.range fd start len hfile
    have hlen := congrArg List.length hwhole
    rw [pending_of_some hfile, hframes, wireOf_append, length_append, length_append,
      encode_length, length_take, length_drop] at hlen
    rw [hcontent] at hlen hrange
    rw [hframes, unsent_append [_] (by simp only at hlen; omega)] at hf
    have hlast : f = ⟨REQ_SUBMIT, seq, tf.content, tf.recs⟩ := by
      unfold unsent at hf
      split at hf
      · cases hf
      · exact mem_singleton.mp hf
    refine .inr ⟨Option.some_ne_none _, ?_⟩
    rw [hframes, hlast]
    simp

section Steps

variable (hI : Stored s)

include hI

theorem stored_closed (hup : s.up = true) (hfl : Flushed s) : Stored s.closed := by
  have hdown : s.closed.up ≠ true := Bool.false_ne_true
  refine ⟨hI.wire.congr ⟨rfl, rfl, rfl, rfl⟩, hI.texts, hI.files, fun h => absurd h hdown, ?_⟩
  intro r hr
  cases hI.kept r hr with
  | data hr ht => exact .data hr ht
  | file hd hr ht => exact .file hd hr ht
  | handed hp hh => exact .handed (mem_append_left _ hp) hh
  | queued _ hf hc =>
    obtain hh | hun := handedOver_or_unsent hI.wire.onWire.order hf hc
    · exact .handed (mem_append_right _ (mem_singleton.mpr rfl)) hh
    obtain hnil | ⟨hfile, hlast⟩ := hfl _ hun
    · have hmem := hc.mem
      rw [hnil] at hmem
      cases hmem
    -- The file that was being sent is still in the directory.
    obtain ⟨name, tf, pre, seq, -, hdir, -, hframes⟩ := hI.sending hup hfile
    rw [hframes, getLast?_concat] at hlast
    cases hlast
    exact .file hdir hc.mem hc.text

theorem Stored.of_same (hw : WireInv s') (hdata : s'.data = s.data)
    (hbuff : s'.databuff = s.databuff) (hdir : s'.dir = s.dir) (hpast : s'.past = s.past)
    (hprod : s'.produced = s.produced)
    (hup : s.up = true → s'.up = true ∧ ∀ f ∈ s.frames, f ∈ s'.frames)
    (hsend : s'.up = true → mybuffGetfile s'.send ≠ none → Sending s') : Stored s' := by
  refine ⟨hw, by rw [hbuff, hdata]; exact hI.texts, by rw [hdir]; exact hI.files, hsend, ?_⟩
  intro r hr
  rw [hprod] at hr
  exact (hI.kept r hr).mono hdata hbuff hdir hpast hup

theorem stored_collected {d : Mybuff}
    (hd : d.contents = s.databuff.contents ++ texts.flatten) (ht : rs.map Rec.text = texts) :
    Stored (s.collected d rs) := by
  have htexts : d.contents = ((s.data ++ rs).map Rec.text).flatten := by
    rw [hd, hI.texts, ← ht, map_append, flatten_append]
  have hdata : ∀ r ∈ s.data ++ rs, Kept (s.collected d rs) r := by
    intro r hr
    refine .data hr ?_
    change r.text <:+: d.contents
    rw [htexts]
    exact infix_texts hr
  refine ⟨hI.wire.congr ⟨rfl, rfl, rfl, rfl⟩, htexts, hI.files, hI.sending, ?_⟩
  intro r hr
  obtain hr | hr := mem_append.mp hr
  · cases hI.kept r hr with
    | data hr _ => exact hdata r (mem_append_left _ hr)
    | file hd hr ht => exact .file hd hr ht
    | queued hup hf hc => exact .queued hup hf hc
    | handed hp hh => exact .handed hp hh
  · exact hdata r (mem_append_right _ hr)

theorem stored_doScan (hup : s.up = true)
    (hfile : mybuffGetfile s.send = none) (hw : WireInv (doScan init s texts)) :
    Stored (doScan init s texts) := by
  obtain ⟨d, rs, he, hd, ht⟩ := collect_spec init texts s
  have hI' := stored_collected hI hd ht
  simp only [doScan, he] at hw ⊢
  cases hg : mybuffGetdata (s.collected d rs).databuff with
  | none => exact hI'
  | some data =>
    rw [hg] at hw
    obtain ⟨hcont, -⟩ := Mybuff.contents_of_getdata hg
    refine ⟨hw, ?_, hI.files, ?_, ?_⟩
    · simp [Mybuff.contents_skipdata, hcont]
    · intro _ hne
      exact absurd (by simp [queueFrame, AgentSt.collected, hfile]) hne
    · intro r hr
      cases hI'.kept r hr with
      | data hr ht =>
        rw [hcont] at ht
        exact .queued hup (mem_append_right _ (mem_singleton.mpr rfl)) ⟨rfl, hr, ht⟩
      | file hd hr ht => exact .file hd hr ht
      | queued hup hf hc => exact .queued hup (mem_append_left _ hf) hc
      | handed hp hh => exact .handed hp hh

theorem stored_getMostOldFile {fd : Option Nat}
    (hw : WireInv (getMostOldFile init s fd)) : Stored (getMostOldFile init s fd) := by
  unfold getMostOldFile at hw ⊢
  cases hfile : mybuffGetfile s.send with
  | some x => exact hI
  | none =>
    cases hf : s.todo.head?.bind s.dir with
    | none => exact hI
    | some f =>
      cases fd with
      | none => exact hI
      | some fd =>
        rw [hfile, hf] at hw
        obtain ⟨name, hname, hdir⟩ := Option.bind_eq_some_iff.mp hf
        exact hI.of_same hw rfl rfl rfl rfl rfl
          (fun hup => ⟨hup, fun g hg => mem_append_left _ hg⟩)
          (fun _ _ => ⟨name, f, s.frames, s.seq, hname, hdir, rfl, rfl⟩)

theorem stored_rmLastSendFile (hup : s.up = true) (hsend : Sending s)
    (hfile : mybuffGetfile s.send = none) (unlinked : Bool)
    (hw : WireInv (rmLastSendFile s unlinked)) : Stored (rmLastSendFile s unlinked) := by
  obtain ⟨name, tf, pre, seq, htodo, hdir, -, hframes⟩ := hsend
  obtain ⟨todo, htodo⟩ := head?_eq_some_iff.mp htodo
  simp only [rmLastSendFile, htodo] at hw ⊢
  cases unlinked with
  | false =>
    exact hI.of_same hw rfl rfl rfl rfl rfl (fun hup => ⟨hup, fun _ hg => hg⟩)
      (fun _ hne => absurd hfile hne)
  | true =>
    refine ⟨hw, hI.texts, ?_, fun _ hne => absurd hfile hne, ?_⟩
    · intro name' tf' hd
      by_cases hn : name' = name
      · simp [hn] at hd
      · simp only [if_true, Function.update_of_ne hn] at hd
        exact hI.files name' tf' hd
    · intro r hr
      cases hI.kept r hr with
      | data hr ht => exact .data hr ht
      | queued hup hf hc => exact .queued hup hf hc
      | handed hp hh => exact .handed hp hh
      | @file name' tf' hd hr ht =>
        by_cases hn : name' = name
        · subst hn
          cases hdir.symm.trans hd
          refine .queued hup ?_ (f := ⟨REQ_SUBMIT, seq, tf.content, tf.recs⟩) ⟨rfl, hr, ht⟩
          change _ ∈ s.frames
          rw [hframes]
          exact mem_append_right _ (mem_singleton.mpr rfl)
        · have hd' : Function.update s.dir name none name' = some tf' := by
            rw [Function.update_of_ne hn]
            exact hd
          exact .file hd' hr ht

theorem stored_sendFile (hup : s.up = true) (hempty : s.send.contents = [])
    (res : IoRes) (unlinked : Bool) : Stored (sendFile s res unlinked) := by
  have hw : WireInv (sendFile s res unlinked) :=
    wireInv_sendFile hI.wire hempty res unlinked
  cases hfile : mybuffGetfile s.send with
  | none =>
    simp only [sendFile, hfile]
    exact hI
  | some x =>
    obtain ⟨fd, start, len⟩ := x
    have hne : mybuffGetfile s.send ≠ none := by rw [hfile]; exact Option.some_ne_none _
    have hsend : Sending s := hI.sending hup hne
    simp only [sendFile, hfile] at hw ⊢
    cases res with
    | error => exact stored_closed hI hup (flushed_of_empty hI.wire (hI.sending hup) hempty)
    | again => exact hI
    | sent n =>
      simp only at hw ⊢
      generalize min (n + 1) (min len GSIZE) = k at *
      by_cases hlt : k < len
      · rw [if_pos hlt] at hw ⊢
        exact hI.of_same hw rfl rfl rfl rfl rfl (fun h => ⟨h, fun _ hg => hg⟩) (fun _ _ => hsend)
      rw [if_neg hlt] at hw ⊢
      have hdone := Mybuff.getfile_skipfile_le hfile (Nat.not_lt.mp hlt)
      have hI' : Stored { s with
          wire := s.wire ++ (s.file.drop start.toNat).take k
          send := mybuffSkipfile s.send k } := by
        refine hI.of_same ?_ rfl rfl rfl rfl rfl (fun h => ⟨h, fun _ hg => hg⟩) (fun _ _ => hsend)
        obtain ⟨_, _, hrm⟩ := rmLastSendFile_eq _ unlinked
        rw [hrm] at hw
        exact hw.congr ⟨rfl, rfl, rfl, rfl⟩
      exact stored_rmLastSendFile hI' hup hsend hdone unlinked hw

theorem stored_doSend (hup : s.up = true) {data : IoRes}
    (hok : data = .error → Flushed s) (file : IoRes) (unlinked : Bool) :
    Stored (doSend s data file unlinked) := by
  cases hd : mybuffGetdata s.send with
  | none =>
    simp only [doSend, hd]
    exact stored_sendFile hI hup (Mybuff.contents_of_getdata_none hd) file unlinked
  | some bytes =>
    obtain ⟨hcont, -⟩ := Mybuff.contents_of_getdata hd
    simp only [doSend, hd]
    cases data with
    | error => exact stored_closed hI hup (hok rfl)
    | again => exact hI
    | sent n =>
      simp only
      rw [← hcont]
      generalize min (n + 1) s.send.contents.length = k
      have hI' : Stored { s with
          wire := s.wire ++ s.send.contents.take k, send := mybuffSkipdata s.send k } := by
        refine hI.of_same (hI.wire.sendData k) rfl rfl rfl rfl rfl
          (fun h => ⟨h, fun _ hg => hg⟩) ?_
        intro h hne
        rw [Mybuff.getfile_skipdata] at hne
        exact hI.sending h hne
      by_cases hlt : k < s.send.contents.length
      · rw [if_pos hlt]
        exact hI'
      rw [if_neg hlt]
      refine stored_sendFile hI' hup ?_ file unlinked
      rw [Mybuff.contents_skipdata]
      exact drop_eq_nil_of_le (Nat.not_lt.mp hlt)

end Steps

theorem fitting_all : ∀ {k : Nat}, (rs.map Rec.text).flatten.length ≤ k → fitting k rs = rs := by
  induction rs with
  | nil => exact fun _ => rfl
  | cons r rs ih =>
    intro k h
    rw [map_cons, flatten_cons, length_append] at h
    rw [fitting, if_pos (by omega), ih (by omega)]

theorem dumpToFile_all {data : List UInt8} {k : Nat} (name : Path)
    (hcont : s.defconn.contents = data) (hne : data ≠ [])
    (htexts : (rs.map Rec.text).flatten = data) (hk : data.length ≤ k) :
    dumpToFile s rs name true (some k) =
      { s with
        defconn := mybuffSkipdata s.defconn (min k data.length)
        dir := appendFile s.dir name data rs } := by
  cases hg : mybuffGetdata s.defconn with
  | none => exact absurd (hcont.symm.trans (Mybuff.contents_of_getdata_none hg)) hne
  | some data' =>
    have hdata : data' = data := (Mybuff.contents_of_getdata hg).1.symm.trans hcont
    rw [hdata] at hg
    simp only [dumpToFile, hg]
    rw [take_of_length_le hk, fitting_all (by rw [htexts]; exact hk)]

theorem appendFile_self (dir : Path → Option TmpFile) (name : Path) (data : List UInt8)
    (recs : List Rec) :
    appendFile dir name data recs name = some ⟨((dir name).getD ⟨[], []⟩).content ++ data,
      ((dir name).getD ⟨[], []⟩).recs ++ recs⟩ :=
  Function.update_self ..

theorem appendFile_of_ne (dir : Path → Option TmpFile) {name name' : Path} (h : name' ≠ name)
    (data : List UInt8) (recs : List Rec) : appendFile dir name data recs name' = dir name' :=
  Function.update_of_ne h ..

theorem stored_appendFile (hI : Stored s) (hdown : s.up = false) (name : Path) {d : Mybuff}
    (hd : d.contents = []) (c : Mybuff) :
    Stored { s with
      defconn := c
      databuff := d
      data := []
      dir := appendFile s.dir name s.databuff.contents s.data } := by
  have hnot : s.up ≠ true := by simp [hdown]
  have hnew := appendFile_self s.dir name s.databuff.contents s.data
  have hdata : ∀ r ∈ s.data, r.text <:+: s.databuff.contents := by
    intro r hr
    rw [hI.texts]
    exact infix_texts hr
  refine ⟨hI.wire.congr ⟨rfl, rfl, rfl, rfl⟩, hd, ?_, fun h => absurd h hnot, ?_⟩
  · intro name' tf hdir r hr
    by_cases hn : name' = name
    · subst hn
      cases hnew.symm.trans hdir
      obtain hr | hr := mem_append.mp hr
      · cases hold : s.dir name' with
        | none =>
          rw [hold] at hr
          cases hr
        | some tf =>
          rw [hold] at hr
          exact (hI.files name' tf hold r hr).trans (prefix_append _ _).isInfix
      · exact (hdata r hr).trans (suffix_append _ _).isInfix
    · exact hI.files name' tf ((appendFile_of_ne s.dir hn _ _).symm.trans hdir) r hr
  · intro r hr
    cases hI.kept r hr with
    | data hr ht =>
      exact .file hnew (mem_append_right _ hr) (ht.trans (suffix_append _ _).isInfix)
    | @file name' tf hdir hmem ht =>
      by_cases hn : name' = name
      · subst hn
        rw [hdir] at hnew
        exact .file hnew (mem_append_left _ hmem) (ht.trans (prefix_append _ _).isInfix)
      · exact .file ((appendFile_of_ne s.dir hn _ _).trans hdir) hmem ht
    | queued hup _ _ => exact absurd hup hnot
    | handed hp hh => exact .handed hp hh

theorem stored_offlineRound (hI : Stored s) (hdown : s.up = false)
    {name : Path} {openOk : Bool} {write : Option Nat}
    (hok : s.databuff.contents ++ texts.flatten ≠ [] →
      openOk = true ∧ (s.databuff.contents ++ texts.flatten).length ≤ write.getD 0) :
    Stored (offlineRound init s texts name openOk write) := by
  have hnot : s.up ≠ true := by simp [hdown]
  have hI₀ : Stored { s with defconn := mybuffReinit init s.defconn } :=
    hI.of_same (hI.wire.congr ⟨rfl, rfl, rfl, rfl⟩) rfl rfl rfl rfl rfl (fun h => absurd h hnot)
      (fun h => absurd h hnot)
  obtain ⟨d, rs, he, hd, ht⟩ :=
    collect_spec init texts { s with defconn := mybuffReinit init s.defconn }
  have hI₁ := stored_collected hI₀ hd ht
  simp only [offlineRound, he]
  cases hg : mybuffGetdata d with
  | none =>
    simp only [AgentSt.collected, hg]
    exact hI₁
  | some data =>
    obtain ⟨hcont, hne⟩ := Mybuff.contents_of_getdata hg
    have hdata : data = s.databuff.contents ++ texts.flatten := hcont.symm.trans hd
    have htexts : ((s.data ++ rs).map Rec.text).flatten = data := hI₁.texts.symm.trans hcont
    rw [← hdata] at hok
    obtain ⟨rfl, hlen⟩ := hok hne
    cases write with
    | none => exact absurd (length_eq_zero_iff.mp (Nat.le_zero.mp hlen)) hne
    | some k =>
      have hk : data.length ≤ k := hlen
      simp only [AgentSt.collected, hg]
      rw [dumpToFile_all name ?_ hne htexts hk, ← hcont]
      · exact stored_appendFile hI₁ hdown name (by simp [Mybuff.contents_skipdata]) _
      · simp

/-- **Every careful step keeps the reports.** -/
theorem stored_step {a : AgentAct} (hI : Stored s) (hok : Careful s a)
    (hs : agentNext init s a = some s') : Stored s' := by
  obtain ⟨hquiet, hok⟩ := hok
  have hw : WireInv s' := wireInv_step hI.wire hquiet hs
  cases agentNext_cases hs with
  | connect hdown old todo =>
    exact hI.of_same hw rfl rfl rfl rfl rfl (fun h => absurd h hdown)
      (fun _ hne => absurd (Mybuff.getfile_reinit ..) hne)
  | offline hdown texts name openOk write =>
    exact stored_offlineRound hI (Bool.eq_false_iff.mpr hdown) hok
  | oldFile hup fd => exact stored_getMostOldFile hI hw
  | scan hup texts => exact stored_doScan hI hup hquiet.1 hw
  | beat hup stat =>
    have hfile : mybuffGetfile s.send = none := hquiet
    exact hI.of_same hw rfl rfl rfl rfl rfl
      (fun h => ⟨h, fun g hg => mem_append_left _ hg⟩)
      (fun _ hne => absurd (by simp [doHb, hfile]) hne)
  | reply hup body =>
    unfold doReply at hw ⊢
    split
    · exact hI
    rename_i hbody
    rw [if_neg hbody] at hw
    exact hI.of_same hw rfl rfl rfl rfl rfl
      (fun h => ⟨h, fun g hg => mem_append_left _ hg⟩)
      (fun _ hne => absurd (by simp [queueFrame, hquiet.1]) hne)
  | send hup data file unlinked =>
    refine stored_doSend hI hup ?_ file unlinked
    intro he
    subst he
    exact hok
  | close hup => exact stored_closed hI hup hok

theorem stored_init (dir : Path → Option (List UInt8)) : Stored (AgentSt.init dir) := by
  refine ⟨wireInv_init dir, rfl, fun name tf hdir => ?_, nofun, nofun⟩
  obtain ⟨content, -, rfl⟩ := Option.map_eq_some_iff.mp hdir
  nofun

/-- **No report is lost** in a run whose steps are all careful. -/
theorem reports_of_run {dir : Path → Option (List UInt8)}
    (h : Run (agentNext init) Careful (AgentSt.init dir) s) : NothingLost s := by
  have hI : Stored s := h.inv (stored_init dir) fun _ _ _ hI hok hs => stored_step hI hok hs
  exact ⟨hI.kept, fun _ => hI.wire.whole⟩

end Reports

/-! ## 4. A send error -/

instance (s : AgentSt) (a : AgentAct) : Decidable (Careful s a) :=
  match a with
  | .close | .send .error _ _ => inferInstanceAs (Decidable (_ ∧ ∀ f ∈ unsent _ _, _))
  | .offline _ _ _ _ => inferInstanceAs (Decidable (_ ∧ (_ → _)))
  | .connect _ _ | .oldFile _ | .scan _ | .beat _ | .reply _ | .send (.sent _) _ _
  | .send .again _ _ => inferInstanceAs (Decidable (_ ∧ True))

/-- A report goes to a file and is sent from there, and another one is sent directly. -/
def twoReports : List AgentAct :=
  [.offline [ascii "a\n"] (ascii "u") true (some 9), .connect mybuffInit [ascii "u"],
    .oldFile (some 6), .send (.sent 11) (.sent 9) true, .scan [ascii "b\n"],
    .send (.sent 99) .again true, .close]

theorem reports_of_run_two :
    NothingLost (afterActs twoReports) ∧
      (afterActs twoReports).produced = [⟨0, ascii "a\n"⟩, ⟨1, ascii "b\n"⟩] :=
  ⟨@reports_of_run 65536 _ oneFile (run_of_exec twoReports .start (by decide +kernel) rfl),
    by decide +kernel⟩

/-- A report is queued and `send` fails. -/
def sendFails : List AgentAct :=
  [.connect mybuffInit [], .scan [ascii "a\n"], .send .error .again true]

/-- **A report whose frame is not sent when the connection is closed is lost.** -/
theorem unsent_report_dropped :
    ∃ s, Reach (agentNext 65536) (AgentSt.init oneFile) s ∧ ⟨0, ascii "a\n"⟩ ∈ s.produced ∧
      ¬ Kept s ⟨0, ascii "a\n"⟩ := by
  refine ⟨afterActs sendFails, reach_of_exec sendFails .start rfl, by decide +kernel, ?_⟩
  intro h
  cases h with
  | data hr ht => exact absurd hr (by decide +kernel)
  | file hd hr ht =>
    obtain ⟨content, -, rfl⟩ := Option.map_eq_some_iff.mp hd
    cases hr
  | queued hup hf hc => exact absurd hup (by decide +kernel)
  | handed hp hh =>
    have hpast : (afterActs sendFails).past =
        [([], [⟨REQ_SUBMIT, 1, ascii "a\n", [⟨0, ascii "a\n"⟩]⟩])] := by decide +kernel
    rw [hpast] at hp
    cases mem_singleton.mp hp
    obtain ⟨pre, f, post, -, -, hwire⟩ := hh
    have hlen := hwire.length_le
    rw [wireOf_append, length_append, encode_length] at hlen
    simp [HEADSIZE] at hlen

end Agent

end Pfs
