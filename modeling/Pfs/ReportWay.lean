/-
  The whole way of a report: from a finished task over the agent and its connection
  (`AgentRecords`) to the files of the POSS master (`PossStore`).

  The bytes that the agent has written come to the master in chunks that end anywhere, so the last
  frame may still be incomplete there.

  Main results: `StoreInv.stored`, `report_stored_or_kept`.
-/
import Pfs.AgentRecords
import Pfs.PossStore

namespace Pfs.Poss

open Lib List Agent

section Stored

variable {fs pre post : List PossFrame} {f : PossFrame} {rest : List UInt8} {x : Master}

theorem infix_bodiesOf (hf : f ∈ fs) (hcmd : f.cmdid = REQ_SUBMIT) : f.body <:+: bodiesOf fs := by
  obtain ⟨a, b, rfl⟩ := append_of_mem hf
  exact ⟨bodiesOf a, bodiesOf b, by simp [bodiesOf, hcmd]⟩

theorem todo_of_notMem {done todo : List PossFrame} (he : pre ++ f :: post = done ++ todo)
    (hf : f ∉ done) : ∃ g gs, todo = g :: gs ∧
      (g = f ∧ gs = post ∨ (wireOf post).length < (wireOf gs).length) := by
  obtain ⟨mid, hdone, htodo⟩ | ⟨mid, -, htodo⟩ := append_eq_append_iff.mp he
  · cases mid with
    | nil => exact ⟨f, post, htodo.symm, .inl ⟨rfl, rfl⟩⟩
    | cons g mid =>
      cases htodo
      exact absurd (hdone ▸ mem_append_right _ mem_cons_self) hf
  · cases mid with
    | nil => exact ⟨f, post, htodo, .inl ⟨rfl, rfl⟩⟩
    | cons g mid =>
      refine ⟨g, mid ++ f :: post, htodo, .inr ?_⟩
      simp only [wireOf, map_append, map_cons, flatten_append, flatten_cons, length_append,
        encode_length, HEADSIZE]
      omega

/-- What is still to come is behind the frame. -/
theorem StoreInv.stored (h : StoreInv fs rest x) (hd : Drained x) (hfs : ∀ f ∈ fs, ReportFrame f)
    (he : fs = pre ++ f :: post) (hcmd : f.cmdid = REQ_SUBMIT)
    (hrest : rest.length ≤ (wireOf post).length) : f.body <:+: appended x.events := by
  rcases h with ⟨hsync, done, todo, hdone, hbytes, hserved⟩ |
    ⟨hsync, -, done, g, todo, ev, isOpen, pieces, left, hdone, -, hbody, -, -, hbytes, hserved, hev⟩
  · rw [hserved.appended.1]
    by_cases hf : f ∈ done
    · exact infix_bodiesOf hf hcmd
    -- then the first frame to do would be in the buffer
    obtain ⟨g, gs, rfl, hgs⟩ := todo_of_notMem (he.symm.trans hdone) hf
    have hle : (wireOf post).length ≤ (wireOf gs).length := by
      rcases hgs with ⟨-, rfl⟩ | hlt
      · exact Nat.le_refl _
      · exact Nat.le_of_lt hlt
    have hlen := congrArg length hbytes
    rw [wireOf_cons] at hbytes
    rw [wireOf_cons, length_append, length_append] at hlen
    obtain ⟨w, hw, -⟩ := split_of_le hbytes (by omega)
    rw [Drained, if_neg (by rw [hsync]; exact Bool.false_ne_true)] at hd
    exact absurd hw.symm (hd g w (hfs g (by rw [hdone]; simp)))
  · rw [Drained, if_pos hsync] at hd
    rw [hd, nil_append] at hbytes
    have happ : appended x.events = bodiesOf done ++ pieces.flatten := by
      rw [hev, ← hserved.appended.1]
      cases isOpen <;> simp [appended, flatMap_map, flatMap_id']
    rw [happ]
    by_cases hf : f ∈ done
    · exact (infix_bodiesOf hf hcmd).trans ⟨[], pieces.flatten, rfl⟩
    obtain ⟨_, _, hg, hgs⟩ := todo_of_notMem (he.symm.trans hdone) hf
    cases hg
    have hlen := congrArg length hbytes
    rw [length_append] at hlen
    rcases hgs with ⟨rfl, rfl⟩ | hlt
    · have hleft : left = [] := length_eq_zero_iff.mp (by omega)
      rw [hbody, hleft, append_nil]
      exact ⟨bodiesOf done, [], by simp⟩
    · omega

end Stored

def AgentKind (f : PossFrame) : Prop :=
  f.cmdid = REQ_SUBMIT ∨ f.cmdid = REQ_HEARTBEAT ∨ f.cmdid = RSP_PFS_CMD

theorem doSend_frames (s : AgentSt) (data file : IoRes) (unlinked : Bool) :
    (Agent.doSend s data file unlinked).frames = s.frames := by
  have hrm : ∀ s, (rmLastSendFile s unlinked).frames = s.frames := fun s => by
    obtain ⟨_, _, he⟩ := rmLastSendFile_eq s unlinked
    rw [he]
  have hfile : ∀ s, (Agent.sendFile s file unlinked).frames = s.frames := by
    intro s
    simp only [Agent.sendFile]
    repeat' split
    all_goals simp [hrm, AgentSt.closed]
  simp only [Agent.doSend]
  repeat' split
  all_goals simp [hfile, AgentSt.closed]

/-- The agent sends frames of three kinds only. -/
theorem agentKind_step {init : Nat} {s s' : AgentSt} {a : AgentAct}
    (hI : ∀ f ∈ s.frames, AgentKind f) (hs : agentNext init s a = some s') :
    ∀ f ∈ s'.frames, AgentKind f := by
  have hmark : ∀ g, AgentKind g → ∀ f ∈ s.frames ++ [g], AgentKind f := fun g hg =>
    forall_mem_append.mpr ⟨hI, forall_mem_singleton.mpr hg⟩
  cases agentNext_cases hs with
  | connect hdown old todo => nofun
  | offline hdown texts name openOk write =>
    obtain ⟨_, _, _, _, _, he⟩ := offlineRound_eq init s texts name openOk write
    rw [he]
    exact hI
  | oldFile hup fd =>
    unfold getMostOldFile
    split
    · exact hmark _ (.inl rfl)
    · exact hI
  | scan hup texts =>
    obtain ⟨d, rs, he, -, -⟩ := collect_spec init texts s
    simp only [doScan, he]
    split
    · exact hI
    · exact hmark _ (.inl rfl)
  | beat hup stat => exact hmark _ (.inr (.inl rfl))
  | reply hup body =>
    unfold doReply
    split
    · exact hI
    · exact hmark _ (.inr (.inr rfl))
  | send hup data file unlinked =>
    rw [doSend_frames]
    exact hI
  | close hup => exact hI

/-- **A report is with the agent, or it is in the master's files.** Whatever of the connection has
    come to the master, in whatever chunks: a report that was made is stored there in one piece, or
    it is still to be sent -- in `databuff`, in a file, in a frame that is not on the wire yet -- or
    it went over an earlier connection. -/
theorem report_stored_or_kept {init : Nat} {dir : Path → Option (List UInt8)} {s : AgentSt}
    (hrun : Run (agentNext init) Careful (AgentSt.init dir) s) (hup : s.up = true)
    (hlen : ∀ f ∈ s.frames, HEADSIZE + f.body.length < 2 ^ 31) {as : List Arrival}
    (hbytes : as.flatMap Arrival.bytes = s.wire) (hacc : ∀ a ∈ as, a.Accepted)
    (hfit : Meets arrive Fits Master.init as) :
    ∃ x, exec arrive Master.init as = some x ∧ ∀ r ∈ s.produced, r.text <:+: appended x.events ∨
      Agent.Kept { s with frames := unsent s.wire.length s.frames } r := by
  have hI : Stored s := hrun.inv (stored_init dir) fun _ _ _ hI hok hs => stored_step hI hok hs
  have hkind := hrun.inv (I := fun s => ∀ f ∈ s.frames, AgentKind f) (by simp [AgentSt.init])
    fun _ _ _ hI _ hs => agentKind_step hI hs
  have hfs : ∀ f ∈ s.frames, ReportFrame f := fun f hf => ⟨hkind f hf, hlen f hf⟩
  obtain ⟨rest, hrest⟩ := hI.wire.onWire.order
  obtain ⟨x, hx, hinv, hd⟩ := arrivals_spec hfs as
    (.inl ⟨rfl, [], s.frames, rfl, show _ ++ rest = _ by rw [hbytes, hrest], .nil⟩) drained_init
      hacc hfit
  refine ⟨x, hx, fun r hr => ?_⟩
  cases hI.kept r hr with
  | data hr ht => exact .inr (.data hr ht)
  | file hdir hr ht => exact .inr (.file hdir hr ht)
  | handed hp hh => exact .inr (.handed hp hh)
  | queued _ hf hc =>
    obtain ⟨pre, g, post, he, hg, hsent⟩ | hunsent := handedOver_or_unsent ⟨rest, hrest⟩ hf hc
    · -- what has not come is behind the frame
      have hlen := congrArg length hrest
      have hle := hsent.length_le
      rw [he] at hlen
      refine .inl (hg.text.trans (hinv.stored hd hfs he hg.submit ?_))
      simp only [wireOf, map_append, map_cons, map_nil, flatten_append, flatten_cons, flatten_nil,
        length_append, append_nil] at hlen hle ⊢
      omega
    · exact .inr (.queued hup hunsent hc)

def bothSent : AgentSt := afterActs twoReports.dropLast

/-- They come in two chunks, cut within the first head. -/
def bothArrive : List Arrival :=
  [bothSent.wire.take 5, bothSent.wire.drop 5].map fun w => .chunk w fun _ => acceptEnv true

theorem report_stored_or_kept_two : ∃ x, exec arrive Master.init bothArrive = some x ∧
    ∀ r ∈ bothSent.produced, r.text <:+: appended x.events ∨
      Agent.Kept { bothSent with frames := unsent bothSent.wire.length bothSent.frames } r := by
  refine @report_stored_or_kept 65536 oneFile bothSent
    (run_of_exec twoReports.dropLast .start (by decide +kernel) rfl) (by decide +kernel)
    (by decide +kernel) bothArrive (by decide +kernel) (fun a ha => ?_) (by decide +kernel)
  obtain ⟨w, -, rfl⟩ := mem_map.mp ha
  exact fun _ => accepts_acceptEnv true

end Pfs.Poss
