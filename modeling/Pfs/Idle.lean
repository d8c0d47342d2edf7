/-
  The connections that `svc_timeout` closes (network/S/pfs_sig.c, network/D/pfs_data.c,
  network/U/pfs_up.c).

  `activelist` is a list of entries (Lib/Aging.lean): `stamp` is `hbtime`, a `uint32_t`; the marks
  say when a connection was last at the end of the list as its `hbtime` was written, and when
  something was last received from it. An action carries what `time(NULL)` answers; an operation
  that happens within another one (`do_req` within `svc_recv`, `check_task` within `svc_timeout`) is
  part of its action.

  Main results: `silent_dropped`, `scan_misses_none`.
-/
import Pfs.Lib.Aging
import Pfs.Lib.Run
import Pfs.Storage

namespace Pfs

open Lib List

/-! ## 1. The clock -/

/-- A time in `hbtime`. -/
def hbtime (t : Int) : Int := t % 2 ^ 32

def ClockFits (t : Int) : Prop := 0 ≤ t ∧ t < 2 ^ 32

instance (t : Int) : Decidable (ClockFits t) := inferInstanceAs (Decidable (0 ≤ t ∧ t < 2 ^ 32))

theorem hbtime_eq {t : Int} (h : ClockFits t) : hbtime t = t := Int.emod_eq_of_lt h.1 h.2

structure AgeSt where
  peers : List (Aged Nat)
  clock : Int
  reportInfo : Int

def AgeSt.init : AgeSt := ⟨[], 0, 0⟩

/-- What writes the `hbtime` of a connection, and when: `svc_initconn`, a write that goes with
    `list_move_tail`, and one that does not. -/
inductive Touch where
  | initconn (c : Nat) (t : Int)
  | move (c : Nat) (t : Int)
  | write (c : Nat) (t : Int)
  deriving DecidableEq, Repr

def Touch.time : Touch → Int
  | .initconn _ t => t
  | .move _ t => t
  | .write _ t => t

def Touch.run (l : List (Aged Nat)) : Touch → List (Aged Nat)
  | .initconn c t => Aged.add c (hbtime t) t l
  | .move c t => Aged.move c (hbtime t) t l
  | .write c t => Aged.write c (hbtime t) t l

def touchAll (ts : List Touch) (l : List (Aged Nat)) : List (Aged Nat) := ts.foldl Touch.run l

/-- New connections, one after the other: `svc_initconn`. -/
def connectAll (conns : List (Nat × Int)) (l : List (Aged Nat)) : List (Aged Nat) :=
  touchAll (conns.map fun r => .initconn r.1 r.2) l

/-- `active_send` to some connections, one after the other. -/
def sendAll (sends : List (Nat × Int)) (l : List (Aged Nat)) : List (Aged Nat) :=
  touchAll (sends.map fun r => .write r.1 r.2) l

def MarksOk (l : List (Aged Nat)) : Prop := ∀ p ∈ l, p.heard ≤ p.placed ∧ p.placed ≤ p.stamp

section Touches

variable {now t : Int} {c : Nat} {l : List (Aged Nat)} {p : Aged Nat}

theorem MarksOk.append (h : MarksOk l) {x : Aged Nat}
    (hx : x.heard ≤ x.placed ∧ x.placed ≤ x.stamp) : MarksOk (l ++ [x]) := by
  intro p hp
  rcases mem_append.mp hp with hp | hp
  · exact h p hp
  · rw [mem_singleton.mp hp]
    exact hx

theorem MarksOk.sublist {l' : List (Aged Nat)} (h : MarksOk l) (hl : l'.Sublist l) : MarksOk l' :=
  fun p hp => h p (hl.subset hp)

theorem MarksOk.add (h : MarksOk l) (hf : ClockFits t) : MarksOk (Aged.add c (hbtime t) t l) := by
  unfold Aged.add
  split
  · exact h
  · exact h.append ⟨Int.le_refl t, Int.le_of_eq (hbtime_eq hf).symm⟩

theorem MarksOk.move (h : MarksOk l) (ho : Aged.Ordered now l) (ht : now ≤ t) (hf : ClockFits t) :
    MarksOk (Aged.move c (hbtime t) t l) := by
  unfold Aged.move
  have hrest : MarksOk (Aged.remove c l) := h.sublist filter_sublist
  cases hfind : l.find? fun p => p.id = c with
  | none =>
    rw [Option.map_none, Option.toList_none, append_nil]
    exact hrest
  | some p =>
    have hp := mem_of_find?_eq_some hfind
    refine hrest.append ⟨?_, Int.le_of_eq (hbtime_eq hf).symm⟩
    exact Int.le_trans (h p hp).1 (Int.le_trans (ho.upto p hp) ht)

theorem MarksOk.write (h : MarksOk l) (ho : Aged.Ordered now l) (ht : now ≤ t) (hf : ClockFits t) :
    MarksOk (Aged.write c (hbtime t) t l) := by
  intro p hp
  obtain ⟨q, hq, -, hheard, hplaced, hstamp⟩ := Aged.mem_write hp
  obtain ⟨h1, h2⟩ := h q hq
  have hup := ho.upto q hq
  rw [hbtime_eq hf] at hplaced hstamp
  omega

theorem Touch.ordered (x : Touch) (ho : Aged.Ordered now l) (hx : now ≤ x.time) :
    Aged.Ordered x.time (x.run l) := by
  cases x with
  | initconn c t => exact ho.add hx
  | move c t => exact ho.move hx
  | write c t => exact ho.write hx

theorem Touch.marks (x : Touch) (ho : Aged.Ordered now l) (h : MarksOk l) (hx : now ≤ x.time)
    (hf : ClockFits x.time) : MarksOk (x.run l) := by
  cases x with
  | initconn c t => exact h.add hf
  | move c t => exact h.move ho hx hf
  | write c t => exact h.write ho hx hf

theorem Touch.stamp_mem (x : Touch) (h : p ∈ x.run l) :
    (∃ q ∈ l, p.stamp = q.stamp) ∨ p.stamp = hbtime x.time := by
  cases x with
  | initconn c t =>
    rcases Aged.mem_add h with h | rfl
    · exact .inl ⟨p, h, rfl⟩
    · exact .inr rfl
  | move c t =>
    rcases Aged.mem_move h with h | ⟨-, h⟩
    · exact .inl ⟨p, h, rfl⟩
    · exact .inr h
  | write c t =>
    obtain ⟨q, hq, -, -, -, h | ⟨-, h⟩⟩ := Aged.mem_write h
    · exact .inl ⟨q, hq, h⟩
    · exact .inr h

variable {ts : List Touch}

theorem touchAll_ordered (ho : Aged.Ordered now l)
    (hs : (now :: ts.map Touch.time).Pairwise (· ≤ ·)) :
    Aged.Ordered ((ts.map Touch.time).getLastD now) (touchAll ts l) := by
  induction ts generalizing now l with
  | nil => exact ho
  | cons x ts ih =>
    obtain ⟨hnow, hts⟩ := pairwise_cons.mp hs
    rw [map_cons, getLastD_cons]
    exact ih (x.ordered ho (hnow _ mem_cons_self)) hts

theorem touchAll_marks (ho : Aged.Ordered now l) (h : MarksOk l)
    (hs : (now :: ts.map Touch.time).Pairwise (· ≤ ·)) (hf : ∀ x ∈ ts, ClockFits x.time) :
    MarksOk (touchAll ts l) := by
  induction ts generalizing now l with
  | nil => exact h
  | cons x ts ih =>
    obtain ⟨hnow, hts⟩ := pairwise_cons.mp hs
    have hx : now ≤ x.time := hnow _ mem_cons_self
    exact ih (x.ordered ho hx) (x.marks ho h hx (hf x mem_cons_self)) hts
      fun y hy => hf y (mem_cons_of_mem _ hy)

theorem stamp_touchAll (h : p ∈ touchAll ts l) :
    (∃ q ∈ l, p.stamp = q.stamp) ∨ ∃ x ∈ ts, p.stamp = hbtime x.time := by
  induction ts generalizing l with
  | nil => exact .inl ⟨p, h, rfl⟩
  | cons x ts ih =>
    rcases ih h with ⟨q, hq, he⟩ | ⟨y, hy, he⟩
    · rcases x.stamp_mem hq with ⟨r, hr, he'⟩ | he'
      · exact .inl ⟨r, hr, he.trans he'⟩
      · exact .inr ⟨x, mem_cons_self, he.trans he'⟩
    · exact .inr ⟨y, mem_cons_of_mem _ hy, he⟩

theorem touchAll_inv {rs : List (Nat × Int)} {f : Nat × Int → Touch} (htime : ∀ r, (f r).time = r.2)
    (ho : Aged.Ordered now l) (h : MarksOk l) (hs : (now :: rs.map Prod.snd).Pairwise (· ≤ ·))
    (hf : ∀ r ∈ rs, ClockFits r.2) :
    Aged.Ordered ((rs.map Prod.snd).getLastD now) (touchAll (rs.map f) l) ∧
      MarksOk (touchAll (rs.map f) l) := by
  have htimes : (rs.map f).map Touch.time = rs.map Prod.snd := by
    rw [map_map]
    exact map_congr_left fun r _ => htime r
  rw [← htimes] at hs ⊢
  refine ⟨touchAll_ordered ho hs, touchAll_marks ho h hs (forall_mem_map.mpr fun r hr => ?_)⟩
  rw [htime]
  exact hf r hr

end Touches

/-! ## 2. The signalling service -/

/-- The loop of `svc_timeout`; `beat` is the time of an `active_send`. -/
def sigScan (timeout : Nat) (now : Int) (beat : Nat → Int) : List (Aged Nat) → List (Aged Nat)
  | [] => []
  | p :: ps =>
    if now - p.stamp < timeout then p :: ps
    else if timeout < now - p.stamp ∧ now - p.stamp < 10 * timeout then
      { p with stamp := hbtime (beat p.id) } :: sigScan timeout now beat ps
    else if 10 * timeout < now - p.stamp then sigScan timeout now beat ps
    else p :: sigScan timeout now beat ps

/-- `do_req` for the messages of a batch. -/
def hearAll (c : Nat) (reqs : List Int) (l : List (Aged Nat)) : List (Aged Nat) :=
  reqs.foldl (fun l r => Aged.hear c r (Aged.write c (hbtime r) r l)) l

/-- What writes `hbtime` of a connection, or removes it. -/
inductive SigAge where
  /-- accepted, or by `active_connect` -/
  | initconn (c : Nat) (t : Int)
  /-- `svc_recv`, and when `do_req` is called in it -/
  | recv (c : Nat) (t : Int) (reqs : List Int)
  | sent (c : Nat) (t : Int)
  | close (c : Nat)
  /-- `svc_timeout`: the peers that `report_local_diskerr` sends to, the time of each heartbeat,
      the time after the scan, and the peers that `scan_cfg_iplist_and_connect` connects to -/
  | timeout (now : Int) (report : List (Nat × Int)) (beat : Nat → Int) (after : Int)
      (conns : List (Nat × Int))

def sigAgeStep (timeout : Nat) (s : AgeSt) : SigAge → AgeSt
  | .initconn c t => { s with peers := Aged.add c (hbtime t) t s.peers, clock := t }
  | .recv c t reqs =>
    { s with
      peers := hearAll c reqs (Aged.hear c t (Aged.move c (hbtime t) t s.peers))
      clock := reqs.getLastD t }
  | .sent c t => { s with peers := Aged.move c (hbtime t) t s.peers, clock := t }
  | .close c => { s with peers := Aged.remove c s.peers }
  | .timeout now report beat stop conns =>
    let due := 300 < now - s.reportInfo
    let peers := if due then sendAll report s.peers else s.peers
    { peers := connectAll conns (sigScan timeout now beat peers)
      clock := (conns.map Prod.snd).getLastD stop
      reportInfo := if due then now else s.reportInfo }

/-- What `time(NULL)` answers, in order. -/
def SigAge.reads : SigAge → List Int
  | .initconn _ t => [t]
  | .recv _ t reqs => t :: reqs
  | .sent _ t => [t]
  | .close _ => []
  | .timeout now report _ stop conns => now :: report.map Prod.snd ++ stop :: conns.map Prod.snd

/-- The clock does not run backwards, and its value fits. -/
structure SigAge.Clocked (s : AgeSt) (a : SigAge) : Prop where
  sorted : (s.clock :: a.reads).Pairwise (· ≤ ·)
  fits : ∀ t ∈ a.reads, ClockFits t
  beats : ∀ now report beat after conns, a = .timeout now report beat after conns →
    ∀ c, (report.map Prod.snd).getLastD now ≤ beat c ∧ beat c ≤ after

/-- When `svc_timeout` is called, every live peer has been heard since its `hbtime` was last written
    for something that was sent to it; the peers it reports to have been heard in that second. -/
def Answered (s : AgeSt) (a : SigAge) : Prop :=
  a.Clocked s ∧
    match a with
    | .timeout now report _ _ _ => (∀ p ∈ s.peers, p.stamp = p.heard) ∧
      (300 < now - s.reportInfo → ∀ r ∈ report, ∀ p ∈ s.peers, p.id = r.1 → p.heard = r.2)
    | _ => True

/-- The list is in the order of the stamps, and no sign of life is later. -/
structure AgeInv (s : AgeSt) : Prop where
  ordered : Aged.Ordered s.clock s.peers
  marks : MarksOk s.peers

section Ops

variable {now t : Int} {c : Nat} {l : List (Aged Nat)} {p : Aged Nat}

variable {reqs : List Int}

theorem hearAll_last (hl : ∀ p ∈ l, p.id ≠ c) : hearAll c reqs (l ++ [⟨c, hbtime t, t, t⟩]) =
      l ++ [⟨c, hbtime (reqs.getLastD t), reqs.getLastD t, reqs.getLastD t⟩] := by
  induction reqs generalizing t with
  | nil => rfl
  | cons r rs ih =>
    rw [getLastD_cons, ← ih]
    unfold hearAll
    rw [foldl_cons, Aged.write_last hl rfl, Aged.hear_last hl rfl]

theorem hearAll_absent (hl : ∀ p ∈ l, p.id ≠ c) : hearAll c reqs l = l := by
  induction reqs with
  | nil => rfl
  | cons r rs ih =>
    unfold hearAll at ih ⊢
    rw [foldl_cons, Aged.write_absent hl, Aged.hear_absent hl, ih]

theorem recv_inv (ho : Aged.Ordered now l) (h : MarksOk l)
    (hs : (now :: t :: reqs).Pairwise (· ≤ ·)) (hf : ∀ r ∈ t :: reqs, ClockFits r) :
    Aged.Ordered (reqs.getLastD t) (hearAll c reqs (Aged.hear c t (Aged.move c (hbtime t) t l))) ∧
      MarksOk (hearAll c reqs (Aged.hear c t (Aged.move c (hbtime t) t l))) := by
  have hid : ∀ p ∈ Aged.remove c l, p.id ≠ c := Aged.id_ne_of_remove
  have hrest : MarksOk (Aged.remove c l) := h.sublist filter_sublist
  have hlast : reqs.getLastD t ∈ t :: reqs := getLastD_mem_cons
  have hnow : now ≤ reqs.getLastD t := (pairwise_cons.mp hs).1 _ hlast
  unfold Aged.move
  cases hfind : l.find? fun p => p.id = c with
  | none =>
    rw [Option.map_none, Option.toList_none, append_nil, Aged.hear_absent hid, hearAll_absent hid]
    exact ⟨(ho.remove c).mono hnow, hrest⟩
  | some p =>
    have hp : p.id = c := by simpa using find?_some hfind
    have hheard : Aged.hear c t (Aged.remove c l ++
        ((some p).map fun p => { p with stamp := hbtime t, placed := t }).toList) =
          Aged.remove c l ++ [⟨c, hbtime t, t, t⟩] := by
      rw [← hp]
      exact Aged.hear_last (fun q hq => hp ▸ hid q (hp ▸ hq)) rfl
    rw [hheard, hearAll_last hid]
    exact ⟨(ho.remove c).append hnow rfl,
      hrest.append ⟨Int.le_refl _, Int.le_of_eq (hbtime_eq (hf _ hlast)).symm⟩⟩

theorem mem_sigScan {timeout : Nat} {beat : Nat → Int} (h : p ∈ sigScan timeout now beat l) :
    ∃ q ∈ l, p.placed = q.placed ∧ p.heard = q.heard ∧
      (p.stamp = q.stamp ∨ p.stamp = hbtime (beat q.id)) := by
  induction l with
  | nil => cases h
  | cons x l ih =>
    have hrest : p ∈ sigScan timeout now beat l → ∃ q ∈ x :: l, p.placed = q.placed ∧
        p.heard = q.heard ∧ (p.stamp = q.stamp ∨ p.stamp = hbtime (beat q.id)) := by
      intro h
      obtain ⟨q, hq, hr⟩ := ih h
      exact ⟨q, mem_cons_of_mem _ hq, hr⟩
    unfold sigScan at h
    split at h
    · exact ⟨p, h, rfl, rfl, Or.inl rfl⟩
    split at h
    · rcases mem_cons.mp h with rfl | h
      · exact ⟨x, mem_cons_self, rfl, rfl, Or.inr rfl⟩
      · exact hrest h
    split at h
    · exact hrest h
    rcases mem_cons.mp h with rfl | h
    · exact ⟨p, mem_cons_self, rfl, rfl, Or.inl rfl⟩
    · exact hrest h

theorem sigScan_inv (timeout : Nat) {beat : Nat → Int} (ho : Aged.Ordered now l) (h : MarksOk l)
    (hb : ∀ c, now ≤ beat c) (hf : ∀ c, ClockFits (beat c)) (t : Int) :
    Aged.Ordered now (sigScan timeout t beat l) ∧ MarksOk (sigScan timeout t beat l) := by
  refine ⟨⟨?_, fun p hp => ?_⟩, fun p hp => ?_⟩
  · induction l with
    | nil => exact .nil
    | cons x l ih =>
      obtain ⟨hx, hl⟩ := pairwise_cons.mp ho.sorted
      have hrest := ih (ho.sublist (sublist_cons_self _ _)) fun q hq =>
        h q (mem_cons_of_mem _ hq)
      have hfront : ∀ q ∈ sigScan timeout t beat l, x.placed ≤ q.placed := by
        intro q hq
        obtain ⟨y, hy, hplaced, -⟩ := mem_sigScan hq
        rw [hplaced]
        exact hx y hy
      unfold sigScan
      split
      · exact ho.sorted
      split
      · exact pairwise_cons.mpr ⟨hfront, hrest⟩
      split
      · exact hrest
      · exact pairwise_cons.mpr ⟨hfront, hrest⟩
  · obtain ⟨q, hq, hplaced, -⟩ := mem_sigScan hp
    rw [hplaced]
    exact ho.upto q hq
  · obtain ⟨q, hq, hplaced, hheard, hstamp⟩ := mem_sigScan hp
    have hmarks := h q hq
    have hup := ho.upto q hq
    have hbeat := hb q.id
    rw [hbtime_eq (hf q.id)] at hstamp
    omega

end Ops

section Sig

variable {timeout : Nat} {s : AgeSt}

variable {now : Int} {l : List (Aged Nat)}

theorem timeout_reads {clock after : Int} {report conns : List (Nat × Int)}
    (h : (clock :: (now :: report.map Prod.snd ++ after :: conns.map Prod.snd)).Pairwise (· ≤ ·)) :
    clock ≤ now ∧ (now :: report.map Prod.snd).Pairwise (· ≤ ·) ∧
      (∀ t ∈ now :: report.map Prod.snd, t ≤ after) ∧
        (after :: conns.map Prod.snd).Pairwise (· ≤ ·) := by
  obtain ⟨hclock, hreads⟩ := pairwise_cons.mp h
  obtain ⟨hreports, hconns, hcross⟩ := pairwise_append.mp hreads
  exact ⟨hclock now mem_cons_self, hreports, fun t ht => hcross t ht after mem_cons_self,
    hconns⟩

theorem le_getLastD {t : Int} {ts : List Int} (h : (t :: ts).Pairwise (· ≤ ·)) :
    t ≤ ts.getLastD t := by
  rcases mem_cons.mp (getLastD_mem_cons (l := ts) (a := t)) with he | he
  · exact Int.le_of_eq he.symm
  · exact (pairwise_cons.mp h).1 _ he

theorem report_inv (h : AgeInv s) (hnow : s.clock ≤ now) {report : List (Nat × Int)}
    (hs : (now :: report.map Prod.snd).Pairwise (· ≤ ·)) (hf : ∀ r ∈ report, ClockFits r.2) :
    Aged.Ordered ((report.map Prod.snd).getLastD now)
        (if 300 < now - s.reportInfo then sendAll report s.peers else s.peers) ∧
      MarksOk (if 300 < now - s.reportInfo then sendAll report s.peers else s.peers) := by
  split
  · exact touchAll_inv (fun _ => rfl) (h.ordered.mono hnow) h.marks hs hf
  · exact ⟨h.ordered.mono (Int.le_trans hnow (le_getLastD hs)), h.marks⟩

theorem AgeInv.step {a : SigAge} (h : AgeInv s) (hok : a.Clocked s) :
    AgeInv (sigAgeStep timeout s a) := by
  obtain ⟨hs, hf, hb⟩ := hok
  cases a with
  | initconn c t =>
    have ht : s.clock ≤ t := (pairwise_cons.mp hs).1 t mem_cons_self
    exact ⟨h.ordered.add ht, h.marks.add (hf t mem_cons_self)⟩
  | recv c t reqs =>
    obtain ⟨ho, hm⟩ := recv_inv h.ordered h.marks hs hf
    exact ⟨ho, hm⟩
  | sent c t =>
    have ht : s.clock ≤ t := (pairwise_cons.mp hs).1 t mem_cons_self
    exact ⟨h.ordered.move ht, h.marks.move h.ordered ht (hf t mem_cons_self)⟩
  | close c => exact ⟨h.ordered.remove c, h.marks.sublist filter_sublist⟩
  | timeout now report beat after conns =>
    obtain ⟨hnow, hreports, hafter, hconns⟩ := timeout_reads hs
    have hbeat := hb now report beat after conns rfl
    obtain ⟨ho, hm⟩ := report_inv h hnow hreports fun r hr =>
      hf r.2 (by simp [SigAge.reads, mem_map_of_mem hr])
    have hfirst : ClockFits now := hf now (by simp [SigAge.reads])
    have hlast : ClockFits after := hf after (by simp [SigAge.reads])
    have hfits (c : Nat) : ClockFits (beat c) :=
      ⟨Int.le_trans hfirst.1 (Int.le_trans (le_getLastD hreports) (hbeat c).1),
        Int.lt_of_le_of_lt (hbeat c).2 hlast.2⟩
    obtain ⟨ho', hm'⟩ := sigScan_inv timeout ho hm (fun c => (hbeat c).1) hfits now
    obtain ⟨hend, hmend⟩ := @touchAll_inv _ _ conns (fun r => .initconn r.1 r.2) (fun _ => rfl)
      (ho'.mono (hafter _ getLastD_mem_cons)) hm' hconns
      fun r hr => hf r.2 (by simp [SigAge.reads, mem_map_of_mem hr])
    exact ⟨hend, hmend⟩

def sigAgeNext (timeout : Nat) (s : AgeSt) (a : SigAge) : Option AgeSt :=
  some (sigAgeStep timeout s a)

theorem ageInv_of_run (h : Run (sigAgeNext timeout) Answered AgeSt.init s) : AgeInv s := by
  refine h.inv ⟨.nil 0, fun p hp => absurd hp not_mem_nil⟩ ?_
  intro s s' a hinv hok hs
  cases hs
  exact hinv.step hok.1

theorem sendAll_heard {sends : List (Nat × Int)}
    (hl : ∀ p ∈ l, p.stamp = p.heard) (hf : ∀ r ∈ sends, ClockFits r.2)
    (hheard : ∀ r ∈ sends, ∀ p ∈ l, p.id = r.1 → p.heard = r.2) :
    ∀ p ∈ sendAll sends l, p.stamp = p.heard := by
  induction sends generalizing l with
  | nil => exact hl
  | cons r rs ih =>
    have hr : ClockFits r.2 := hf r mem_cons_self
    refine ih (fun p hp => ?_) (fun x hx => hf x (mem_cons_of_mem _ hx)) ?_
    · obtain ⟨q, hq, -, hsame, -, hstamp | ⟨hk, hstamp⟩⟩ := Aged.mem_write hp
      · rw [hstamp, hsame, hl q hq]
      · rw [hstamp, hsame, hbtime_eq hr, hheard r mem_cons_self q hq hk]
    · intro x hx p hp hid
      obtain ⟨q, hq, hsameId, hsame, -⟩ := Aged.mem_write hp
      rw [hsame]
      exact hheard x (mem_cons_of_mem _ hx) q hq (hsameId ▸ hid)

theorem sigScan_heard {beat : Nat → Int}
    (hs : l.Pairwise fun p q => p.stamp ≤ q.stamp) (hl : ∀ p ∈ l, p.stamp = p.heard) :
    ∀ p ∈ sigScan timeout now beat l, now - p.heard ≤ 10 * timeout := by
  induction l with
  | nil => exact fun p hp => absurd hp not_mem_nil
  | cons x l ih =>
    obtain ⟨hx, hrest⟩ := pairwise_cons.mp hs
    have hxs := hl x mem_cons_self
    have hscan := ih hrest fun p hp => hl p (mem_cons_of_mem _ hp)
    intro p hp
    unfold sigScan at hp
    split at hp
    · -- the scan stops: everybody behind is younger
      have hle : x.stamp ≤ p.stamp := by
        rcases mem_cons.mp hp with rfl | hp
        · exact Int.le_refl _
        · exact hx p hp
      have hps := hl p hp
      omega
    · split at hp
      · rcases mem_cons.mp hp with rfl | hp
        · change now - x.heard ≤ _
          omega
        · exact hscan p hp
      · split at hp
        · exact hscan p hp
        rcases mem_cons.mp hp with rfl | hp
        · omega
        · exact hscan p hp

theorem mem_connectAll {conns : List (Nat × Int)} {p : Aged Nat}
    (h : p ∈ connectAll conns l) : p ∈ l ∨ ∃ r ∈ conns, p = ⟨r.1, hbtime r.2, r.2, r.2⟩ := by
  induction conns generalizing l with
  | nil => exact .inl h
  | cons r rs ih =>
    rcases ih h with h | ⟨x, hx, he⟩
    · exact (Aged.mem_add h).imp_right fun he => ⟨r, mem_cons_self, he⟩
    · exact .inr ⟨x, mem_cons_of_mem _ hx, he⟩

/-- **Silent peers are dropped**: right after a call of `svc_timeout` there is no peer from which
    nothing was received for more than ten times the timeout. -/
theorem silent_dropped (timeout : Nat) {s : AgeSt}
    (h : Run (sigAgeNext timeout) Answered AgeSt.init s) {now after : Int} {beat : Nat → Int}
    {report conns : List (Nat × Int)} (hok : Answered s (.timeout now report beat after conns)) :
    ∀ p ∈ (sigAgeStep timeout s (.timeout now report beat after conns)).peers,
      now - p.heard ≤ 10 * timeout := by
  obtain ⟨⟨hs, hf, -⟩, hheard, hreported⟩ := hok
  obtain ⟨hnow, hreports, hafter, hconns⟩ := timeout_reads hs
  have hfits : ∀ r ∈ report, ClockFits r.2 := fun r hr =>
    hf r.2 (by simp [SigAge.reads, mem_map_of_mem hr])
  obtain ⟨ho, hm⟩ := report_inv (ageInv_of_run h) hnow hreports hfits
  have hstamps : ∀ p ∈ if 300 < now - s.reportInfo then sendAll report s.peers else s.peers,
      p.stamp = p.heard := by
    split
    · rename_i hdue
      exact sendAll_heard hheard hfits (hreported hdue)
    · exact hheard
  have hsorted := ho.stamps fun p hp => by
    have hmarks := hm p hp
    have hstamp := hstamps p hp
    omega
  intro p hp
  rcases mem_connectAll hp with hp | ⟨r, hr, rfl⟩
  · exact sigScan_heard hsorted hstamps p hp
  have hle := (pairwise_cons.mp hconns).1 r.2 (mem_map_of_mem hr)
  have hnow' := hafter now mem_cons_self
  change now - r.2 ≤ _
  omega

/-- A call of `svc_timeout` that takes no time. -/
def calm (now : Int) : SigAge := .timeout now [] (fun _ => now) now []

theorem clocked_calm (hs : s.clock ≤ now) (hf : ClockFits now) : (calm now).Clocked s where
  sorted := by simp [calm, SigAge.reads, hs]
  fits := by simpa [calm, SigAge.reads] using hf
  beats := by
    intro n report beat after conns he c
    cases he
    exact ⟨Int.le_refl _, Int.le_refl _⟩

theorem clocked_initconn {c : Nat} {t : Int} (hs : s.clock ≤ t) (hf : ClockFits t) :
    (SigAge.initconn c t).Clocked s where
  sorted := by simp [SigAge.reads, hs]
  fits := by simpa [SigAge.reads] using hf
  beats := by
    intro n report beat after conns he
    cases he

theorem silent_dropped_two : ∃ s : AgeSt, s.peers.map Aged.id = [0, 1] ∧
    (sigAgeStep 3 s (calm 50)).peers.map Aged.id = [1] ∧
    ∀ p ∈ (sigAgeStep 3 s (calm 50)).peers, 50 - p.heard ≤ 10 * (3 : Nat) := by
  have hrun : Run (sigAgeNext 3) Answered AgeSt.init ⟨[⟨0, 1, 1, 1⟩, ⟨1, 40, 40, 40⟩], 40, 0⟩ :=
    run_of_exec [.initconn 0 1, .initconn 1 40] .start
      ⟨⟨clocked_initconn (by decide) (by decide), trivial⟩, fun s hs => by
        cases hs
        exact ⟨⟨clocked_initconn (by decide) (by decide), trivial⟩, fun _ _ => trivial⟩⟩ rfl
  refine ⟨_, rfl, by decide, silent_dropped 3 hrun ⟨clocked_calm (by decide) (by decide), ?_, ?_⟩⟩
  · decide
  · exact fun _ r hr => absurd hr not_mem_nil

def deadPeer : List SigAge := [.initconn 0 1, calm 11, calm 21, calm 31]

/-- **A silent peer stays**: every heartbeat that is sent to it makes it look alive. -/
theorem silent_kept : ∃ s, Run (sigAgeNext 3) (fun s a => a.Clocked s) AgeSt.init s ∧
    (calm 41).Clocked s ∧
    ∃ p ∈ (sigAgeStep 3 s (calm 41)).peers, p.heard = 1 ∧ 10 * 3 < 41 - p.heard := by
  have hmeets : Meets (sigAgeNext 3) (fun s a => a.Clocked s) AgeSt.init deadPeer :=
    ⟨clocked_initconn (by decide) (by decide), fun s hs => by
      cases hs
      refine ⟨clocked_calm (by decide) (by decide), fun s hs => ?_⟩
      cases hs
      refine ⟨clocked_calm (by decide) (by decide), fun s hs => ?_⟩
      cases hs
      exact ⟨clocked_calm (by decide) (by decide), fun _ _ => trivial⟩⟩
  refine ⟨⟨[⟨0, 31, 1, 1⟩], 31, 0⟩, run_of_exec deadPeer .start hmeets rfl,
    clocked_calm (by decide) (by decide), ⟨0, 41, 1, 1⟩, ?_, rfl, by decide⟩
  decide

end Sig

/-! ## 3. The data and the upload service -/

structure ActiveSt where
  peers : List (Aged Nat)
  clock : Int

def ActiveSt.init : ActiveSt := ⟨[], 0⟩

/-- How `svc_recv` goes on: `do_send_task` is called, or a file begins and it goes back to
    `recvfileing`. -/
inductive RecvRest where
  | done
  | sendTask (t : Int)
  | again (t : Int)
  deriving DecidableEq, Repr

/-- What `check_task` does to the connections. -/
inductive CheckTouch where
  | connect (c : Nat) (t : Int)
  | activeSend (c : Nat) (t : Int)
  deriving DecidableEq, Repr

/-- The same for the other two services. -/
inductive AgeAct where
  /-- accepted -/
  | initconn (c : Nat) (t : Int)
  | recv (c : Nat) (t : Int) (rest : RecvRest)
  /-- `do_send` of the event loop: when it calls `svc_send_once`, which it does if something was
      sent, and `svc_send`, which it does if nothing is left -/
  | sent (c : Nat) (once all : Option Int)
  | close (c : Nat)
  | timeout (now : Int) (check : List CheckTouch)
  deriving DecidableEq, Repr

/-- The upload service has no `do_send_task`. -/
def RecvRest.touches (svc : Svc) (c : Nat) : RecvRest → List Touch
  | .done => []
  | .sendTask t =>
    match svc with
    | .data => [.write c t]
    | .up => []
  | .again t => [.move c t]

def CheckTouch.touch : CheckTouch → Touch
  | .connect c t => .initconn c t
  | .activeSend c t => .write c t

/-- The upload service's `svc_send` does nothing. -/
def svcSendTouch (svc : Svc) (c : Nat) (t : Int) : List Touch :=
  match svc with
  | .data => [.move c t]
  | .up => []

/-- The writes of `hbtime`; the upload service has no `check_task`. -/
def AgeAct.touches (svc : Svc) : AgeAct → List Touch
  | .initconn c t => [.initconn c t]
  | .recv c t rest => .move c t :: rest.touches svc c
  | .sent c once all =>
    once.toList.map (Touch.write c) ++ all.toList.flatMap (svcSendTouch svc c)
  | .close _ => []
  | .timeout _ check =>
    match svc with
    | .data => check.map CheckTouch.touch
    | .up => []

/-- The loop of `svc_timeout`: `do_close` up to the first connection that is young enough. -/
def ageScan (timeout : Nat) (now : Int) (l : List (Aged Nat)) : List (Aged Nat) :=
  l.dropWhile fun p => !decide (now - p.stamp < 10 * timeout)

/-- What an action does to the list before it writes `hbtime`. -/
def AgeAct.clear (timeout : Nat) (l : List (Aged Nat)) : AgeAct → List (Aged Nat)
  | .close c => Aged.remove c l
  | .timeout now _ => ageScan timeout now l
  | _ => l

/-- What `time(NULL)` answers, in order. -/
def AgeAct.reads (svc : Svc) : AgeAct → List Int
  | .timeout now check => now :: (AgeAct.timeout now check |>.touches svc).map Touch.time
  | a => (a.touches svc).map Touch.time

def ageStep (svc : Svc) (timeout : Nat) (s : ActiveSt) (a : AgeAct) : ActiveSt where
  peers := touchAll (a.touches svc) (a.clear timeout s.peers)
  clock := (a.reads svc).getLastD s.clock

def ageNext (svc : Svc) (timeout : Nat) (s : ActiveSt) (a : AgeAct) : Option ActiveSt :=
  some (ageStep svc timeout s a)

/-- The clock does not run backwards, and its value fits. -/
def AgeAct.Clocked (svc : Svc) (s : ActiveSt) (a : AgeAct) : Prop :=
  (s.clock :: a.reads svc).Pairwise (· ≤ ·) ∧ ∀ t ∈ a.reads svc, ClockFits t

/-- When `svc_timeout` is called, the `hbtime` of every live connection was last written while the
    connection was at the end of `activelist`. -/
def TailWritten (svc : Svc) (s : ActiveSt) (a : AgeAct) : Prop :=
  a.Clocked svc s ∧
    match a with
    | .timeout _ _ => ∀ p ∈ s.peers, p.stamp = p.placed
    | _ => True

instance decidableClocked (svc : Svc) (s : ActiveSt) (a : AgeAct) : Decidable (a.Clocked svc s) :=
  inferInstanceAs (Decidable (_ ∧ _))

instance decidableTailWritten (svc : Svc) (s : ActiveSt) :
    (a : AgeAct) → Decidable (TailWritten svc s a)
  | .timeout _ _ => inferInstanceAs (Decidable (_ ∧ ∀ p ∈ s.peers, p.stamp = p.placed))
  | .initconn _ _ => inferInstanceAs (Decidable (_ ∧ True))
  | .recv _ _ _ => inferInstanceAs (Decidable (_ ∧ True))
  | .sent _ _ _ => inferInstanceAs (Decidable (_ ∧ True))
  | .close _ => inferInstanceAs (Decidable (_ ∧ True))

section Age

variable {svc : Svc} {timeout : Nat} {s : ActiveSt}

theorem AgeAct.clear_sublist (a : AgeAct) (timeout : Nat) (l : List (Aged Nat)) :
    (a.clear timeout l).Sublist l := by
  cases a with
  | close c => exact filter_sublist
  | timeout now check => exact dropWhile_sublist _
  | initconn | recv | sent => exact List.Sublist.refl l

theorem ordered_step {a : AgeAct} (h : Aged.Ordered s.clock s.peers) (hok : a.Clocked svc s) :
    Aged.Ordered (ageStep svc timeout s a).clock (ageStep svc timeout s a).peers := by
  have hclear := h.sublist (a.clear_sublist timeout s.peers)
  have hsorted := hok.1
  cases a with
  | timeout now check =>
    obtain ⟨hnow, hrest⟩ := pairwise_cons.mp hsorted
    change Aged.Ordered (List.getLastD (now :: _) s.clock) _
    rw [getLastD_cons]
    exact touchAll_ordered (hclear.mono (hnow now mem_cons_self)) hrest
  | initconn | recv | sent | close => exact touchAll_ordered hclear hsorted

theorem ordered_of_run (h : Run (ageNext svc timeout) (TailWritten svc) ActiveSt.init s) :
    Aged.Ordered s.clock s.peers := by
  refine Run.inv (I := fun s => Aged.Ordered s.clock s.peers) (.nil 0) ?_ h
  intro s s' a hinv hok hs
  cases hs
  exact ordered_step hinv hok.1

theorem timeout_touches_le {now : Int} {check : List CheckTouch}
    (hok : (AgeAct.timeout now check).Clocked svc s) :
    ∀ x ∈ (AgeAct.timeout now check).touches svc, hbtime x.time = x.time ∧ now ≤ x.time := by
  intro x hx
  have htime : x.time ∈ ((AgeAct.timeout now check).touches svc).map Touch.time :=
    mem_map_of_mem hx
  obtain ⟨-, hrest⟩ := pairwise_cons.mp hok.1
  exact ⟨hbtime_eq (hok.2 _ (mem_cons_of_mem _ htime)), (pairwise_cons.mp hrest).1 _ htime⟩

/-- **The early exit misses nobody**: `activelist` is in the order of `hbtime` when `svc_timeout` is
    called, and after it no connection is as old as ten times the timeout. -/
theorem scan_misses_none (svc : Svc) {timeout : Nat} (htimeout : 0 < timeout) {s : ActiveSt}
    (h : Run (ageNext svc timeout) (TailWritten svc) ActiveSt.init s) {now : Int}
    {check : List CheckTouch} (hok : TailWritten svc s (.timeout now check)) :
    s.peers.Pairwise (fun p q => p.stamp ≤ q.stamp) ∧
      ∀ p ∈ (ageStep svc timeout s (.timeout now check)).peers, ¬ 10 * timeout ≤ now - p.stamp := by
  obtain ⟨hclock, hplaced⟩ := hok
  have hsorted := (ordered_of_run h).stamps hplaced
  refine ⟨hsorted, fun p hp => ?_⟩
  rcases stamp_touchAll hp with ⟨q, hq, he⟩ | ⟨x, hx, he⟩
  · have hyoung := dropWhile_none hsorted (fun a b hab ha => ?_) q hq
    · rw [Bool.not_eq_false', decide_eq_true_eq] at hyoung
      omega
    · rw [Bool.not_eq_false', decide_eq_true_eq] at ha ⊢
      omega
  · obtain ⟨hfits, hle⟩ := timeout_touches_le hclock x hx
    omega

/-- A connection that receives and then sends a part, and a silent one. -/
def tailRun : List AgeAct :=
  [.initconn 0 1, .initconn 1 2, .recv 0 40 (.again 41), .sent 0 (some 42) none]

theorem scan_misses_none_two : ∃ s : ActiveSt, s.peers.map Aged.id = [1, 0] ∧ ∀ svc : Svc,
    (ageStep svc 3 s (.timeout 45 [])).peers.map Aged.id = [0] ∧
    s.peers.Pairwise (fun p q => p.stamp ≤ q.stamp) ∧
      ∀ p ∈ (ageStep svc 3 s (.timeout 45 [])).peers, ¬ 10 * (3 : Nat) ≤ 45 - p.stamp := by
  have hrun (svc : Svc) : Run (ageNext svc 3) (TailWritten svc) ActiveSt.init
      ⟨[⟨1, 2, 2, 2⟩, ⟨0, 42, 42, 1⟩], 42⟩ := by
    refine run_of_exec tailRun .start ?_ ?_
    · cases svc <;> decide
    · cases svc <;> rfl
  refine ⟨_, rfl, fun svc => ⟨?_, scan_misses_none svc (by decide) (hrun svc) ?_⟩⟩
  · cases svc <;> decide
  · cases svc <;> decide

/-- Two connections, and a slow transfer on the first of them. -/
def slowTransfer : List AgeAct := [.initconn 0 0, .initconn 1 0, .sent 0 (some 1000) none]

/-- **A partial send hides the others**: it writes `hbtime` at the front of the list, and the scan
    stops there. -/
theorem scan_misses_one : ∃ s : ActiveSt, ∀ svc : Svc,
    Run (ageNext svc 3) (fun s a => a.Clocked svc s) ActiveSt.init s ∧
    (AgeAct.timeout 1000 []).Clocked svc s ∧
    ¬ s.peers.Pairwise (fun p q => p.stamp ≤ q.stamp) ∧
    ∃ p ∈ (ageStep svc 3 s (.timeout 1000 [])).peers, 10 * (3 : Nat) ≤ 1000 - p.stamp := by
  have hrun (svc : Svc) : Run (ageNext svc 3) (fun s a => a.Clocked svc s) ActiveSt.init
      ⟨[⟨0, 1000, 0, 0⟩, ⟨1, 0, 0, 0⟩], 1000⟩ := by
    refine run_of_exec slowTransfer .start ?_ ?_
    · cases svc <;> decide
    · cases svc <;> rfl
  refine ⟨_, fun svc => ⟨hrun svc, ?_, by decide, ⟨1, 0, 0, 0⟩, ?_, by decide⟩⟩
  · cases svc <;> decide
  · cases svc <;> decide

end Age

end Pfs
