/-
  The timers of the main thread (network/pfs_timer.c).

  A pool of 1024 nodes hangs in the list `delay_home`. `add_to_delay_task` takes its first node, or
  allocates one, fills it and puts it at the front of `delay_active`; `scan_delay_task` goes through
  `delay_active`, calls what is due, and moves the nodes of timers that are done back to
  `delay_home` while it goes. The links are those of `Lib.Ring`; the macro of the loop reads the
  next node before the body and the one behind it after the body.

  Main results: `shows_run`, `timers_fire_when_due`.
-/
import Pfs.Lib.CInt
import Pfs.Lib.Ring

namespace Pfs

open Lib Function List

variable {β : Type}

/-! ## 1. Nodes and calls -/

/-- What a link can point to: the two headers and the nodes. -/
inductive Cell where
  | home
  | active
  | node (i : Nat)
  deriving DecidableEq

/-- `t_pfs_timer`; a callback with its argument is a `β`. The number counts the timers that were
    added before; the source has no such field, and nothing reads it. -/
structure Timer (β : Type) where
  cb : Option β
  nextTime : Int
  spanTime : Int
  loop : Int
  serial : Nat

/-- A call of a timer's callback, in the scan with this number. -/
structure Called (β : Type) where
  serial : Nat
  cb : Option β
  scan : Nat

/-- The memory of the timers: the nodes are `node 0 .. node (top - 1)`. The calls that were made and
    the numbers of timers and scans are kept for the statements. -/
structure DelayState (β : Type) where
  mem : Links Cell
  node : Cell → Timer β
  top : Nat
  serial : Nat
  scans : Nat
  calls : List (Called β)

/-- `default_max`. -/
def DEFAULT_MAX : Nat := 1024

/-- The loop of `delay_task_init`. -/
def poolLoop (m : Links Cell) (n : Nat) : Links Cell :=
  (List.range n).foldl (fun m i => (m.initHead (.node i)).addHead (.node i) .home) m

/-- `delay_task_init`, whatever the memory held. -/
def delayTaskInit (m : Links Cell) : DelayState β where
  mem := poolLoop ((m.initHead .home).initHead .active) DEFAULT_MAX
  node := fun _ => ⟨none, 0, 0, 0, 0⟩
  top := DEFAULT_MAX
  serial := 0
  scans := 0
  calls := []

namespace DelayState

/-- The node `pos` is filled and put at the front of `delay_active`. -/
def fill (s : DelayState β) (pos : Cell) (cb : Option β) (span loop cur : Int) : DelayState β :=
  { s with
    mem := (s.mem.initHead pos).addHead pos .active
    node := update s.node pos ⟨cb, toInt64 (cur + span), span, loop, s.serial⟩
    serial := s.serial + 1 }

/-- `add_to_delay_task` at the time `cur`; `memory` is whether `malloc` succeeds. -/
def addToDelayTask (s : DelayState β) (cb : Option β) (span loop cur : Int) (memory : Bool) :
    Int × DelayState β :=
  let first := s.mem.next .home
  if first ≠ .home then (0, fill { s with mem := s.mem.delInit first } first cb span loop cur)
  else if memory then (0, fill { s with top := s.top + 1 } (.node s.top) cb span loop cur)
  else (-1, s)

/-- The body of the loop of `scan_delay_task`. -/
def turn (cur : Int) (s : DelayState β) (pos : Cell) : DelayState β :=
  let timer := s.node pos
  if cur > timer.nextTime then
    let s : DelayState β := { s with calls := s.calls ++ [⟨timer.serial, timer.cb, s.scans⟩] }
    if timer.loop ≠ 0 then
      { s with
        node := update s.node pos { timer with nextTime := toInt64 (cur + timer.spanTime) } }
    else { s with mem := (s.mem.delInit pos).addHead pos .home }
  else s

/-- At most `k` turns of the loop, from the node `pos` with `n` read as the one behind it: the state
    and the node the loop is at. -/
def scanTurns (cur : Int) : Nat → DelayState β → Cell → Cell → DelayState β × Cell
  | 0, s, pos, _ => (s, pos)
  | k + 1, s, pos, n =>
    if pos = .active then (s, pos)
    else
      let s' := s.turn cur pos
      scanTurns cur k s' n (s'.mem.next n)

/-- The loop of a scan after at most `k` turns. -/
def scanning (s : DelayState β) (cur : Int) (k : Nat) : DelayState β × Cell :=
  scanTurns cur k s (s.mem.next .active) (s.mem.next (s.mem.next .active))

/-- `scan_delay_task` at the time `cur`: there is a turn for each node at most. -/
def scanDelayTask (s : DelayState β) (cur : Int) : DelayState β :=
  let r := (s.scanning cur (s.top + 1)).1
  { r with scans := r.scans + 1 }

end DelayState

/-- A call of `add_to_delay_task` or of `scan_delay_task`. -/
inductive DelayEvent (β : Type) where
  | add (cb : Option β) (span loop cur : Int) (memory : Bool)
  | scan (cur : Int)

def delayStep (s : DelayState β) : DelayEvent β → DelayState β
  | .add cb span loop cur memory => (s.addToDelayTask cb span loop cur memory).2
  | .scan cur => s.scanDelayTask cur

/-! ## 2. The two lists -/

/-- The lists hold `home` and `active`, they share nothing, and between them they hold the nodes. -/
structure Lists (s : DelayState β) (home active : List Cell) : Prop where
  rings : Apart s.mem .home home .active active
  nodes : ∀ c, c ∈ home ∨ c ∈ active ↔ ∃ i < s.top, c = .node i

section Lists

variable {s : DelayState β} {home active kept rest : List Cell} {x : Cell} {cur : Int}

theorem Lists.fresh (h : Lists s home active) : Cell.node s.top ∉ Cell.home :: home ∧
    Cell.node s.top ∉ Cell.active :: active := by
  have hnone : ¬ (Cell.node s.top ∈ home ∨ Cell.node s.top ∈ active) := by
    intro hm
    obtain ⟨i, hi, he⟩ := (h.nodes _).mp hm
    cases he
    exact Nat.lt_irrefl _ hi
  refine ⟨fun hm => ?_, fun hm => ?_⟩
  · rcases mem_cons.mp hm with he | hm
    · cases he
    · exact hnone (.inl hm)
  · rcases mem_cons.mp hm with he | hm
    · cases he
    · exact hnone (.inr hm)

theorem Lists.exactly_one (h : Lists s home active) {i : Nat} (hi : i < s.top) :
    (Cell.node i ∈ home ∧ Cell.node i ∉ active) ∨ (Cell.node i ∈ active ∧ Cell.node i ∉ home) := by
  have hd (hh : Cell.node i ∈ home) (ha : Cell.node i ∈ active) : False :=
    h.rings.disjoint _ (mem_cons_of_mem _ hh) (mem_cons_of_mem _ ha)
  rcases (h.nodes _).mpr ⟨i, hi, rfl⟩ with hm | hm
  · exact .inl ⟨hm, hd hm⟩
  · exact .inr ⟨hm, fun hh => hd hh hm⟩

theorem Lists.length_le (h : Lists s home active) : active.length ≤ s.top := by
  have hsub : active ⊆ (List.range s.top).map Cell.node := by
    intro c hc
    obtain ⟨i, hi, rfl⟩ := (h.nodes c).mp (.inr hc)
    exact mem_map_of_mem (mem_range.mpr hi)
  have hle := (nodup_cons.mp h.rings.right.nodup).2.length_le_of_subset hsub
  rwa [length_map, length_range] at hle

/-! ## 3. One turn -/

namespace Timer

def due (cur : Int) (t : Timer β) : Bool := decide (t.nextTime < cur)

/-- The timer is in `delay_active` after the turn. -/
def stays (cur : Int) (t : Timer β) : Bool := !t.due cur || t.loop != 0

def settle (cur : Int) (t : Timer β) : Timer β :=
  if t.due cur && t.loop != 0 then { t with nextTime := toInt64 (cur + t.spanTime) } else t

def called (scan : Nat) (t : Timer β) : Called β := ⟨t.serial, t.cb, scan⟩

end Timer

theorem turn_cases (cur : Int) (s : DelayState β) (x : Cell) :
    (s.turn cur x).node = update s.node x ((s.node x).settle cur) ∧
      (s.turn cur x).calls =
        s.calls ++ (if (s.node x).due cur then [(s.node x).called s.scans] else []) ∧
      (s.turn cur x).mem =
        (if (s.node x).stays cur then s.mem else (s.mem.delInit x).addHead x .home) ∧
      (s.turn cur x).top = s.top ∧ (s.turn cur x).serial = s.serial ∧
      (s.turn cur x).scans = s.scans := by
  unfold DelayState.turn Timer.settle Timer.stays Timer.due Timer.called
  by_cases hd : (s.node x).nextTime < cur
  · by_cases hl : (s.node x).loop = 0
    · simp [hd, hl]
    · simp [hd, hl]
  · simp [hd]

/-- A turn at a node of `delay_active` keeps the lists: the node stays where it is, or it is the
    first free one. -/
theorem Lists.turn (h : Lists s home (kept ++ x :: rest)) (cur : Int) :
    Lists (s.turn cur x) (if (s.node x).stays cur then home else x :: home)
      (if (s.node x).stays cur then kept ++ x :: rest else kept ++ rest) := by
  obtain ⟨-, -, hmem, htop, -, -⟩ := turn_cases cur s x
  by_cases hs : (s.node x).stays cur = true
  · simp only [hs, if_true] at hmem ⊢
    exact ⟨hmem ▸ h.rings, htop ▸ h.nodes⟩
  simp only [hs, Bool.false_eq_true, if_false] at hmem ⊢
  obtain ⟨htake, hx, hx'⟩ := h.rings.symm.take
  refine ⟨?_, fun c => ?_⟩
  · rw [hmem]
    exact htake.symm.put hx' hx
  · rw [htop, ← h.nodes c]
    simp only [mem_cons, mem_append]
    tauto

end Lists

/-! ## 4. The loop -/

section Loop

variable {s : DelayState β} {home active kept rest l : List Cell} {x c : Cell} {cur : Int}

theorem turn_node_ne (h : c ≠ x) : (s.turn cur x).node c = s.node c := by
  rw [(turn_cases cur s x).1, update_of_ne h]

theorem map_turn_node (h : x ∉ l) : l.map (s.turn cur x).node = l.map s.node :=
  map_congr_left fun _ hc => turn_node_ne fun e => h (e ▸ hc)

theorem foldl_counts (cur : Int) (l : List Cell) (s : DelayState β) :
    (l.foldl (DelayState.turn cur) s).top = s.top ∧ (l.foldl (DelayState.turn cur) s).serial =
      s.serial ∧
      (l.foldl (DelayState.turn cur) s).scans = s.scans := by
  induction l generalizing s with
  | nil => exact ⟨rfl, rfl, rfl⟩
  | cons x l ih =>
    obtain ⟨-, -, -, htop, hserial, hscans⟩ := turn_cases cur s x
    obtain ⟨h1, h2, h3⟩ := ih (s.turn cur x)
    exact ⟨h1.trans htop, h2.trans hserial, h3.trans hscans⟩

theorem foldl_node (hnd : l.Nodup) (s : DelayState β) (c : Cell) :
    (l.foldl (DelayState.turn cur) s).node c = if c ∈ l then
      (s.node c).settle cur else s.node c := by
  induction l generalizing s with
  | nil => rfl
  | cons x l ih =>
    obtain ⟨hx, hl⟩ := nodup_cons.mp hnd
    rw [foldl_cons, ih hl]
    by_cases hcx : c = x
    · subst hcx
      rw [if_neg hx, if_pos mem_cons_self, (turn_cases cur s c).1, update_self]
    · rw [turn_node_ne hcx]
      simp only [mem_cons, hcx, false_or]

theorem foldl_calls (hnd : l.Nodup) (s : DelayState β) :
    (l.foldl (DelayState.turn cur) s).calls =
      s.calls ++ ((l.map s.node).filter (Timer.due cur)).map (Timer.called s.scans) := by
  induction l generalizing s with
  | nil => exact (append_nil _).symm
  | cons x l ih =>
    obtain ⟨hx, hl⟩ := nodup_cons.mp hnd
    obtain ⟨-, hcalls, -, -, -, hscans⟩ := turn_cases cur s x
    rw [foldl_cons, ih hl, hcalls, hscans, map_turn_node hx, append_assoc, map_cons, filter_cons]
    split <;> rfl

theorem Lists.foldl (h : Lists s home (kept ++ (l ++ rest))) :
    Lists (l.foldl (DelayState.turn cur) s)
      ((l.filter fun c => !(s.node c).stays cur).reverse ++ home)
      (kept ++ ((l.filter fun c => (s.node c).stays cur) ++ rest)) := by
  induction l generalizing s home kept with
  | nil => exact h
  | cons x l ih =>
    have hxl : x ∉ l := by
      have hnd := (nodup_cons.mp h.rings.right.nodup).2
      have hnd' := (nodup_append.mp hnd).2.1
      exact fun hm => (nodup_cons.mp hnd').1 (mem_append_left _ hm)
    have hsame : ∀ c ∈ l, (s.turn cur x).node c = s.node c := fun c hc =>
      turn_node_ne fun e => hxl (e ▸ hc)
    have hstay : (l.filter fun c => ((s.turn cur x).node c).stays cur) =
        l.filter fun c => (s.node c).stays cur :=
      filter_congr fun c hc => by rw [hsame c hc]
    have hleave : (l.filter fun c => !((s.turn cur x).node c).stays cur) =
        l.filter fun c => !(s.node c).stays cur :=
      filter_congr fun c hc => by rw [hsame c hc]
    have hturn := h.turn cur
    by_cases hs : (s.node x).stays cur = true
    · simp only [hs, if_true] at hturn
      have hnext := @ih (s.turn cur x) home (kept ++ [x]) (by simpa using hturn)
      rw [hstay, hleave] at hnext
      simpa [filter_cons, hs] using hnext
    · simp only [hs, Bool.false_eq_true, if_false] at hturn
      have hnext := ih hturn
      rw [hstay, hleave] at hnext
      simpa [filter_cons, hs] using hnext

/-- **The loop makes one turn for each node that was in the list.** The node it goes to next was
    read before the turn, and is still the one behind in the list that remains. -/
theorem scanTurns_eq (k : Nat) : ∀ {s : DelayState β} {home kept rest : List Cell},
    Lists s home (kept ++ rest) →
      DelayState.scanTurns cur k s (rest.headD .active) (s.mem.next (rest.headD .active)) =
        ((rest.take k).foldl (DelayState.turn cur) s, (rest.drop k).headD .active) := by
  induction k with
  | zero => exact fun _ => rfl
  | succ k ih =>
    intro s home kept rest h
    cases rest with
    | nil => rfl
    | cons x rest =>
      have hx : x ≠ .active := by
        have hnd := (nodup_cons.mp h.rings.right.nodup).1
        exact fun e => hnd (e ▸ mem_append_right _ mem_cons_self)
      have hnext : s.mem.next x = rest.headD .active := h.rings.right.next_member
      have hturn := h.turn cur
      rw [headD_cons, DelayState.scanTurns, if_neg hx, hnext]
      by_cases hs : (s.node x).stays cur = true
      · simp only [hs, if_true] at hturn
        exact @ih (s.turn cur x) home (kept ++ [x]) rest (by simpa using hturn)
      · simp only [hs, Bool.false_eq_true, if_false] at hturn
        exact ih hturn

theorem Lists.scanning (h : Lists s home active) (cur : Int) (k : Nat) :
    s.scanning cur k =
      ((active.take k).foldl (DelayState.turn cur) s, (active.drop k).headD .active) := by
  have hfirst : s.mem.next .active = active.headD .active := h.rings.right.next_header
  unfold DelayState.scanning
  rw [hfirst]
  exact @scanTurns_eq β cur k s home [] active h

theorem Lists.scanning_lists (h : Lists s home active) (cur : Int) (k : Nat) :
    ∃ home' active', Lists (s.scanning cur k).1 home' active' := by
  rw [h.scanning cur k]
  have hsplit : Lists s home ([] ++ (active.take k ++ active.drop k)) := by
    rw [nil_append, take_append_drop]
    exact h
  exact ⟨_, _, hsplit.foldl⟩

theorem Lists.scanning_all (h : Lists s home active) (cur : Int) :
    s.scanning cur (s.top + 1) = (active.foldl (DelayState.turn cur) s, .active) := by
  have hle := h.length_le
  rw [h.scanning cur, take_of_length_le (by omega), drop_eq_nil_of_le (by omega)]
  rfl

end Loop

/-! ## 5. The timers as a list -/

/-- The timers in the order of `delay_active`, and how many nodes are free. -/
structure Pending (β : Type) where
  timers : List (Timer β)
  free : Nat
  serial : Nat
  scans : Nat
  calls : List (Called β)

def Pending.start : Pending β := ⟨[], DEFAULT_MAX, 0, 0, []⟩

/-- The timer that `add_to_delay_task` stores. -/
def newTimer (cb : Option β) (span loop cur : Int) (serial : Nat) : Timer β :=
  ⟨cb, toInt64 (cur + span), span, loop, serial⟩

/-- The new timer is the first, unless there is neither a free node nor memory for one. -/
def Pending.add (v : Pending β) (cb : Option β) (span loop cur : Int) (memory : Bool) : Pending β :=
  if v.free = 0 ∧ memory = false then v
  else
    { v with
      timers := newTimer cb span loop cur v.serial :: v.timers
      free := v.free - 1
      serial := v.serial + 1 }

/-- All timers that are due are called; those that loop wait for their span, the others go. -/
def Pending.scan (v : Pending β) (cur : Int) : Pending β :=
  { v with
    timers := (v.timers.filter (Timer.stays cur)).map (Timer.settle cur)
    free := v.free + (v.timers.filter fun t => !t.stays cur).length
    scans := v.scans + 1
    calls := v.calls ++ (v.timers.filter (Timer.due cur)).map (Timer.called v.scans) }

def pendingStep (v : Pending β) : DelayEvent β → Pending β
  | .add cb span loop cur memory => v.add cb span loop cur memory
  | .scan cur => v.scan cur

/-- The memory holds the timers `v`, in the lists `home` and `active`. -/
structure ShowsIn (s : DelayState β) (v : Pending β) (home active : List Cell) : Prop where
  lists : Lists s home active
  timers : v.timers = active.map s.node
  free : v.free = home.length
  serial : v.serial = s.serial
  scans : v.scans = s.scans
  calls : v.calls = s.calls

def Shows (s : DelayState β) (v : Pending β) : Prop := ∃ home active, ShowsIn s v home active

section Shows

variable {s : DelayState β} {v : Pending β} {home active : List Cell} {x : Cell}

theorem poolLoop_apart {m : Links Cell} (h : Apart m .home [] .active []) (n : Nat) :
    Apart (poolLoop m n) .home ((List.range n).reverse.map Cell.node) .active [] := by
  induction n with
  | zero => exact h
  | succ n ih =>
    have hloop : poolLoop m (n + 1) =
        ((poolLoop m n).initHead (.node n)).addHead (.node n) .home := by
      rw [poolLoop, range_succ, foldl_append]
      rfl
    have hnew : Cell.node n ∉ Cell.home :: (List.range n).reverse.map Cell.node := by
      simp
    have hnew' : Cell.node n ∉ [Cell.active] := by
      simp
    rw [hloop, range_succ, reverse_append]
    exact (ih.initHead hnew hnew').put hnew hnew'

theorem lists_init (m : Links Cell) :
    Lists (delayTaskInit m : DelayState β) ((List.range DEFAULT_MAX).reverse.map Cell.node) [] := by
  have hrings : Apart ((m.initHead .home).initHead .active) .home [] .active [] :=
    ⟨(Ring.init m .home).initHead (by simp), Ring.init _ Cell.active, by simp⟩
  have hpool := poolLoop_apart hrings DEFAULT_MAX
  unfold delayTaskInit
  generalize DEFAULT_MAX = n at hpool ⊢
  refine ⟨hpool, fun c => ⟨?_, ?_⟩⟩
  · rintro (hc | hc)
    · obtain ⟨i, hi, rfl⟩ := mem_map.mp hc
      exact ⟨i, mem_range.mp (mem_reverse.mp hi), rfl⟩
    · cases hc
  · rintro ⟨i, hi, rfl⟩
    exact .inl (mem_map_of_mem (mem_reverse.mpr (mem_range.mpr hi)))

theorem shows_init (m : Links Cell) : Shows (delayTaskInit m : DelayState β) Pending.start := by
  refine ⟨_, _, ShowsIn.mk (lists_init m) rfl ?_ rfl rfl rfl⟩
  rw [length_map, length_reverse, length_range]
  rfl

theorem shows_fill (hr : Apart s.mem .home home .active active) (hx : x ∉ Cell.home :: home)
    (hx' : x ∉ Cell.active :: active)
    (hnodes : ∀ c, c ∈ home ∨ c ∈ x :: active ↔ ∃ i < s.top, c = .node i)
    (htimers : v.timers = active.map s.node) (hserial : v.serial = s.serial)
    (hscans : v.scans = s.scans)
    (hcalls : v.calls = s.calls) (cb : Option β) (span loop cur : Int) :
    Shows (s.fill x cb span loop cur)
      { v with timers := newTimer cb span loop cur v.serial :: v.timers, free := home.length,
               serial := v.serial + 1 } := by
  have hmap : (x :: active).map (s.fill x cb span loop cur).node =
      newTimer cb span loop cur s.serial :: active.map s.node := by
    refine congrArg₂ List.cons (update_self x _ s.node) (map_congr_left fun c hc => ?_)
    have hne : c ≠ x := fun e => hx' (e ▸ mem_cons_of_mem _ hc)
    exact update_of_ne hne _ _
  refine ⟨home, x :: active, ⟨((hr.initHead hx hx').symm.put hx' hx).symm, hnodes⟩, ?_, rfl, ?_,
    hscans, hcalls⟩
  · rw [hmap, htimers, hserial]
  · exact congrArg (· + 1) hserial

theorem add_cases (hs : ShowsIn s v home active) (cb : Option β) (span loop cur : Int)
    (memory : Bool) : (∃ y home', home = y :: home' ∧ s.addToDelayTask cb span loop cur memory =
        (0, DelayState.fill { s with mem := s.mem.delInit y } y cb span loop cur)) ∨
      (home = [] ∧ memory = true ∧ s.addToDelayTask cb span loop cur memory =
        (0, DelayState.fill { s with top := s.top + 1 } (.node s.top) cb span loop cur)) ∨
      (home = [] ∧ memory = false ∧ s.addToDelayTask cb span loop cur memory = (-1, s)) := by
  have hfirst : s.mem.next .home = home.headD .home := hs.lists.rings.left.next_header
  cases home with
  | nil =>
    have hnil : s.mem.next .home = .home := hfirst
    cases memory with
    | true => exact .inr (.inl ⟨rfl, rfl, by simp [DelayState.addToDelayTask, hnil]⟩)
    | false => exact .inr (.inr ⟨rfl, rfl, by simp [DelayState.addToDelayTask, hnil]⟩)
  | cons y home =>
    have hy : s.mem.next .home = y := hfirst
    have hne : y ≠ .home :=
      fun e => (nodup_cons.mp hs.lists.rings.left.nodup).1 (e ▸ mem_cons_self)
    exact .inl ⟨y, home, rfl, by simp [DelayState.addToDelayTask, hy, hne]⟩

theorem shows_add (h : Shows s v) (cb : Option β) (span loop cur : Int) (memory : Bool) :
    Shows (s.addToDelayTask cb span loop cur memory).2 (v.add cb span loop cur memory) := by
  obtain ⟨home, active, hs⟩ := h
  have hfree := hs.free
  unfold Pending.add
  rcases add_cases hs cb span loop cur memory with
    ⟨y, home', rfl, hadd⟩ | ⟨rfl, rfl, hadd⟩ | ⟨rfl, rfl, hadd⟩
  · obtain ⟨htake, hy, hy'⟩ := @Apart.take _ _ _ _ y active _ [] home' hs.lists.rings
    have hnodes : ∀ c, c ∈ home' ∨ c ∈ y :: active ↔ ∃ i < s.top, c = .node i := by
      intro c
      rw [← hs.lists.nodes c]
      simp only [mem_cons]
      tauto
    rw [hadd, if_neg (by rw [hfree]; simp), hfree]
    exact @shows_fill β { s with mem := s.mem.delInit y } v home' active y htake hy hy' hnodes
      hs.timers
      hs.serial hs.scans hs.calls cb span loop cur
  · obtain ⟨hnew, hnew'⟩ := hs.lists.fresh
    have hnodes : ∀ c, c ∈ [] ∨ c ∈ Cell.node s.top :: active ↔ ∃ i < s.top + 1, c = .node i := by
      intro c
      have hold := hs.lists.nodes c
      simp only [not_mem_nil, false_or, mem_cons] at hold ⊢
      rw [hold]
      constructor
      · rintro (rfl | ⟨i, hi, rfl⟩)
        · exact ⟨s.top, Nat.lt_succ_self _, rfl⟩
        · exact ⟨i, Nat.lt_succ_of_lt hi, rfl⟩
      · rintro ⟨i, hi, rfl⟩
        rcases Nat.lt_succ_iff_lt_or_eq.mp hi with hi | rfl
        · exact .inr ⟨i, hi, rfl⟩
        · exact .inl rfl
    rw [hadd, if_neg (by simp), hfree]
    exact @shows_fill β { s with top := s.top + 1 } v [] active _ hs.lists.rings hnew hnew' hnodes
      hs.timers
      hs.serial hs.scans hs.calls cb span loop cur
  · rw [hadd, if_pos ⟨hfree, rfl⟩]
    exact ⟨[], active, hs⟩

theorem shows_scan (h : Shows s v) (cur : Int) :
    Shows (s.scanDelayTask cur) (v.scan cur) := by
  obtain ⟨home, active, hs⟩ := h
  have hnd : active.Nodup := (nodup_cons.mp hs.lists.rings.right.nodup).2
  obtain ⟨htop, hserial, hscans⟩ := foldl_counts cur active s
  have hlists : Lists (active.foldl (DelayState.turn cur) s) _ _ :=
    @Lists.foldl β s home [] [] active cur (by simpa using hs.lists)
  have hstate : s.scanDelayTask cur =
      { active.foldl (DelayState.turn cur) s with
        scans := (active.foldl (DelayState.turn cur) s).scans + 1 } := by
    unfold DelayState.scanDelayTask
    rw [hs.lists.scanning_all cur]
  rw [hstate]
  refine ⟨_, _, ⟨hlists.rings, hlists.nodes⟩, ?_, ?_, ?_, ?_, ?_⟩
  · -- what stays has been settled, and the other nodes do not count any more
    show (v.timers.filter (Timer.stays cur)).map (Timer.settle cur) = _
    rw [hs.timers, filter_map, map_map, nil_append, append_nil]
    refine map_congr_left fun c hc => ?_
    rw [foldl_node hnd, if_pos (mem_of_mem_filter hc), Function.comp_apply]
  · show v.free + (v.timers.filter fun t => !t.stays cur).length = _
    rw [hs.free, hs.timers, filter_map, length_map, length_append, length_reverse, Nat.add_comm]
    rfl
  · exact hs.serial.trans hserial.symm
  · show v.scans + 1 = _ + 1
    rw [hscans, hs.scans]
  · show v.calls ++ _ = _
    rw [foldl_calls hnd, hs.calls, hs.timers, hs.scans]

/-- **Every history of calls follows the list of timers.** -/
theorem shows_run (es : List (DelayEvent β)) (h : Shows s v) :
    Shows (es.foldl delayStep s) (es.foldl pendingStep v) := by
  induction es generalizing s v with
  | nil => exact h
  | cons e es ih =>
    cases e with
    | add cb span loop cur memory => exact ih (shows_add h cb span loop cur memory)
    | scan cur => exact ih (shows_scan h cur)

end Shows

/-! ## 6. One timer in a history -/

/-- The scans of a history with their times, numbered from `n` on. -/
def scansOf (n : Nat) : List (DelayEvent β) → List (Nat × Int)
  | [] => []
  | .add _ _ _ _ _ :: es => scansOf n es
  | .scan cur :: es => (n, cur) :: scansOf (n + 1) es

/-- The scans a timer is called in: each that is later than its `next_time`, which a timer that
    loops then sets anew, while any other is done. -/
def firings (loop : Bool) (span : Int) : Int → List (Nat × Int) → List Nat
  | _, [] => []
  | next, (n, cur) :: cs =>
    if next < cur then n :: (if loop then firings loop span (toInt64 (cur + span)) cs else [])
    else firings loop span next cs

theorem firings_once (span next : Int) (cs : List (Nat × Int)) :
    firings false span next cs = ((cs.find? fun p => decide (next < p.2)).map Prod.fst).toList := by
  induction cs with
  | nil => rfl
  | cons p cs ih =>
    by_cases h : next < p.2
    · simp [firings, h]
    · simp [firings, h, ih]

def callsOf (k : Nat) (calls : List (Called β)) : List (Called β) :=
  calls.filter fun c => c.serial == k

/-- The numbers tell the timers apart. -/
structure Numbered (v : Pending β) : Prop where
  nodup : (v.timers.map Timer.serial).Nodup
  timers_lt : ∀ t ∈ v.timers, t.serial < v.serial
  calls_lt : ∀ c ∈ v.calls, c.serial < v.serial

section History

variable {v : Pending β} {t : Timer β} {cur : Int} {k : Nat}

theorem settle_serial (cur : Int) (t : Timer β) : (t.settle cur).serial = t.serial := by
  unfold Timer.settle
  split <;> rfl

theorem add_eq (v : Pending β) (cb : Option β) (span loop cur : Int) (memory : Bool) :
    v.add cb span loop cur memory = v ∨ v.add cb span loop cur memory =
      { v with timers := newTimer cb span loop cur v.serial :: v.timers, free := v.free - 1,
               serial := v.serial + 1 } :=
  ite_eq_or_eq ..

theorem numbered_add (h : Numbered v) (cb : Option β) (span loop cur : Int) (memory : Bool) :
    Numbered (v.add cb span loop cur memory) := by
  rcases add_eq v cb span loop cur memory with he | he <;> rw [he]
  · exact h
  refine ⟨nodup_cons.mpr ⟨fun hm => ?_, h.nodup⟩, forall_mem_cons.mpr ⟨Nat.lt_succ_self _, ?_⟩, ?_⟩
  · obtain ⟨t, ht, he⟩ := mem_map.mp hm
    exact Nat.ne_of_lt (h.timers_lt t ht) he
  · exact fun t ht => Nat.lt_succ_of_lt (h.timers_lt t ht)
  · exact fun c hc => Nat.lt_succ_of_lt (h.calls_lt c hc)

theorem mem_scan_timers : t ∈ (v.scan cur).timers ↔
    ∃ u ∈ v.timers, u.stays cur = true ∧ u.settle cur = t := by
  simp only [Pending.scan, mem_map, mem_filter, and_assoc]

theorem numbered_scan (h : Numbered v) (cur : Int) : Numbered (v.scan cur) := by
  refine ⟨?_, fun t ht => ?_, fun c hc => ?_⟩
  · have hserial : (v.scan cur).timers.map Timer.serial =
        (v.timers.filter (Timer.stays cur)).map Timer.serial := by
      rw [Pending.scan, map_map]
      exact map_congr_left fun t _ => settle_serial cur t
    rw [hserial]
    exact h.nodup.sublist ((filter_sublist).map _)
  · obtain ⟨u, hu, -, rfl⟩ := mem_scan_timers.mp ht
    rw [settle_serial]
    exact h.timers_lt u hu
  · rcases mem_append.mp hc with hc | hc
    · exact h.calls_lt c hc
    · obtain ⟨u, hu, rfl⟩ := mem_map.mp hc
      exact h.timers_lt u (mem_of_mem_filter hu)

theorem gone (es : List (DelayEvent β)) : ∀ {v : Pending β}, (∀ t ∈ v.timers, t.serial ≠ k) →
    k < v.serial → callsOf k (es.foldl pendingStep v).calls = callsOf k v.calls := by
  induction es with
  | nil => exact fun _ _ => rfl
  | cons e es ih =>
    intro v hno hk
    cases e with
    | add cb span loop cur memory =>
      rw [foldl_cons, pendingStep]
      rcases add_eq v cb span loop cur memory with he | he <;> rw [he]
      · exact ih hno hk
      · exact ih (forall_mem_cons.mpr ⟨(Nat.ne_of_lt hk).symm, hno⟩) (Nat.lt_succ_of_lt hk)
    | scan cur =>
      have hscan : ∀ t ∈ (v.scan cur).timers, t.serial ≠ k := by
        intro t ht
        obtain ⟨u, hu, -, rfl⟩ := mem_scan_timers.mp ht
        rw [settle_serial]
        exact hno u hu
      have hcalls : callsOf k (v.scan cur).calls = callsOf k v.calls := by
        have hnone : callsOf k ((v.timers.filter (Timer.due cur)).map (Timer.called v.scans)) =
            [] := by
          rw [callsOf, filter_eq_nil_iff]
          intro c hc
          obtain ⟨u, hu, rfl⟩ := mem_map.mp hc
          simpa [Timer.called] using hno u (mem_of_mem_filter hu)
        rw [Pending.scan, callsOf, filter_append]
        exact (congrArg (_ ++ ·) hnone).trans (append_nil _)
      exact (ih hscan hk).trans hcalls

theorem filter_serial {ts : List (Timer β)} (hnd : (ts.map Timer.serial).Nodup) (ht : t ∈ ts)
    (p : Timer β → Bool) :
    (ts.filter p).filter (fun u => u.serial == t.serial) = if p t then [t] else [] := by
  induction ts with
  | nil => cases ht
  | cons u ts ih =>
    obtain ⟨hu, hnd⟩ := nodup_cons.mp hnd
    rw [filter_filter, filter_cons, ← filter_filter]
    rcases mem_cons.mp ht with rfl | ht
    · have hrest : (ts.filter p).filter (fun u => u.serial == t.serial) = [] := by
        rw [filter_eq_nil_iff]
        intro w hw he
        exact hu (mem_map.mpr ⟨w, mem_of_mem_filter hw, by simpa using he⟩)
      rw [hrest]
      simp
    · have hne : (u.serial == t.serial) = false := by
        rw [beq_eq_false_iff_ne]
        exact fun e => hu (e ▸ mem_map_of_mem ht)
      rw [hne, ih hnd ht]
      simp

theorem callsOf_scan (h : Numbered v) (ht : t ∈ v.timers) (cur : Int) :
    callsOf t.serial (v.scan cur).calls =
      callsOf t.serial v.calls ++ if t.due cur then [t.called v.scans] else [] := by
  have hnew : callsOf t.serial ((v.timers.filter (Timer.due cur)).map (Timer.called v.scans)) =
      ((v.timers.filter (Timer.due cur)).filter fun u => u.serial == t.serial).map
        (Timer.called v.scans) := filter_map
  rw [filter_serial h.nodup ht] at hnew
  rw [Pending.scan, callsOf, filter_append]
  refine congrArg (_ ++ ·) (hnew.trans ?_)
  split <;> rfl

/-- **What the rest of a history does with a timer.** -/
theorem follow (es : List (DelayEvent β)) :
    ∀ {v : Pending β} {t : Timer β}, Numbered v → t ∈ v.timers →
    callsOf t.serial (es.foldl pendingStep v).calls = callsOf t.serial v.calls ++
      (firings (t.loop != 0) t.spanTime t.nextTime (scansOf v.scans es)).map
        fun n => ⟨t.serial, t.cb, n⟩ := by
  induction es with
  | nil => exact fun _ _ => (append_nil _).symm
  | cons e es ih =>
    intro v t hv ht
    cases e with
    | add cb span loop cur memory =>
      have hnum := numbered_add hv cb span loop cur memory
      rw [foldl_cons, pendingStep, scansOf]
      rcases add_eq v cb span loop cur memory with he | he <;> rw [he] at hnum ⊢
      · exact ih hnum ht
      · exact ih hnum (mem_cons_of_mem _ ht)
    | scan cur =>
      have hcalls := callsOf_scan hv ht cur
      have hscans : (v.scan cur).scans = v.scans + 1 := rfl
      rw [foldl_cons, scansOf, firings]
      by_cases hdue : t.nextTime < cur
      · rw [if_pos hdue]
        have hd : t.due cur = true := decide_eq_true hdue
        rw [if_pos hd] at hcalls
        by_cases hloop : t.loop = 0
        · -- the timer is done: its node has left the list, and no other timer has its number
          have hno : ∀ u ∈ (v.scan cur).timers, u.serial ≠ t.serial := by
            intro u hu he
            obtain ⟨w, hw, hstays, rfl⟩ := mem_scan_timers.mp hu
            rw [settle_serial] at he
            have hwt : w = t := inj_on_of_nodup_map hv.nodup hw ht he
            rw [hwt, Timer.stays, hd, hloop] at hstays
            cases hstays
          rw [pendingStep, gone es hno (hv.timers_lt t ht), hcalls]
          simp [hloop, Timer.called]
        · have hsettle : t.settle cur = { t with nextTime := toInt64 (cur + t.spanTime) } := by
            simp [Timer.settle, hd, hloop]
          have hmem : t.settle cur ∈ (v.scan cur).timers :=
            mem_scan_timers.mpr ⟨t, ht, by simp [Timer.stays, hloop], rfl⟩
          have hnext := ih (numbered_scan hv cur) hmem
          rw [hsettle, hscans, hcalls] at hnext
          rw [pendingStep, hnext]
          simp [hloop, Timer.called]
      · rw [if_neg hdue]
        have hd : t.due cur = false := decide_eq_false hdue
        have hsettle : t.settle cur = t := by simp [Timer.settle, hd]
        have hmem : t ∈ (v.scan cur).timers :=
          mem_scan_timers.mpr ⟨t, ht, by simp [Timer.stays, hd], hsettle⟩
        have hnext := ih (numbered_scan hv cur) hmem
        rw [hcalls, hd, hscans] at hnext
        rw [pendingStep]
        simpa using hnext

end History

/-! ## 7. All of it -/

def delayRun (m : Links Cell) (es : List (DelayEvent β)) : DelayState β :=
  es.foldl delayStep (delayTaskInit m)

theorem shows_delayRun (m : Links Cell) (es : List (DelayEvent β)) :
    Shows (delayRun m es) (es.foldl pendingStep Pending.start) := shows_run es (shows_init m)

theorem numbered_run (es : List (DelayEvent β)) :
    Numbered (es.foldl pendingStep (Pending.start : Pending β)) := by
  have hstart : Numbered (Pending.start : Pending β) := ⟨nodup_nil, nofun, nofun⟩
  refine foldlRecOn es pendingStep hstart fun v h e _ => ?_
  cases e with
  | add cb span loop cur memory => exact numbered_add h cb span loop cur memory
  | scan cur => exact numbered_scan h cur

theorem add_ok_iff {s : DelayState β} {v : Pending β} {home active : List Cell}
    (hs : ShowsIn s v home active) (cb : Option β) (span loop cur : Int) (memory : Bool) :
    (s.addToDelayTask cb span loop cur memory).1 = 0 ↔ home ≠ [] ∨ memory = true := by
  rcases add_cases hs cb span loop cur memory with
    ⟨y, home', rfl, hadd⟩ | ⟨rfl, rfl, hadd⟩ | ⟨rfl, rfl, hadd⟩ <;> simp [hadd]

theorem calls_of_added {s : DelayState β} {v : Pending β} (h : Shows s v) (hv : Numbered v)
    (cb : Option β) (span loop cur : Int) (memory : Bool) (later : List (DelayEvent β))
    (hret : (s.addToDelayTask cb span loop cur memory).1 = 0) :
    callsOf s.serial (later.foldl delayStep (s.addToDelayTask cb span loop cur memory).2).calls =
      (firings (loop != 0) span (toInt64 (cur + span)) (scansOf s.scans later)).map
        fun n => ⟨s.serial, cb, n⟩ := by
  obtain ⟨home, active, hs⟩ := id h
  have hroom : ¬ (v.free = 0 ∧ memory = false) := by
    rintro ⟨hfree, rfl⟩
    rw [hs.free, length_eq_zero_iff] at hfree
    exact ((add_ok_iff hs cb span loop cur false).mp hret).elim (absurd hfree) Bool.false_ne_true
  have hadd : v.add cb span loop cur memory =
      { v with timers := newTimer cb span loop cur v.serial :: v.timers, free := v.free - 1,
               serial := v.serial + 1 } := if_neg hroom
  have hmem : newTimer cb span loop cur v.serial ∈ (v.add cb span loop cur memory).timers := by
    rw [hadd]
    exact mem_cons_self
  -- nothing has been called under the new number yet
  have hnone : callsOf v.serial (v.add cb span loop cur memory).calls = [] := by
    rw [hadd, callsOf, filter_eq_nil_iff]
    intro c hc he
    exact Nat.ne_of_lt (hv.calls_lt c hc) (by simpa using he)
  obtain ⟨_, _, hend⟩ := shows_run later (shows_add h cb span loop cur memory)
  have hfollow := follow later (numbered_add hv cb span loop cur memory) hmem
  rw [← hend.calls, ← hs.serial, ← hs.scans]
  have hscans : (v.add cb span loop cur memory).scans = v.scans := by rw [hadd]
  rw [hscans] at hfollow
  exact hfollow.trans ((congrArg (· ++ _) hnone).trans (nil_append _))

/-- **Timers fire exactly when due.** After any calls by the main thread:
    every node is in exactly one of the two lists, also between two turns of a scan;
    a scan comes to its end and calls the timers in `delay_active` whose `next_time` has passed,
    each once, and those that loop get their next one;
    a timer is added unless no node is free and there is no memory for one;
    a timer that was added is called as long as the history goes on in exactly the scans that are
    due, which for one that does not loop is the first scan later than its `next_time`. -/
theorem timers_fire_when_due (m : Links Cell) (before : List (DelayEvent β)) :
    (∀ cur k, ∃ home active, Lists ((delayRun m before).scanning cur k).1 home active ∧
      ∀ i < ((delayRun m before).scanning cur k).1.top,
        (Cell.node i ∈ home ∧ Cell.node i ∉ active) ∨ (Cell.node i ∈ active ∧ Cell.node i ∉ home)) ∧
    (∀ cur, ∃ home active, Lists (delayRun m before) home active ∧
      ((delayRun m before).scanning cur ((delayRun m before).top + 1)).2 = .active ∧
      ((delayRun m before).scanDelayTask cur).calls = (delayRun m before).calls ++
        ((active.map (delayRun m before).node).filter (Timer.due cur)).map
          (Timer.called (delayRun m before).scans) ∧
      ∀ c ∈ active, ((delayRun m before).scanDelayTask cur).node c =
        ((delayRun m before).node c).settle cur) ∧
    (∃ home active, Lists (delayRun m before) home active ∧ ∀ cb span loop cur memory,
      ((delayRun m before).addToDelayTask cb span loop cur memory).1 = 0 ↔
        home ≠ [] ∨ memory = true) ∧
    ∀ cb span loop cur memory later,
      ((delayRun m before).addToDelayTask cb span loop cur memory).1 = 0 →
      callsOf (delayRun m before).serial
          (later.foldl delayStep
            ((delayRun m before).addToDelayTask cb span loop cur memory).2).calls =
        (if loop = 0 then
          (((scansOf (delayRun m before).scans later).find? fun p =>
            decide (toInt64 (cur + span) < p.2)).map Prod.fst).toList
        else firings true span (toInt64 (cur + span)) (scansOf (delayRun m before).scans later)).map
          fun n => ⟨(delayRun m before).serial, cb, n⟩ := by
  have hshows := shows_delayRun m before
  have hnumbered := numbered_run before
  generalize delayRun m before = s at hshows ⊢
  obtain ⟨home, active, hs⟩ := id hshows
  have hnd : active.Nodup := (nodup_cons.mp hs.lists.rings.right.nodup).2
  refine ⟨fun cur k => ?_, fun cur => ⟨home, active, hs.lists, ?_, ?_, ?_⟩,
    ⟨home, active, hs.lists, add_ok_iff hs⟩, ?_⟩
  · obtain ⟨home', active', hl⟩ := hs.lists.scanning_lists cur k
    exact ⟨home', active', hl, fun i hi => hl.exactly_one hi⟩
  · rw [hs.lists.scanning_all]
  · unfold DelayState.scanDelayTask
    rw [hs.lists.scanning_all]
    exact foldl_calls hnd s
  · intro c hc
    unfold DelayState.scanDelayTask
    rw [hs.lists.scanning_all]
    exact (foldl_node hnd s c).trans (if_pos hc)
  · intro cb span loop cur memory later hret
    rw [calls_of_added hshows hnumbered cb span loop cur memory later hret]
    by_cases hloop : loop = 0
    · rw [if_pos hloop, hloop, ← firings_once span]
      rfl
    · have hne : (loop != 0) = true := by simpa using hloop
      rw [if_neg hloop, hne]

/-- Later calls: a second timer, and scans at 10, 11, 16 and 22. -/
def laterCalls : List (DelayEvent Nat) :=
  [.add (some 2) 5 1 10 true, .scan 10, .scan 11, .scan 16, .scan 22]

/-- Added at the time 0, a timer for ten seconds is called in the scan at 11, and one for five
    seconds that loops in the scans at 10, 16 and 22. -/
theorem timers_fire_laterCalls :
    callsOf 0 (laterCalls.foldl delayStep
        ((delayRun ⟨id, id⟩ []).addToDelayTask (some 1) 10 0 0 true).2).calls = [⟨0, some 1, 1⟩] ∧
      callsOf 0 (laterCalls.foldl delayStep
        ((delayRun ⟨id, id⟩ []).addToDelayTask (some 1) 5 1 0 true).2).calls =
          [⟨0, some 1, 0⟩, ⟨0, some 1, 2⟩, ⟨0, some 1, 3⟩] := by
  obtain ⟨-, -, ⟨_, _, -, hadd⟩, h⟩ := timers_fire_when_due ⟨id, id⟩ ([] : List (DelayEvent Nat))
  exact ⟨(h (some 1) 10 0 0 true laterCalls ((hadd ..).mpr (.inr rfl))).trans rfl,
    (h (some 1) 5 1 0 true laterCalls ((hadd ..).mpr (.inr rfl))).trans rfl⟩

end Pfs
