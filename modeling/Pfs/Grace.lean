/-
  Deleted files and their time of grace (`delete_localfile`, `close_tmp_check_mv`,
  `real_rm_file` of network/pfs_localfile.c, network/pfs_timer.c).

  A deleted file is renamed to its name with ".tmp4rm" behind it, and a timer removes that later.
  Neither the name nor the timer knows which deletion it belongs to.

  Main results: `grace_of_run`, `second_delete_overwrites`.
-/
import Pfs.Directories

namespace Pfs

open Lib List

/-! ## 1. The machine -/

/-- A deletion: the name of the copy, what was deleted and when. -/
structure Removed where
  rm : Path
  content : Node (List UInt8)
  time : Int

structure Grace where
  tree : Fs
  clock : Int
  /-- `delay_active`: `next_time` and `args` -/
  timers : List (Int × Path)
  /-- mark: the successful deletions -/
  removed : List Removed

/-- The calls that write, replace or delete a file, and time. -/
inductive GraceAct where
  /-- time passes -/
  | tick (n : Nat)
  /-- `open_tmp_localfile_4_write` -/
  | openTmp (file : Path) (refuse : Path → Bool) (e : FsEnv) (gIndex : Nat)
  /-- the bytes come, and `close_tmp_check_mv` moves them into place -/
  | closeMv (file : Path) (e : FsEnv) (gIndex : Nat) (content : List UInt8) (refuse : Bool)
  /-- an upload is given up: `real_rm_file` of the temporary name -/
  | rmTmp (file : Path) (e : FsEnv) (gIndex : Nat)
  /-- `delete_localfile`; whether `rename` is refused and whether there is memory for the timer -/
  | delete (file : Path) (refuse malloc : Bool)
  /-- `scan_delay_task`; which `unlink` is refused -/
  | scan (refuse : Path → Bool)

section Machine

variable (cwd : List Path) (datadir : Path) (span : Int)

def storedAs (file : Path) : Option Path :=
  match storageConvert nodePre datadir file with
  | .ok (some (_, p)) => some p
  | _ => none

/-- The name of the copy: `rmfile` has 256 bytes. -/
def rmName (p : Path) : Path := (p ++ rmSuffix).take 255

/-- `unlink` -/
def unlinkAt (t : Fs) (p : Path) : Fs :=
  match t.unlink (startOf cwd p) (compsFrom [] p) with
  | .ok t' => t'
  | .error _ => t

/-- `rename` -/
def renameIn (t : Fs) (p q : Path) : Except Errno Fs :=
  t.rename (startOf cwd p) (compsFrom [] p) (startOf cwd q) (compsFrom [] q)

def writeAt (t : Fs) (p : Path) (content : List UInt8) : Fs :=
  t.write (startOf cwd p) (compsFrom [] p) content

/-- The loop of `scan_delay_task`: timers whose time is over are run and taken off. -/
def scanTimers (refuse : Path → Bool) (now : Int) :
    List (Int × Path) → Fs → Fs × List (Int × Path)
  | [], t => (t, [])
  | (next, args) :: rest, t =>
    if next < now then
      scanTimers refuse now rest (if refuse args then t else unlinkAt cwd t args)
    else
      let r := scanTimers refuse now rest t
      (r.1, (next, args) :: r.2)

def contentAt (t : Fs) (p : Path) : Option (Node (List UInt8)) := t.node (placeOf cwd p)

/-- One step; `none` where the step is not possible. `span` is `g_config.real_rm_time`. -/
def graceNext (x : Grace) : GraceAct → Option Grace
  | .tick n => some { x with clock := x.clock + n }
  | .openTmp file refuse e gIndex =>
    (storedAs datadir file).map fun p =>
      { x with tree := (openTmpIn cwd refuse x.tree p (p ++ tmpSuffix e gIndex)).2.2.2 }
  | .closeMv file e gIndex content refuse =>
    (storedAs datadir file).bind fun p =>
      let t := writeAt cwd x.tree (p ++ tmpSuffix e gIndex) content
      match contentAt cwd t (p ++ tmpSuffix e gIndex) with
      | some (.file _) =>
        match renameIn cwd t (p ++ tmpSuffix e gIndex) p with
        | .ok t' => some { x with tree := if refuse then t else t' }
        | .error _ => some { x with tree := t }
      | _ => none
  | .rmTmp file e gIndex =>
    (storedAs datadir file).map fun p =>
      { x with tree := unlinkAt cwd x.tree (p ++ tmpSuffix e gIndex) }
  | .delete file refuse malloc =>
    (storedAs datadir file).map fun p =>
      match contentAt cwd x.tree p, renameIn cwd x.tree p (rmName p) with
      | some content, .ok t' =>
        if refuse then x
        else
          { tree := t'
            clock := x.clock
            timers := if malloc then (x.clock + span, rmName p) :: x.timers else x.timers
            removed := ⟨rmName p, content, x.clock⟩ :: x.removed }
      | _, _ => x
  | .scan refuse =>
    let r := scanTimers cwd refuse x.clock x.timers x.tree
    some { x with tree := r.1, timers := r.2 }

/-! ## 2. The condition -/

/-- A copy is kept at a place, and its time is not over. -/
def CopyKept (x : Grace) (q : List Path) : Prop :=
  ∃ r ∈ x.removed, x.clock ≤ r.time + span ∧ placeOf cwd r.rm = q

def TimerWaits (x : Grace) (q : List Path) : Prop := ∃ tm ∈ x.timers, placeOf cwd tm.2 = q

instance (x : Grace) (q : List Path) : Decidable (CopyKept cwd span x q) :=
  inferInstanceAs (Decidable (∃ r ∈ x.removed, _))

instance (x : Grace) (q : List Path) : Decidable (TimerWaits cwd x q) :=
  inferInstanceAs (Decidable (∃ tm ∈ x.timers, _))

/-- The condition on a deletion of the path `p`: its name leaves room for the suffix, it is no
    directory, it is not itself a copy that is kept, and no earlier deletion of it is open. -/
def DeletesOnce (x : Grace) (p : Path) : Prop :=
  p.length + 7 < 256 ∧ x.tree.node (placeOf cwd p) ≠ some .dir ∧
    ¬ CopyKept cwd span x (placeOf cwd p) ∧ ¬ CopyKept cwd span x (placeOf cwd (rmName p)) ∧
    ¬ TimerWaits cwd x (placeOf cwd (rmName p))

instance (x : Grace) (p : Path) : Decidable (DeletesOnce cwd span x p) :=
  inferInstanceAs (Decidable (_ ∧ _))

/-- **The condition on a step**: nothing is put where a copy is kept, and no path is deleted again
    before the timer of its last deletion. -/
def KeepsCopies (x : Grace) : GraceAct → Prop
  | .closeMv file _ _ _ _ => ∀ p ∈ storedAs datadir file, ¬ CopyKept cwd span x (placeOf cwd p)
  | .delete file _ _ => ∀ p ∈ storedAs datadir file, DeletesOnce cwd span x p
  | _ => True

instance (x : Grace) : ∀ a, Decidable (KeepsCopies cwd datadir span x a)
  | .tick _ => isTrue trivial
  | .openTmp _ _ _ _ => isTrue trivial
  | .closeMv file _ _ _ _ =>
    inferInstanceAs (Decidable (∀ p ∈ storedAs datadir file, ¬ CopyKept cwd span x (placeOf cwd p)))
  | .rmTmp _ _ _ => isTrue trivial
  | .delete file _ _ =>
    inferInstanceAs (Decidable (∀ p ∈ storedAs datadir file, DeletesOnce cwd span x p))
  | .scan _ => isTrue trivial

end Machine

/-! ## 3. Names that do not meet -/

section Suffixes

variable {cwd : List Path}

theorem placeOf_suffix (x : Path) {suf : Path} (hs : slash ∉ suf) (hlen : 2 < suf.length) :
    ∃ p n, placeOf cwd (x ++ suf) = p ++ [n ++ suf] := by
  have hcomp (n : Path) : compOf (n ++ suf) = .name (n ++ suf) := by
    have hn : 2 < (n ++ suf).length := by
      rw [length_append]
      omega
    rw [compOf, if_neg fun h => by simp [h] at hn, if_neg fun h => by simp [h] at hn]
  have hplain (n : Path) (hn : slash ∉ n) : compsFrom [] (n ++ suf) = [.name (n ++ suf)] := by
    have hne : n ++ suf ≠ [] := fun h => by simp [(append_eq_nil_iff.mp h).2] at hlen
    rw [compsFrom_plain fun h => (mem_append.mp h).elim hn hs, nil_append, if_neg hne,
      hcomp]
  cases hx : splitLast x with
  | none =>
    refine ⟨startOf cwd (x ++ suf), x, ?_⟩
    rw [placeOf, hplain x (splitLast_eq_none.mp hx)]
    rfl
  | some r =>
    obtain ⟨d, n⟩ := r
    obtain ⟨rfl, hn⟩ := splitLast_eq_some hx
    refine ⟨place (startOf cwd (d ++ slash :: n ++ suf)) (compsFrom [] d), n, ?_⟩
    rw [placeOf, append_assoc, cons_append, compsFrom_append, hplain n hn, place, foldl_append]
    rfl

theorem rmSuffix_plain : slash ∉ rmSuffix ∧ 2 < rmSuffix.length := by decide

theorem tmp_ne_rm (x q : Path) (e : FsEnv) (gIndex : Nat) :
    placeOf cwd (q ++ rmSuffix) ≠ placeOf cwd (x ++ tmpSuffix e gIndex) := by
  obtain ⟨ht, htlen⟩ := tmpSuffix_plain e gIndex
  obtain ⟨p, n, hp⟩ := @placeOf_suffix cwd x _ ht htlen
  obtain ⟨p', n', hp'⟩ := @placeOf_suffix cwd q _ rmSuffix_plain.1 rmSuffix_plain.2
  rw [hp, hp']
  intro h
  have hlast : n' ++ rmSuffix = n ++ tmpSuffix e gIndex := by
    simpa using (append_inj' h rfl).2
  have hcut : rmSuffix = rmSuffix.take 3 ++ rmSuffix.drop 3 := (take_append_drop 3 _).symm
  rw [hcut, tmpSuffix, ← append_assoc, ← append_assoc] at hlast
  exact absurd (append_inj' hlast rfl).2 (by decide)

theorem rmName_of_short {p : Path} (h : p.length + 7 < 256) : rmName p = p ++ rmSuffix := by
  have hlen : rmSuffix.length = 7 := rfl
  rw [rmName, take_of_length_le]
  rw [length_append, hlen]
  omega

end Suffixes

/-! ## 4. Every run -/

/-- What holds throughout: the copies are there, no timer for the name of one is due before its
    time, and their names end in ".tmp4rm". -/
structure GraceInv (cwd : List Path) (span : Int) (x : Grace) : Prop where
  kept : ∀ r ∈ x.removed, x.clock ≤ r.time + span →
    x.tree.node (placeOf cwd r.rm) = some r.content
  late : ∀ tm ∈ x.timers, ∀ r ∈ x.removed, x.clock ≤ r.time + span →
    placeOf cwd tm.2 = placeOf cwd r.rm → r.time + span ≤ tm.1
  named : ∀ r ∈ x.removed, ∃ p, r.rm = p ++ rmSuffix

section Steps

variable {cwd : List Path} {datadir : Path} {span : Int} {x x' : Grace}

theorem GraceInv.frame (h : GraceInv cwd span x) {tree : Fs} {timers : List (Int × Path)}
    (hsub : ∀ tm ∈ timers, tm ∈ x.timers)
    (hnode : ∀ r ∈ x.removed, x.clock ≤ r.time + span →
      x.tree.node (placeOf cwd r.rm) = some r.content →
      tree.node (placeOf cwd r.rm) = some r.content) :
    GraceInv cwd span { x with tree := tree, timers := timers } :=
  { kept := fun r hr hc => hnode r hr hc (h.kept r hr hc)
    late := fun tm htm => h.late tm (hsub tm htm)
    named := h.named }

theorem openCreat_keeps {refuse : Path → Bool} {t t' : Fs} {p : Path}
    (h : openCreat cwd refuse t p = .ok t') {q : List Path} {y : Node (List UInt8)}
    (hq : t.node q = some y) : t'.node q = some y := by
  unfold openCreat at h
  split at h
  · cases h
  split at h
  · cases h
  rename_i t1 hc
  split at h
  · cases h
  · cases h
    exact DirTree.create_keeps hc hq

theorem openTmpIn_keeps {refuse : Path → Bool} {t : Fs} {filename tmp : Path} {q : List Path}
    {y : Node (List UInt8)} (hq : t.node q = some y) :
    (openTmpIn cwd refuse t filename tmp).2.2.2.node q = some y := by
  unfold openTmpIn
  split
  · rename_i t' hopen
    exact openCreat_keeps hopen hq
  · extract_lets dir made
    have hmade : made.2.2.node q = some y := by
      unfold made
      split
      · exact hq
      · exact (createdirIn_makes _).grows.keeps hq
    split
    · exact hmade
    split
    · rename_i t' hopen
      exact openCreat_keeps hopen hmade
    · exact hmade
  · exact hq

theorem scanTimers_spec (refuse : Path → Bool) (now : Int) (ts : List (Int × Path)) (t : Fs) :
    (∀ tm ∈ (scanTimers cwd refuse now ts t).2, tm ∈ ts) ∧
      ∀ q, (∀ tm ∈ ts, placeOf cwd tm.2 = q → now ≤ tm.1) →
        (scanTimers cwd refuse now ts t).1.node q = t.node q := by
  induction ts generalizing t with
  | nil => exact ⟨nofun, fun _ _ => rfl⟩
  | cons tm ts ih =>
    obtain ⟨next, args⟩ := tm
    rw [scanTimers]
    split
    · rename_i hdue
      obtain ⟨hsub, hnode⟩ := ih (if refuse args then t else unlinkAt cwd t args)
      refine ⟨fun tm htm => mem_cons_of_mem _ (hsub tm htm), fun q hq => ?_⟩
      rw [hnode q fun tm htm => hq tm (mem_cons_of_mem _ htm)]
      split
      · rfl
      unfold unlinkAt
      split
      · rename_i t' hu
        refine DirTree.unlink_node hu fun he => ?_
        have := hq (next, args) mem_cons_self he.symm
        simp only at this
        omega
      · rfl
    · obtain ⟨hsub, hnode⟩ := ih t
      refine ⟨fun tm htm => ?_, fun q hq => hnode q fun tm htm => hq tm (mem_cons_of_mem _ htm)⟩
      rcases mem_cons.mp htm with rfl | htm
      · exact mem_cons_self
      · exact mem_cons_of_mem _ (hsub tm htm)

theorem GraceInv.closeMv (h : GraceInv cwd span x) {file : Path} {e : FsEnv} {gIndex : Nat}
    {content : List UInt8} {refuse : Bool}
    (hok : KeepsCopies cwd datadir span x (.closeMv file e gIndex content refuse))
    (hs : graceNext cwd datadir span x (.closeMv file e gIndex content refuse) = some x') :
    GraceInv cwd span x' := by
  obtain ⟨p, hp, hs⟩ := Option.bind_eq_some_iff.mp hs
  have hfree := hok p hp
  -- the temporary file is no copy, whatever is written into it
  have hwrite : ∀ r ∈ x.removed, (writeAt cwd x.tree (p ++ tmpSuffix e gIndex) content).node
      (placeOf cwd r.rm) = x.tree.node (placeOf cwd r.rm) := by
    intro r hr
    obtain ⟨q, hq⟩ := h.named r hr
    exact DirTree.write_node _ (hq ▸ tmp_ne_rm p q e gIndex)
  have hplain := h.frame (fun _ htm => htm) (fun r hr _ hn => (hwrite r hr).trans hn)
  simp only at hs
  split at hs
  · rename_i a hfile
    split at hs
    · rename_i t' hren
      cases hs
      split
      · exact hplain
      refine h.frame (fun _ htm => htm) fun r hr hc hn => ?_
      obtain ⟨q, hq⟩ := h.named r hr
      rw [(DirTree.rename_file hren hfile).2 _ (hq ▸ tmp_ne_rm p q e gIndex)
        fun he => hfree ⟨r, hr, hc, he⟩]
      exact (hwrite r hr).trans hn
    · cases hs
      exact hplain
  · cases hs

theorem GraceInv.delete (h : GraceInv cwd span x) {file : Path} {refuse malloc : Bool}
    (hok : KeepsCopies cwd datadir span x (.delete file refuse malloc))
    (hs : graceNext cwd datadir span x (.delete file refuse malloc) = some x') :
    GraceInv cwd span x' := by
  obtain ⟨p, hp, hs⟩ := Option.map_eq_some_iff.mp hs
  obtain ⟨hlen, hdir, hcopy, hrm, htimer⟩ := hok p hp
  split at hs
  · rename_i content t' hcontent hren
    split at hs
    · rwa [← hs]
    subst hs
    obtain ⟨a, rfl⟩ : ∃ a, content = .file a := by
      cases content with
      | dir => exact absurd hcontent hdir
      | file a => exact ⟨a, rfl⟩
    obtain ⟨hnew, hrest⟩ := DirTree.rename_file hren hcontent
    refine { kept := fun r hr hc => ?_, late := fun tm htm r hr hc he => ?_,
             named := fun r hr => ?_ }
    · rcases mem_cons.mp hr with rfl | hr
      · exact hnew
      · rw [hrest _ (fun he => hcopy ⟨r, hr, hc, he⟩) fun he => hrm ⟨r, hr, hc, he⟩]
        exact h.kept r hr hc
    · rcases mem_cons.mp hr with rfl | hr
      · -- the deletion itself: only its own timer waits for its name
        split at htm
        · rcases mem_cons.mp htm with rfl | htm
          · exact Int.le_refl _
          · exact absurd ⟨tm, htm, he⟩ htimer
        · exact absurd ⟨tm, htm, he⟩ htimer
      · split at htm
        · rcases mem_cons.mp htm with rfl | htm
          · exact absurd ⟨r, hr, hc, he.symm⟩ hrm
          · exact h.late tm htm r hr hc he
        · exact h.late tm htm r hr hc he
    · rcases mem_cons.mp hr with rfl | hr
      · exact ⟨p, rmName_of_short hlen⟩
      · exact h.named r hr
  · rwa [← hs]

theorem GraceInv.next (h : GraceInv cwd span x) {a : GraceAct}
    (hok : KeepsCopies cwd datadir span x a) (hs : graceNext cwd datadir span x a = some x') :
    GraceInv cwd span x' := by
  cases a with
  | tick n =>
    cases hs
    exact
      { kept := fun r hr hc => h.kept r hr (by simp only at hc; omega)
        late := fun tm htm r hr hc => h.late tm htm r hr (by simp only at hc; omega)
        named := h.named }
  | openTmp file refuse e gIndex =>
    obtain ⟨p, -, rfl⟩ := Option.map_eq_some_iff.mp hs
    exact h.frame (fun _ htm => htm) fun _ _ _ hn => openTmpIn_keeps hn
  | closeMv file e gIndex content refuse => exact h.closeMv hok hs
  | rmTmp file e gIndex =>
    obtain ⟨p, -, rfl⟩ := Option.map_eq_some_iff.mp hs
    refine h.frame (fun _ htm => htm) fun r hr _ hn => ?_
    obtain ⟨q, hq⟩ := h.named r hr
    unfold unlinkAt
    split
    · rename_i t' hu
      rw [DirTree.unlink_node hu (hq ▸ tmp_ne_rm p q e gIndex), hn]
    · exact hn
  | delete file refuse malloc => exact h.delete hok hs
  | scan refuse =>
    cases hs
    obtain ⟨hsub, hnode⟩ := @scanTimers_spec cwd refuse x.clock x.timers x.tree
    refine h.frame hsub fun r hr hc hn => ?_
    rw [hnode _ fun tm htm he => ?_, hn]
    have := h.late tm htm r hr hc he
    omega

end Steps

/-- The machine at start: no timers, nothing deleted. -/
def Grace.init (tree : Fs) (clock : Int) : Grace := ⟨tree, clock, [], []⟩

/-- **The time of grace.** In every state of a run with the condition, what a deletion at time `t`
    took away stands under its ".tmp4rm" name up to time `t + real_rm_time`. -/
theorem grace_of_run {cwd : List Path} {datadir : Path} {span clock : Int} {tree : Fs} {x : Grace}
    (hrun : Run (graceNext cwd datadir span) (KeepsCopies cwd datadir span)
      (Grace.init tree clock) x) :
    ∀ r ∈ x.removed, x.clock ≤ r.time + span →
      (∃ p, r.rm = p ++ rmSuffix) ∧ contentAt cwd x.tree r.rm = some r.content := by
  have h0 : GraceInv cwd span (Grace.init tree clock) :=
    { kept := nofun
      late := nofun
      named := nofun }
  have h := hrun.inv h0 fun _ _ _ hi hok hs => hi.next hok hs
  exact fun r hr hc => ⟨h.named r hr, h.kept r hr hc⟩

/-- "/d/1" is there. -/
def graceTree : Fs := (createdirIn [] (fun _ => false) diskOnly (ascii "/d/1/")).2.2

def uploadA (gIndex : Nat) (content : List UInt8) : List GraceAct :=
  [.openTmp (ascii "/1/a") (fun _ => false) smallFs gIndex,
    .closeMv (ascii "/1/a") smallFs gIndex content false]

/-- One file is deleted at time 100, and looked for at time 7300. -/
def deleteOnce : List GraceAct :=
  uploadA 0 [65] ++ [.tick 100, .delete (ascii "/1/a") false true] ++ uploadA 1 [66] ++
    [.scan fun _ => false, .tick 7200, .scan fun _ => false]

def copyName : Path := ascii "/d/1/a.tmp4rm"

theorem grace_once :
    ∃ x, exec (graceNext [] (ascii "/d") 7200) (Grace.init graceTree 0) deleteOnce = some x ∧
      x.clock = 7300 ∧ x.removed.map (fun r => (r.rm, r.time)) = [(copyName, 100)] ∧
      ∀ r ∈ x.removed, x.clock ≤ r.time + 7200 →
        (∃ p, r.rm = p ++ rmSuffix) ∧ contentAt [] x.tree r.rm = some r.content := by
  have hex := exec_eq_getD (Grace.init graceTree 0)
    (show (exec (graceNext [] (ascii "/d") 7200) (Grace.init graceTree 0) deleteOnce).isSome =
      true by decide +kernel)
  have hrun := run_of_exec deleteOnce .start (show Meets (graceNext [] (ascii "/d") 7200)
    (KeepsCopies [] (ascii "/d") 7200) _ _ by decide +kernel) hex
  exact ⟨_, hex, by decide +kernel, by decide +kernel, grace_of_run hrun⟩

/-- The same path is deleted at time 0 and, with other content, at time 5000. -/
def deleteTwice : List GraceAct :=
  uploadA 0 [65] ++ [.delete (ascii "/1/a") false true, .tick 5000] ++ uploadA 1 [66] ++
    [.delete (ascii "/1/a") false true]

/-- **The second deletion destroys the first copy at time 5000**, though it was to be kept up to
    7200, and at time 7201 the first timer removes the second copy, which was to be kept up to
    12200. -/
theorem second_delete_overwrites :
    (∃ x, exec (graceNext [] (ascii "/d") 7200) (Grace.init graceTree 0) deleteTwice = some x ∧
        x.clock = 5000 ∧
        x.removed.map (fun r => (r.rm, r.content, r.time)) =
          [(copyName, .file [66], 5000), (copyName, .file [65], 0)] ∧
        contentAt [] x.tree copyName = some (.file [66])) ∧
      ∃ x, exec (graceNext [] (ascii "/d") 7200) (Grace.init graceTree 0)
          (deleteTwice ++ [.tick 2201, .scan fun _ => false]) = some x ∧
        x.clock = 7201 ∧ contentAt [] x.tree copyName = none := by
  refine ⟨⟨_, exec_eq_getD (Grace.init graceTree 0) ?_, ?_⟩,
    ⟨_, exec_eq_getD (Grace.init graceTree 0) ?_, ?_⟩⟩
  all_goals decide +kernel

end Pfs
