/-
  The file systems of a storage (network/pfs_init.c): which directories are on which disk
  (`set_info_disk`, `refresh_disk_info`), which disk takes new files
  (`refresh_maxfreedisk`, with the errors that the members of the domain report), and
  which directory on it is next (`get_max_free_storage`).

  A disk has its directories in `pathcluster`, each pair as one number; an entry that is 0 is free.
  The directory (0, 0) has the number 0, so its entry is given to the next one of the disk, and what
  is left for it is the free entry at the end, which has its number as well.

  Main results: `gets_perm`, `refreshMaxfreedisk_best`.
-/
import Mathlib.Data.List.Dedup
import Mathlib.Data.List.Perm.Subperm
import Pfs.Directories
import Pfs.Lib.Cursor
import Pfs.Lib.Select

namespace Pfs

open Lib Function List

/-- The size of `diskinfo`. -/
def MAXDISKS : Nat := 32
/-- The size of `pathcluster`. -/
def TOTALDIRS : Nat := 10000

/-! ## 1. The table -/

/-- `t_disk_info` -/
structure DiskInfo where
  fsid : Nat
  firstpath : Path
  count : Nat
  index : Nat
  pathcluster : Nat → UInt32

/-- A free entry. -/
def DiskInfo.zero : DiskInfo := ⟨0, [], 0, 0, fun _ => 0⟩

/-- What `lstat` and `statfs` give for one directory. -/
structure DirStat where
  lstat : Bool
  statfs : Bool
  fsid : Nat

/-- `d1*DIR1 + d2` -/
def dirCode (dir1 : Nat) (d : Nat × Nat) : UInt32 := UInt32.ofNat (d.1 * dir1 + d.2)

/-- The directory with a number: `/ DIR1` and `% DIR1`. -/
def codeDir (dir1 : Nat) (c : UInt32) : Nat × Nat := (c.toNat / dir1, c.toNat % dir1)

/-- The loop over `pathcluster`, with `k` entries to go from `j` on; `none` is the end of the
    table. -/
def slotLoop (dirs : UInt32) (d : DiskInfo) : Nat → Nat → Option DiskInfo
  | 0, _ => none
  | k + 1, j =>
    if d.pathcluster j = dirs then some d
    else if d.pathcluster j = 0 then
      some { d with pathcluster := update d.pathcluster j dirs, count := d.count + 1 }
    else slotLoop dirs d k (j + 1)

/-- The loop over the disks: the table, and the number of the disk the directory is on. -/
def diskLoop (fsid : Nat) (outdir : Path) (dirs : UInt32) :
    List DiskInfo → Option (List DiskInfo × Nat)
  | [] => some ([], 0)
  | d :: ds =>
    if d.count = 0 then
      some ({ d with
        fsid := fsid
        firstpath := outdir.take 255
        count := 1
        pathcluster := update d.pathcluster 0 dirs } :: ds, 0)
    else if d.fsid = fsid then
      if TOTALDIRS ≤ d.count then none
      else (slotLoop dirs d TOTALDIRS 0).map fun d => (d :: ds, 0)
    else (diskLoop fsid outdir dirs ds).map fun r => (d :: r.1, r.2 + 1)

/-- A member of `self_domain`: `ips`, `self` and `iperrdisk`. -/
structure ErrMember where
  ip : UInt32
  self : Bool
  errdisk : Nat → UInt8

/-- `diskinfo`, `max_disk` and `self_domain`. -/
structure DiskSt where
  info : List DiskInfo
  maxDisk : Option Nat
  members : List ErrMember

/-- `set_info_disk`; `none` is -1. -/
def setInfoDisk (dir1 : Nat) (datadir : Path) (st : DirStat) (d : Nat × Nat) (s : DiskSt) :
    Option DiskSt :=
  (diskLoop st.fsid (outdir datadir d) (dirCode dir1 d) s.info).map fun r =>
    { s with info := r.1, maxDisk := if st.lstat && st.statfs then some r.2 else s.maxDisk }

/-- The loops of `refresh_disk_info`. -/
def infoLoop (dir1 : Nat) (datadir : Path) (st : Nat × Nat → DirStat) :
    List (Nat × Nat) → DiskSt → Option DiskSt
  | [], s => some s
  | d :: ds, s => (setInfoDisk dir1 datadir (st d) d s).bind (infoLoop dir1 datadir st ds)

/-- `refresh_disk_info`; `none` is -1. The path of a directory is taken to fit into `outdir`, 256
    bytes. -/
def refreshDiskInfo (dir1 dir2 : Nat) (datadir : Path) (st : Nat × Nat → DirStat) (s : DiskSt) :
    Option DiskSt :=
  (infoLoop dir1 datadir st (dirPairs dir1 dir2) s).bind fun s =>
    if s.maxDisk = none then none else some s

/-- `get_max_free_storage`; `none` without a disk. -/
def getMaxFreeStorage (dir1 : Nat) (s : DiskSt) : Option ((Nat × Nat) × DiskSt) :=
  match s.maxDisk with
  | none => none
  | some k =>
    match s.info[k]? with
    | none => none
    | some d =>
      some (codeDir dir1 (d.pathcluster d.index),
        { s with info := s.info.set k { d with index := cursorNext d.count d.index } })

/-! ## 2. The disk for new files -/

/-- What `lstat` and `statfs` give for one disk: `f_bfree` and `f_bsize`. -/
structure DiskStat where
  lstat : Bool
  statfs : Option (Nat × Nat)
  /-- `rand()%2`, with `pfs_test` -/
  rand : Bool

/-- `set_self_disk_err` -/
def setSelfDiskErr (k : Nat) (v : UInt8) : List ErrMember → List ErrMember
  | [] => []
  | m :: ms =>
    if m.self then { m with errdisk := update m.errdisk (k % MAXDISKS) v } :: ms
    else m :: setSelfDiskErr k v ms

/-- `check_domain_disk_err` -/
def checkDomainDiskErr (k : Nat) (ms : List ErrMember) : Bool :=
  ms.any fun m => m.errdisk (k % MAXDISKS) != 0

/-- `set_domain_diskerr` -/
def setDomainDiskerr (errdisk : Nat → UInt8) (ip : UInt32) : List ErrMember → List ErrMember
  | [] => []
  | m :: ms =>
    if m.ip = ip then { m with errdisk := errdisk } :: ms else m :: setDomainDiskerr errdisk ip ms

/-- `(sfs.f_bfree * sfs.f_bsize) >> 30`, in 64 bits. -/
def diskfree (sfs : Nat × Nat) : Nat := sfs.1 * sfs.2 % 2 ^ 64 / 2 ^ 30

/-- The largest free space so far, a `uint32_t`, and the disk it is on. -/
structure Best where
  curmaxvalue : Nat
  index : Nat
  deriving DecidableEq, Repr

/-- The loop of `refresh_maxfreedisk` from disk `i` on. -/
def maxfreeLoop (pfsTest : Bool) (st : Nat → DiskStat) :
    List DiskInfo → Nat → List ErrMember → Best → List ErrMember × Best
  | [], _, ms, b => (ms, b)
  | d :: ds, i, ms, b =>
    if d.count = 0 then (ms, b)
    else
      match (st i).lstat, (st i).statfs with
      | false, _ => maxfreeLoop pfsTest st ds (i + 1) (setSelfDiskErr i 1 ms) b
      | true, none => maxfreeLoop pfsTest st ds (i + 1) (setSelfDiskErr i 1 ms) b
      | true, some sfs =>
        if pfsTest && (st i).rand then
          maxfreeLoop pfsTest st ds (i + 1) (setSelfDiskErr i 1 ms) b
        else
          let ms := setSelfDiskErr i 0 ms
          if checkDomainDiskErr i ms then maxfreeLoop pfsTest st ds (i + 1) ms b
          else if b.curmaxvalue < diskfree sfs then
            maxfreeLoop pfsTest st ds (i + 1) ms ⟨diskfree sfs % 2 ^ 32, i⟩
          else maxfreeLoop pfsTest st ds (i + 1) ms b

/-- `refresh_maxfreedisk` -/
def refreshMaxfreedisk (pfsTest : Bool) (st : Nat → DiskStat) (s : DiskSt) : DiskSt :=
  let r := maxfreeLoop pfsTest st s.info 0 s.members ⟨0, 0⟩
  { s with members := r.1, maxDisk := some r.2.index }

/-- What happens to the table once it is filled. -/
inductive DiskAct where
  /-- `get_max_free_storage` -/
  | get
  /-- `refresh_maxfreedisk` -/
  | refresh (pfsTest : Bool) (st : Nat → DiskStat)
  /-- DISKINFO_RSP of a member -/
  | report (errdisk : Nat → UInt8) (ip : UInt32)

/-- A call on the table. -/
def diskNext (dir1 : Nat) (s : DiskSt) : DiskAct → Option DiskSt
  | .get => (getMaxFreeStorage dir1 s).map Prod.snd
  | .refresh pfsTest st => some (refreshMaxfreedisk pfsTest st s)
  | .report errdisk ip => some { s with members := setDomainDiskerr errdisk ip s.members }

/-- The directories that `n` calls of `get_max_free_storage` return. -/
def gets (dir1 : Nat) : Nat → DiskSt → List (Nat × Nat)
  | 0, _ => []
  | n + 1, s =>
    match getMaxFreeStorage dir1 s with
    | none => []
    | some (d, s) => d :: gets dir1 n s

/-! ## 3. The table that `refresh_disk_info` fills -/

/-- The directories of `P` on one file system. -/
def dirsOn (fsidOf : Nat × Nat → Nat) (P : List (Nat × Nat)) (f : Nat) : List (Nat × Nat) :=
  P.filter fun d => fsidOf d == f

section Table

variable (dir1 : Nat) (datadir : Path) (fsidOf : Nat × Nat → Nat)

/-- Their numbers, without 0. -/
def codesOn (P : List (Nat × Nat)) (f : Nat) : List UInt32 :=
  ((dirsOn fsidOf P f).map (dirCode dir1)).filter (· != 0)

/-- The entry of a disk after the directories of `P`. -/
def diskOf (P : List (Nat × Nat)) (f : Nat) : DiskInfo where
  fsid := f
  firstpath := ((dirsOn fsidOf P f).head?.map fun d => (outdir datadir d).take 255).getD []
  count := (dirsOn fsidOf P f).length
  index := 0
  pathcluster := fun i => ((codesOn dir1 fsidOf P f)[i]?).getD 0

/-- The table with the disks `fs`. -/
def tableOf (P : List (Nat × Nat)) (fs : List Nat) : List DiskInfo :=
  fs.map (diskOf dir1 datadir fsidOf P) ++ List.replicate (MAXDISKS - fs.length) DiskInfo.zero

variable {dir1 datadir fsidOf}

theorem slotLoop_eq {d : DiskInfo} {l : List UInt32} {c : UInt32}
    (hd : d.pathcluster = fun i => (l[i]?).getD 0) (h0 : 0 ∉ l) (hc : c ≠ 0) (hnew : c ∉ l)
    {k j : Nat} (hj : j ≤ l.length) (hk : l.length < j + k) :
    slotLoop c d k j = some { d with
      pathcluster := fun i => ((l ++ [c])[i]?).getD 0, count := d.count + 1 } := by
  induction k generalizing j with
  | zero => omega
  | succ k ih =>
    rw [slotLoop, hd]
    obtain hlt | rfl := Nat.lt_or_eq_of_le hj
    · have hmem : l[j] ∈ l := getElem_mem hlt
      have hne : l[j] ≠ c := ne_of_mem_of_not_mem hmem hnew
      have hpos : l[j] ≠ 0 := ne_of_mem_of_not_mem hmem h0
      simp only [getElem?_eq_getElem hlt, Option.getD_some, if_neg hne, if_neg hpos]
      exact ih hlt (by omega)
    have hnone : l[l.length]? = none := getElem?_eq_none (Nat.le_refl _)
    have hupd : update (fun i => (l[i]?).getD 0) l.length c =
        fun i => ((l ++ [c])[i]?).getD 0 := by
      funext i
      by_cases hi : i = l.length
      · subst hi
        simp
      rw [update_of_ne hi, getElem?_append]
      split
      · rfl
      · rw [getElem?_eq_none (by omega), getElem?_eq_none (by simp; omega)]
    simp only [hnone, Option.getD_none, if_neg hc.symm, if_true, hupd]

theorem diskLoop_mem {D : Nat → DiskInfo} {fs : List Nat} {g : Nat} (path : Path) {c : UInt32}
    {d : DiskInfo} (rest : List DiskInfo) (hD : ∀ f ∈ fs, (D f).count ≠ 0 ∧ (D f).fsid = f)
    (hg : g ∈ fs) (hnodup : fs.Nodup) (hroom : (D g).count < TOTALDIRS)
    (hslot : slotLoop c (D g) TOTALDIRS 0 = some d) :
    ∃ k, diskLoop g path c (fs.map D ++ rest) = some (fs.map (update D g d) ++ rest, k) := by
  induction fs with
  | nil => cases hg
  | cons f fs ih =>
    obtain ⟨hcount, hfsid⟩ := hD f mem_cons_self
    obtain ⟨hf, hnodup⟩ := nodup_cons.mp hnodup
    rw [map_cons, cons_append, diskLoop, if_neg hcount, hfsid]
    by_cases hfg : f = g
    · subst hfg
      have hsame : fs.map (update D f d) = fs.map D :=
        map_congr_left fun x hx => update_of_ne (ne_of_mem_of_not_mem hx hf) _ _
      rw [if_pos rfl, if_neg (Nat.not_le.mpr hroom), hslot, map_cons, update_self, hsame]
      exact ⟨0, rfl⟩
    · obtain ⟨k, hk⟩ := ih (fun x hx => hD x (mem_cons_of_mem _ hx))
        ((mem_cons.mp hg).resolve_left fun h => hfg h.symm) hnodup
      rw [if_neg hfg, hk, map_cons, update_of_ne hfg]
      exact ⟨k + 1, rfl⟩

theorem diskLoop_new {D : Nat → DiskInfo} {fs : List Nat} {g : Nat} (path : Path) (c : UInt32)
    (rest : List DiskInfo) (hD : ∀ f ∈ fs, (D f).count ≠ 0 ∧ (D f).fsid = f) (hg : g ∉ fs) :
    ∃ k, diskLoop g path c (fs.map D ++ DiskInfo.zero :: rest) =
      some (fs.map D ++ ⟨g, path.take 255, 1, 0, update (fun _ => 0) 0 c⟩ :: rest, k) := by
  induction fs with
  | nil => exact ⟨0, rfl⟩
  | cons f fs ih =>
    obtain ⟨hcount, hfsid⟩ := hD f mem_cons_self
    rw [mem_cons, not_or] at hg
    obtain ⟨k, hk⟩ := ih (fun x hx => hD x (mem_cons_of_mem _ hx)) hg.2
    rw [map_cons, cons_append, diskLoop, if_neg hcount, hfsid, if_neg fun h => hg.1 h.symm, hk]
    exact ⟨k + 1, rfl⟩

theorem dirsOn_append (P : List (Nat × Nat)) (d : Nat × Nat) (f : Nat) :
    dirsOn fsidOf (P ++ [d]) f = dirsOn fsidOf P f ++ if fsidOf d = f then [d] else [] := by
  rw [dirsOn, filter_append, dirsOn]
  by_cases h : fsidOf d = f <;> simp [h]

variable {P : List (Nat × Nat)} {d : Nat × Nat}

theorem diskOf_append_of_ne {f : Nat} (h : fsidOf d ≠ f) :
    diskOf dir1 datadir fsidOf (P ++ [d]) f = diskOf dir1 datadir fsidOf P f := by
  simp only [diskOf, codesOn, dirsOn_append, if_neg h, append_nil]

theorem diskOf_append (hne : dirsOn fsidOf P (fsidOf d) ≠ [])
    (hd : dirCode dir1 d ≠ 0) :
    diskOf dir1 datadir fsidOf (P ++ [d]) (fsidOf d) =
      { diskOf dir1 datadir fsidOf P (fsidOf d) with
        pathcluster := fun i => ((codesOn dir1 fsidOf P (fsidOf d) ++ [dirCode dir1 d])[i]?).getD 0
        count := (diskOf dir1 datadir fsidOf P (fsidOf d)).count + 1 } := by
  have hcodes : codesOn dir1 fsidOf (P ++ [d]) (fsidOf d) =
      codesOn dir1 fsidOf P (fsidOf d) ++ [dirCode dir1 d] := by
    rw [codesOn, dirsOn_append, if_pos rfl, map_append, filter_append, codesOn]
    congr 1
    exact filter_cons_of_pos (bne_iff_ne.mpr hd)
  obtain ⟨a, l, hl⟩ := exists_cons_of_ne_nil hne
  simp only [diskOf, hcodes, dirsOn_append, if_true, length_append, length_singleton]
  rw [hl]
  rfl

theorem diskOf_first (hnil : dirsOn fsidOf P (fsidOf d) = []) :
    diskOf dir1 datadir fsidOf (P ++ [d]) (fsidOf d) =
      ⟨fsidOf d, (outdir datadir d).take 255, 1, 0, update (fun _ => 0) 0 (dirCode dir1 d)⟩ := by
  have hcluster : (fun i => ((([d].map (dirCode dir1)).filter (· != 0))[i]?).getD 0) =
      update (fun _ => 0) 0 (dirCode dir1 d) := by
    funext i
    by_cases h0 : dirCode dir1 d = 0
    · cases i <;> simp [h0]
    · cases i <;> simp [h0]
  simp only [diskOf, codesOn, dirsOn_append, hnil, if_true, nil_append, hcluster]
  rfl

/-- Different directories have different numbers, if no second-level number reaches `DIR1`. -/
theorem dirCode_toNat (h1 : d.1 < dir1) (h2 : d.2 < dir1)
    (hsize : dir1 ≤ TOTALDIRS) : (dirCode dir1 d).toNat = d.1 * dir1 + d.2 := by
  have hle : d.1 * dir1 ≤ TOTALDIRS * TOTALDIRS := Nat.mul_le_mul (by omega) hsize
  rw [dirCode, UInt32.toNat_ofNat']
  refine Nat.mod_eq_of_lt ?_
  simp only [TOTALDIRS] at hle hsize
  omega

theorem codeDir_dirCode (h1 : d.1 < dir1) (h2 : d.2 < dir1)
    (hsize : dir1 ≤ TOTALDIRS) : codeDir dir1 (dirCode dir1 d) = d := by
  rw [codeDir, dirCode_toNat h1 h2 hsize, Nat.mul_comm, Nat.mul_add_div (by omega), Nat.mul_add_mod,
    Nat.div_eq_of_lt h2, Nat.mod_eq_of_lt h2, Nat.add_zero]

/-- The table holds the directories of `P`, on the disks `fs`. -/
structure Filled (dir1 : Nat) (datadir : Path) (fsidOf : Nat × Nat → Nat) (P : List (Nat × Nat))
    (fs : List Nat) (s : DiskSt) : Prop where
  info : s.info = tableOf dir1 datadir fsidOf P fs
  nodup : fs.Nodup
  mem : ∀ f, f ∈ fs ↔ ∃ d ∈ P, fsidOf d = f

/-- The directories of the storage, in the order of the loops: what they need for their numbers to
    be told apart. -/
structure Plan (dir1 : Nat) (fsidOf : Nat × Nat → Nat) (L : List (Nat × Nat)) : Prop where
  size : dir1 ≤ TOTALDIRS
  total : L.length ≤ TOTALDIRS
  nodup : L.Nodup
  head : L.head? = some (0, 0)
  range : ∀ d ∈ L, d.1 < dir1 ∧ d.2 < dir1
  disks : (L.map fsidOf).dedup.length ≤ MAXDISKS

variable {rest : List (Nat × Nat)} {fs : List Nat} {s : DiskSt}

theorem setInfoDisk_of_loop {info : List DiskInfo} {k f : Nat}
    (h : diskLoop f (outdir datadir d) (dirCode dir1 d) s.info = some (info, k)) :
    setInfoDisk dir1 datadir ⟨true, true, f⟩ d s = some ⟨info, some k, s.members⟩ := by
  rw [setInfoDisk, h]
  rfl

theorem Plan.dirCode_ne_zero (h : Plan dir1 fsidOf (P ++ d :: rest)) (hP : P ≠ []) :
    dirCode dir1 d ≠ 0 := by
  obtain ⟨h1, h2⟩ := h.range d (mem_append_right _ mem_cons_self)
  intro hcode
  have hnat := dirCode_toNat h1 h2 h.size
  rw [hcode] at hnat
  have hd : d = (0, 0) := by
    refine Prod.ext ?_ ?_
    · exact (Nat.mul_eq_zero.mp (Nat.eq_zero_of_add_eq_zero_right hnat.symm)).resolve_right
        (by omega)
    · exact Nat.eq_zero_of_add_eq_zero_left hnat.symm
  obtain ⟨a, l, rfl⟩ := exists_cons_of_ne_nil hP
  have ha : a = (0, 0) := Option.some.inj h.head
  have hnodup := h.nodup
  rw [hd, ← ha, cons_append, nodup_cons] at hnodup
  exact hnodup.1 (mem_append_right _ mem_cons_self)

theorem Plan.dirCode_not_mem (h : Plan dir1 fsidOf (P ++ d :: rest)) (f : Nat) :
    dirCode dir1 d ∉ codesOn dir1 fsidOf P f := by
  intro hmem
  obtain ⟨e, he, hcode⟩ := mem_map.mp (mem_of_mem_filter hmem)
  have heP : e ∈ P := mem_of_mem_filter he
  obtain ⟨e1, e2⟩ := h.range e (mem_append_left _ heP)
  obtain ⟨h1, h2⟩ := h.range d (mem_append_right _ mem_cons_self)
  have hed : e = d := by
    rw [← codeDir_dirCode e1 e2 h.size, hcode, codeDir_dirCode h1 h2 h.size]
  have hdisj := (nodup_append.mp h.nodup).2.2 e heP d mem_cons_self
  exact hdisj hed

theorem Filled.room (hs : Filled dir1 datadir fsidOf P fs s) (h : Plan dir1 fsidOf (P ++ d :: rest))
    (hnew : fsidOf d ∉ fs) : fs.length < MAXDISKS := by
  have hnodup : (fsidOf d :: fs).Nodup := nodup_cons.mpr ⟨hnew, hs.nodup⟩
  have hsub : fsidOf d :: fs ⊆ ((P ++ d :: rest).map fsidOf).dedup := by
    intro f hf
    rw [mem_dedup, mem_map]
    obtain rfl | hf := mem_cons.mp hf
    · exact ⟨d, mem_append_right _ mem_cons_self, rfl⟩
    · obtain ⟨e, he, hef⟩ := (hs.mem f).mp hf
      exact ⟨e, mem_append_left _ he, hef⟩
  exact Nat.lt_of_lt_of_le (hnodup.subperm hsub).length_le h.disks

theorem Filled.disk (hs : Filled dir1 datadir fsidOf P fs s) : ∀ f ∈ fs,
    (diskOf dir1 datadir fsidOf P f).count ≠ 0 ∧ (diskOf dir1 datadir fsidOf P f).fsid = f := by
  intro f hf
  obtain ⟨e, he, hef⟩ := (hs.mem f).mp hf
  refine ⟨fun h0 => ?_, rfl⟩
  have hmem : e ∈ dirsOn fsidOf P f := mem_filter.mpr ⟨he, by simpa using hef⟩
  rw [length_eq_zero_iff.mp h0] at hmem
  cases hmem

theorem Plan.slot (h : Plan dir1 fsidOf (P ++ d :: rest)) (hne : dirsOn fsidOf P (fsidOf d) ≠ []) :
    (diskOf dir1 datadir fsidOf P (fsidOf d)).count < TOTALDIRS ∧
      slotLoop (dirCode dir1 d) (diskOf dir1 datadir fsidOf P (fsidOf d)) TOTALDIRS 0 =
        some (diskOf dir1 datadir fsidOf (P ++ [d]) (fsidOf d)) := by
  have hcode := h.dirCode_ne_zero fun hP => hne (by rw [hP]; rfl)
  have hcount : (diskOf dir1 datadir fsidOf P (fsidOf d)).count < TOTALDIRS := by
    have hle := length_filter_le (fun x => fsidOf x == fsidOf d) P
    have htotal := h.total
    rw [length_append, length_cons] at htotal
    exact Nat.lt_of_le_of_lt hle (by omega)
  have hlen : (codesOn dir1 fsidOf P (fsidOf d)).length < 0 + TOTALDIRS := by
    have hle := length_filter_le (· != 0) ((dirsOn fsidOf P (fsidOf d)).map (dirCode dir1))
    rw [length_map] at hle
    rw [Nat.zero_add]
    exact Nat.lt_of_le_of_lt hle hcount
  rw [diskOf_append hne hcode]
  exact ⟨hcount, slotLoop_eq rfl (fun h0 => by simpa using of_mem_filter h0) hcode
    (h.dirCode_not_mem _) (Nat.zero_le _) hlen⟩

theorem setInfoDisk_filled (h : Plan dir1 fsidOf (P ++ d :: rest))
    (hs : Filled dir1 datadir fsidOf P fs s) :
    ∃ fs' s', setInfoDisk dir1 datadir ⟨true, true, fsidOf d⟩ d s = some s' ∧
      Filled dir1 datadir fsidOf (P ++ [d]) fs' s' ∧ s'.members = s.members ∧
        s'.maxDisk ≠ none := by
  have hmem : ∀ f, (∃ e ∈ P ++ [d], fsidOf e = f) ↔ (∃ e ∈ P, fsidOf e = f) ∨ fsidOf d = f := by
    intro f
    simp [or_and_right, exists_or]
  by_cases hd : fsidOf d ∈ fs
  · have hne : dirsOn fsidOf P (fsidOf d) ≠ [] := by
      intro hnil
      exact (hs.disk _ hd).1 (length_eq_zero_iff.mpr hnil)
    obtain ⟨hcount, hslot⟩ := h.slot hne
    obtain ⟨k, hk⟩ := diskLoop_mem (outdir datadir d)
      (List.replicate (MAXDISKS - fs.length) DiskInfo.zero) hs.disk hd hs.nodup hcount hslot
    rw [← tableOf, ← hs.info] at hk
    refine ⟨fs, _, setInfoDisk_of_loop hk, ⟨?_, hs.nodup, ?_⟩, rfl, Option.some_ne_none k⟩
    · have hmap : fs.map (update (diskOf dir1 datadir fsidOf P) (fsidOf d)
          (diskOf dir1 datadir fsidOf (P ++ [d]) (fsidOf d))) =
          fs.map (diskOf dir1 datadir fsidOf (P ++ [d])) := by
        refine map_congr_left fun f _ => ?_
        by_cases hf : f = fsidOf d
        · rw [hf, update_self]
        · rw [update_of_ne hf, diskOf_append_of_ne (Ne.symm hf)]
      rw [tableOf, hmap]
    · intro f
      rw [hmem, ← hs.mem]
      exact ⟨.inl, fun hor => hor.elim id fun hf => hf ▸ hd⟩
  · have hroom := hs.room h hd
    have hnil : dirsOn fsidOf P (fsidOf d) = [] := by
      refine filter_eq_nil_iff.mpr fun e he hef => hd ((hs.mem _).mpr ⟨e, he, by simpa using hef⟩)
    obtain ⟨n, hn⟩ : ∃ n, MAXDISKS - fs.length = n + 1 := ⟨MAXDISKS - fs.length - 1, by omega⟩
    obtain ⟨k, hk⟩ := diskLoop_new (outdir datadir d) (dirCode dir1 d)
      (List.replicate n DiskInfo.zero) hs.disk hd
    rw [← replicate_succ, ← hn, ← tableOf, ← hs.info] at hk
    refine ⟨fs ++ [fsidOf d], _, setInfoDisk_of_loop hk, ⟨?_, ?_, ?_⟩, rfl, Option.some_ne_none k⟩
    · have hmap : fs.map (diskOf dir1 datadir fsidOf (P ++ [d])) =
          fs.map (diskOf dir1 datadir fsidOf P) :=
        map_congr_left fun f hf => diskOf_append_of_ne fun he => hd (he ▸ hf)
      have hn' : MAXDISKS - (fs.length + 1) = n := by omega
      rw [tableOf, map_append, map_singleton, hmap, diskOf_first hnil, length_append,
        length_singleton, hn', append_assoc]
      rfl
    · exact nodup_append.mpr ⟨hs.nodup, nodup_singleton _, fun a ha b hb hab =>
        hd (mem_singleton.mp hb ▸ hab ▸ ha)⟩
    · intro f
      rw [hmem, ← hs.mem, mem_append, mem_singleton, eq_comm (a := f)]

theorem infoLoop_filled (h : Plan dir1 fsidOf (P ++ rest)) (hs : Filled dir1 datadir fsidOf P fs s)
    (hmax : P ≠ [] → s.maxDisk ≠ none) :
    ∃ fs' s', infoLoop dir1 datadir (fun d => ⟨true, true, fsidOf d⟩) rest s = some s' ∧
      Filled dir1 datadir fsidOf (P ++ rest) fs' s' ∧ s'.members = s.members ∧
      (P ++ rest ≠ [] → s'.maxDisk ≠ none) := by
  induction rest generalizing P fs s with
  | nil => exact ⟨fs, s, rfl, by rwa [append_nil], rfl, by rwa [append_nil]⟩
  | cons d rest ih =>
    obtain ⟨fs1, s1, hstep, hs1, hm1, hmax1⟩ := setInfoDisk_filled h hs
    rw [append_cons] at h ⊢
    obtain ⟨fs', s', hrun, hs', hm', hmax'⟩ := ih h hs1 fun _ => hmax1
    refine ⟨fs', s', ?_, hs', hm'.trans hm1, hmax'⟩
    rw [infoLoop, hstep]
    exact hrun

end Table

/-- The state before `refresh_disk_info`: the table is empty. -/
def DiskSt.start (members : List ErrMember) : DiskSt :=
  ⟨List.replicate MAXDISKS DiskInfo.zero, none, members⟩

variable {dir1 : Nat}

theorem plan_dirPairs {dir2 : Nat} (h2 : 0 < dir2) (hle : dir2 ≤ dir1)
    (htotal : dir1 * dir2 ≤ TOTALDIRS) {fsidOf : Nat × Nat → Nat}
    (hdisks : ((dirPairs dir1 dir2).map fsidOf).dedup.length ≤ MAXDISKS) :
    Plan dir1 fsidOf (dirPairs dir1 dir2) where
  size := Nat.le_trans (Nat.le_mul_of_pos_right _ h2) htotal
  total := by rwa [length_dirPairs]
  nodup := nodup_dirPairs dir1 dir2
  head := by
    obtain ⟨n, rfl⟩ : ∃ n, dir2 = n + 1 := ⟨dir2 - 1, by omega⟩
    obtain ⟨m, rfl⟩ : ∃ m, dir1 = m + 1 := ⟨dir1 - 1, by omega⟩
    rw [dirPairs, range_succ_eq_map, range_succ_eq_map]
    rfl
  range := by
    intro d hd
    obtain ⟨hd1, hd2⟩ := mem_dirPairs.mp hd
    exact ⟨hd1, Nat.lt_of_lt_of_le hd2 hle⟩
  disks := hdisks

theorem refreshDiskInfo_filled {dir2 : Nat} (datadir : Path) {fsidOf : Nat × Nat → Nat}
    (members : List ErrMember) (h : Plan dir1 fsidOf (dirPairs dir1 dir2)) :
    ∃ fs s, refreshDiskInfo dir1 dir2 datadir (fun d => ⟨true, true, fsidOf d⟩) (.start members) =
      some s ∧
      Filled dir1 datadir fsidOf (dirPairs dir1 dir2) fs s ∧ s.members = members := by
  have hstart : Filled dir1 datadir fsidOf [] [] (.start members) :=
    ⟨rfl, nodup_nil, fun f => by simp⟩
  obtain ⟨fs, s, hrun, hs, hm, hmax⟩ :=
    @infoLoop_filled dir1 datadir fsidOf [] (dirPairs dir1 dir2) [] _ h hstart fun h => absurd rfl h
  rw [nil_append] at hs hmax
  have hne : dirPairs dir1 dir2 ≠ [] := by
    intro hnil
    have hhead := h.head
    rw [hnil] at hhead
    cases hhead
  refine ⟨fs, s, ?_, hs, hm⟩
  rw [refreshDiskInfo, hrun, Option.bind_some, if_neg (hmax hne)]

/-! ## 4. The calls of `get_max_free_storage` -/

section Gets

variable {dir1 dir2 : Nat} {datadir : Path} {fsidOf : Nat × Nat → Nat} {s s₀ : DiskSt}

theorem getMaxFreeStorage_some {p : Nat × Nat} {s' : DiskSt}
    (h : getMaxFreeStorage dir1 s = some (p, s')) : ∃ k d, s.info[k]? = some d ∧
      p = codeDir dir1 (d.pathcluster d.index) ∧
      s' = { s with info := s.info.set k { d with index := cursorNext d.count d.index } } := by
  unfold getMaxFreeStorage at h
  split at h
  · cases h
  rename_i k _
  split at h
  · cases h
  rename_i d hd
  cases h
  exact ⟨k, d, hd, rfl, rfl⟩

theorem gets_eq {k : Nat} {d : DiskInfo} (n : Nat) (hk : s.maxDisk = some k)
    (hd : s.info[k]? = some d) :
    gets dir1 n s = (visits d.count n d.index).map fun i => codeDir dir1 (d.pathcluster i) := by
  induction n generalizing s d with
  | zero => rfl
  | succ n ih =>
    have hlt : k < s.info.length := (List.getElem?_eq_some_iff.mp hd).1
    have hget : getMaxFreeStorage dir1 s = some (codeDir dir1 (d.pathcluster d.index),
        { s with info := s.info.set k { d with index := cursorNext d.count d.index } }) := by
      simp only [getMaxFreeStorage, hk, hd]
    have hrest := ih
      (s := { s with info := s.info.set k { d with index := cursorNext d.count d.index } }) hk
      (getElem?_set_self hlt)
    rw [gets, hget, visits, map_cons]
    exact congrArg (List.cons _) hrest

/-- What calls, refreshes and reports leave of the table: everything but the cursors. -/
def SameDirs (s₀ s : DiskSt) : Prop :=
  ∀ (k : Nat) (d : DiskInfo), s.info[k]? = some d → ∃ d₀ ∈ s₀.info, d.fsid = d₀.fsid ∧
    d.count = d₀.count ∧ d.pathcluster = d₀.pathcluster ∧ (0 < d.count → d.index < d.count)

theorem SameDirs.next {s' : DiskSt} {a : DiskAct} (h : SameDirs s₀ s)
    (hs : diskNext dir1 s a = some s') :
    SameDirs s₀ s' := by
  cases a with
  | get =>
    obtain ⟨⟨p, _⟩, hget, rfl⟩ := Option.map_eq_some_iff.mp hs
    obtain ⟨k, d, hd, -, rfl⟩ := getMaxFreeStorage_some hget
    obtain ⟨d₀, hd₀, hf, hc, hp, hi⟩ := h k d hd
    intro j e he
    rw [getElem?_set] at he
    split at he
    · split at he
      · cases he
        exact ⟨d₀, hd₀, hf, hc, hp, fun hpos => cursorNext_lt (hi hpos)⟩
      · cases he
    · exact h j e he
  | refresh pfsTest st =>
    cases hs
    exact h
  | report errdisk ip =>
    cases hs
    exact h

theorem entries_perm (l : List UInt32) :
    ((List.range l.length).map fun i => ((l.filter (· != 0))[i]?).getD 0).Perm l := by
  have hle : (l.filter (· != 0)).length ≤ l.length := length_filter_le _ _
  have hzero : l.filter (fun c => !(c != 0)) =
      List.replicate (l.length - (l.filter (· != 0)).length) 0 := by
    refine eq_replicate_iff.mpr ⟨?_, fun c hc => by simpa using of_mem_filter hc⟩
    have hsum := length_eq_length_filter_add (l := l) (· != 0)
    omega
  have hlist : (List.range l.length).map (fun i => ((l.filter (· != 0))[i]?).getD 0) =
      l.filter (· != 0) ++ l.filter fun c => !(c != 0) := by
    rw [hzero]
    refine ext_getElem (by simp; omega) fun i hi _ => ?_
    rw [getElem_map, getElem_range, getElem_append]
    split
    · rename_i h
      rw [getElem?_eq_getElem h, Option.getD_some]
    · rename_i h
      rw [getElem?_eq_none (Nat.le_of_not_lt h), getElem_replicate, Option.getD_none]
  rw [hlist]
  exact filter_append_perm _ _

theorem diskOf_perm {P : List (Nat × Nat)} (hsize : dir1 ≤ TOTALDIRS)
    (hrange : ∀ d ∈ P, d.1 < dir1 ∧ d.2 < dir1) (f : Nat) :
    ((List.range (dirsOn fsidOf P f).length).map fun i =>
      codeDir dir1 ((diskOf dir1 datadir fsidOf P f).pathcluster i)).Perm (dirsOn fsidOf P f) := by
  have hperm := (entries_perm ((dirsOn fsidOf P f).map (dirCode dir1))).map (codeDir dir1)
  have hback : ((dirsOn fsidOf P f).map (dirCode dir1)).map (codeDir dir1) = dirsOn fsidOf P f := by
    rw [map_map]
    refine (map_congr_left fun d hd => ?_).trans (map_id _)
    obtain ⟨h1, h2⟩ := hrange d (mem_of_mem_filter hd)
    exact codeDir_dirCode h1 h2 hsize
  rw [hback, length_map, map_map] at hperm
  exact hperm

theorem Filled.of_mem {P : List (Nat × Nat)} {fs : List Nat}
    (hs : Filled dir1 datadir fsidOf P fs s) {d : DiskInfo} (hd : d ∈ s.info) (hpos : 0 < d.count) :
    d = diskOf dir1 datadir fsidOf P d.fsid := by
  rw [hs.info, tableOf, mem_append] at hd
  obtain hd | hd := hd
  · obtain ⟨f, -, rfl⟩ := mem_map.mp hd
    rfl
  · rw [eq_of_mem_replicate hd] at hpos
    cases hpos

/-- Every directory of a disk is returned once in as many calls as the disk has directories, from
    the table `s`, after any calls, refreshes and reports. -/
structure EachOnce (dir1 dir2 : Nat) (fsidOf : Nat × Nat → Nat) (s : DiskSt) : Prop where
  count : ∀ d ∈ s.info, 0 < d.count → d.count = (dirsOn fsidOf (dirPairs dir1 dir2) d.fsid).length
  disk : ∀ p ∈ dirPairs dir1 dir2, ∃ d ∈ s.info, 0 < d.count ∧ d.fsid = fsidOf p
  perm : ∀ s', Reach (diskNext dir1) s s' → ∀ k d, s'.maxDisk = some k → s'.info[k]? = some d →
    0 < d.count → (gets dir1 d.count s').Perm (dirsOn fsidOf (dirPairs dir1 dir2) d.fsid)

theorem eachOnce_of_le (members : List ErrMember) (h2 : 0 < dir2) (hle : dir2 ≤ dir1)
    (htotal : dir1 * dir2 ≤ TOTALDIRS)
    (hdisks : ((dirPairs dir1 dir2).map fsidOf).dedup.length ≤ MAXDISKS) :
    ∃ s, refreshDiskInfo dir1 dir2 datadir (fun d => ⟨true, true, fsidOf d⟩) (.start members) =
      some s ∧ EachOnce dir1 dir2 fsidOf s := by
  have hplan := plan_dirPairs h2 hle htotal hdisks
  obtain ⟨fs, s, hrefresh, hs, -⟩ := refreshDiskInfo_filled datadir members hplan
  have hcount : ∀ d ∈ s.info, 0 < d.count →
      d.count = (dirsOn fsidOf (dirPairs dir1 dir2) d.fsid).length :=
    fun d hd hpos => congrArg DiskInfo.count (hs.of_mem hd hpos)
  refine ⟨s, hrefresh, hcount, ?_, ?_⟩
  · intro p hp
    have hf : fsidOf p ∈ fs := (hs.mem _).mpr ⟨p, hp, rfl⟩
    refine ⟨diskOf dir1 datadir fsidOf (dirPairs dir1 dir2) (fsidOf p), ?_,
      Nat.pos_of_ne_zero (hs.disk _ hf).1, rfl⟩
    rw [hs.info, tableOf, mem_append]
    exact .inl (mem_map_of_mem hf)
  · intro s' hrun k d hk hd hpos
    have hstart : SameDirs s s := by
      intro j e he
      refine ⟨e, mem_of_getElem? he, rfl, rfl, rfl, fun he0 => ?_⟩
      have hzero : e.index = 0 := congrArg DiskInfo.index (hs.of_mem (mem_of_getElem? he) he0)
      omega
    obtain ⟨d₀, hd₀, hf, hc, hp, hi⟩ :=
      Run.inv hstart (fun _ _ _ h _ hstep => h.next hstep) hrun k d hd
    have hd₀pos : 0 < d₀.count := hc ▸ hpos
    have hvisits := (visits_perm (hi hpos)).map fun i => codeDir dir1 (d.pathcluster i)
    rw [gets_eq d.count hk hd]
    refine hvisits.trans ?_
    have hperm := @diskOf_perm dir1 datadir fsidOf _ hplan.size hplan.range d.fsid
    rw [hp, hc, hcount d₀ hd₀ hd₀pos, ← hf]
    have hdisk := congrArg DiskInfo.pathcluster (hs.of_mem hd₀ hd₀pos)
    rwa [hdisk, ← hf]

/-- No call returns a second-level number from `DIR1` on. -/
theorem mem_gets (h1 : 0 < dir1) {n : Nat} {p : Nat × Nat} (hp : p ∈ gets dir1 n s) :
    p.2 < dir1 := by
  induction n generalizing s with
  | zero => cases hp
  | succ n ih =>
    rw [gets] at hp
    split at hp
    · cases hp
    rename_i hget
    obtain ⟨k, e, -, hcode, -⟩ := getMaxFreeStorage_some hget
    obtain rfl | hp := mem_cons.mp hp
    · rw [hcode]
      exact Nat.mod_lt _ h1
    · exact ih hp

/-- All directories so far are on one disk, the first of the table. -/
def OneDisk (f : Nat) (s : DiskSt) : Prop :=
  ∃ d ds, s.info = d :: ds ∧
    (d.count = 0 ∧ s.maxDisk = none ∨ 0 < d.count ∧ d.fsid = f ∧ s.maxDisk = some 0)

theorem slotLoop_some {dirs : UInt32} {d d' : DiskInfo} {k j : Nat}
    (h : slotLoop dirs d k j = some d') : d'.fsid = d.fsid ∧ d.count ≤ d'.count := by
  induction k generalizing j with
  | zero => cases h
  | succ k ih =>
    rw [slotLoop] at h
    split at h
    · cases h
      exact ⟨rfl, Nat.le_refl _⟩
    split at h
    · cases h
      exact ⟨rfl, Nat.le_succ _⟩
    · exact ih h

theorem OneDisk.infoLoop {f : Nat} {ps : List (Nat × Nat)} {s' : DiskSt} (h : OneDisk f s)
    (hrun : infoLoop dir1 datadir (fun _ => ⟨true, true, f⟩) ps s = some s') : OneDisk f s' := by
  induction ps generalizing s with
  | nil =>
    cases hrun
    exact h
  | cons p ps ih =>
    obtain ⟨s₁, hset, hrun⟩ := Option.bind_eq_some_iff.mp hrun
    refine ih ?_ hrun
    obtain ⟨⟨info, k⟩, hloop, rfl⟩ := Option.map_eq_some_iff.mp hset
    obtain ⟨d, ds, hinfo, ⟨hzero, -⟩ | ⟨hpos, hfsid, -⟩⟩ := h
    · rw [hinfo, diskLoop, if_pos hzero] at hloop
      cases hloop
      exact ⟨_, ds, rfl, .inr ⟨Nat.one_pos, rfl, rfl⟩⟩
    · rw [hinfo, diskLoop, if_neg (by omega), if_pos hfsid] at hloop
      split at hloop
      · cases hloop
      obtain ⟨d', hslot, hr⟩ := Option.map_eq_some_iff.mp hloop
      cases hr
      obtain ⟨hsame, hle⟩ := slotLoop_some hslot
      exact ⟨d', ds, rfl, .inr ⟨Nat.lt_of_lt_of_le hpos hle, hsame.trans hfsid, rfl⟩⟩

/-- **Every directory of a disk is returned once** in as many calls as it has directories, from the
    table that `refresh_disk_info` fills, wherever the directories are, exactly if no second-level
    number reaches `DIR1`. -/
theorem gets_perm (dir1 dir2 : Nat) (datadir : Path) (members : List ErrMember) (h1 : 0 < dir1)
    (h2 : 0 < dir2) (htotal : dir1 * dir2 ≤ TOTALDIRS) :
    (∀ fsidOf : Nat × Nat → Nat, ((dirPairs dir1 dir2).map fsidOf).dedup.length ≤ MAXDISKS →
      ∃ s, refreshDiskInfo dir1 dir2 datadir (fun d => ⟨true, true, fsidOf d⟩) (.start members) =
        some s ∧ EachOnce dir1 dir2 fsidOf s) ↔ dir2 ≤ dir1 := by
  constructor
  · intro h
    by_contra hlt
    -- on one disk, the directory (0, DIR1) is among those that have to be returned
    have hone : ((dirPairs dir1 dir2).map fun _ => 7).dedup.length ≤ MAXDISKS := by
      have hsub : ((dirPairs dir1 dir2).map fun _ => 7).dedup ⊆ [7] := by
        intro f hf
        obtain ⟨p, -, rfl⟩ := mem_map.mp (mem_dedup.mp hf)
        exact mem_singleton_self 7
      exact Nat.le_trans ((nodup_dedup _).subperm hsub).length_le (by decide)
    obtain ⟨s, hs, heach⟩ := h (fun _ => 7) hone
    obtain ⟨s₁, hrun, hmax⟩ := Option.bind_eq_some_iff.mp hs
    split at hmax
    · cases hmax
    cases hmax
    obtain ⟨d, ds, hinfo, ⟨-, hnone⟩ | ⟨hpos, hfsid, hk⟩⟩ := OneDisk.infoLoop (f := 7)
      ⟨DiskInfo.zero, _, rfl, .inl ⟨rfl, rfl⟩⟩ hrun
    · contradiction
    have hperm := heach.perm s .start 0 d hk (by rw [hinfo]; rfl) hpos
    have hmem : (0, dir1) ∈ dirsOn (fun _ => 7) (dirPairs dir1 dir2) d.fsid := by
      rw [dirsOn, mem_filter, mem_dirPairs, hfsid]
      exact ⟨⟨h1, Nat.not_le.mp hlt⟩, rfl⟩
    exact Nat.lt_irrefl _ (mem_gets h1 (hperm.mem_iff.mpr hmem))
  · exact fun hle fsidOf hdisks => eachOnce_of_le members h2 hle htotal hdisks

/-- One disk with the directories of a square layout. -/
theorem gets_perm_square :
    ∃ s, refreshDiskInfo 2 2 [] (fun _ => ⟨true, true, 7⟩) (.start []) = some s ∧
      EachOnce 2 2 (fun _ => 7) s :=
  (gets_perm 2 2 [] [] (by decide) (by decide) (by decide)).mpr (by decide) (fun _ => 7) (by decide)

/-- With one directory on the first level and two on the second, the disk counts both, and the calls
    return a directory that does not exist. -/
theorem gets_wrong :
    ((refreshDiskInfo 1 2 [] (fun _ => ⟨true, true, 7⟩) (.start [])).map fun s =>
        (s.maxDisk, (s.info.head?.map DiskInfo.count), gets 1 2 s)) =
      some (some 0, some 2, [(1, 0), (0, 0)]) ∧
      dirsOn (fun _ => 7) (dirPairs 1 2) 7 = [(0, 0), (0, 1)] := by
  decide

end Gets

/-! ## 5. The disk with the most free space -/

/-- The disks that have directories: the table is filled from the front. -/
def populated (info : List DiskInfo) : Nat := (info.takeWhile fun d => d.count != 0).length

/-- `lstat` or `statfs` fails. -/
def DiskStat.failed (st : DiskStat) : Bool := !st.lstat || st.statfs.isNone

/-- The free space in gigabytes. -/
def DiskStat.freeGb (st : DiskStat) : Nat := (st.statfs.map fun f => f.1 * f.2 / 2 ^ 30).getD 0

/-- A disk that no member has trouble with. -/
def Healthy (st : Nat → DiskStat) (s : DiskSt) (i : Nat) : Prop :=
  i < populated s.info ∧ (st i).failed = false ∧ ∀ m ∈ s.members, m.errdisk i = 0

section Choice

variable {st : Nat → DiskStat} {ms : List ErrMember}

/-- Disk `i` is tried. -/
def selfUpdate (st : Nat → DiskStat) (ms : List ErrMember) (i : Nat) : List ErrMember :=
  setSelfDiskErr i (if (st i).failed then 1 else 0) ms

variable {i : Nat} {ds : List DiskInfo} {b : Best}

theorem checkDomainDiskErr_set {j : Nat} (v : UInt8) (h : j % MAXDISKS ≠ i % MAXDISKS) :
    checkDomainDiskErr i (setSelfDiskErr j v ms) = checkDomainDiskErr i ms := by
  induction ms with
  | nil => rfl
  | cons m ms ih =>
    rw [setSelfDiskErr]
    split
    · simp only [checkDomainDiskErr, any_cons, update_of_ne (Ne.symm h)]
    · simp only [checkDomainDiskErr, any_cons] at ih ⊢
      rw [ih]

theorem checkDomainDiskErr_updates (l : List Nat) (h : ∀ j ∈ l, j % MAXDISKS ≠ i % MAXDISKS) :
    checkDomainDiskErr i (l.foldl (selfUpdate st) ms) = checkDomainDiskErr i ms := by
  induction l generalizing ms with
  | nil => rfl
  | cons j l ih =>
    rw [foldl_cons, ih fun k hk => h k (mem_cons_of_mem _ hk), selfUpdate,
      checkDomainDiskErr_set _ (h j mem_cons_self)]

/-- The second has more space. -/
def moreFree (a b : Best) : Bool := decide (a.curmaxvalue < b.curmaxvalue)

/-- A disk as the best so far. -/
def candidate (st : Nat → DiskStat) (i : Nat) : Best := ⟨(st i).freeGb, i⟩

theorem prefers_moreFree :
    Prefers (fun a b : Best => a.curmaxvalue ≤ b.curmaxvalue) moreFree where
  refl _ := Nat.le_refl _
  trans _ _ _ := Nat.le_trans
  up a b h := by
    have := of_decide_eq_true h
    omega
  down a b h := by
    have := of_decide_eq_false h
    omega

theorem diskfree_eq {sfs : Nat × Nat} (h : sfs.1 * sfs.2 < 2 ^ 62) :
    diskfree sfs = sfs.1 * sfs.2 / 2 ^ 30 ∧ diskfree sfs < 2 ^ 32 := by
  rw [diskfree, Nat.mod_eq_of_lt (by omega)]
  exact ⟨rfl, by omega⟩

/-- The disks that the loop does not skip. -/
def candidates (st : Nat → DiskStat) (ms : List ErrMember) (l : List Nat) : List Nat :=
  l.filter fun i => !(st i).failed && !checkDomainDiskErr i ms

/-- Disks that are not skipped and are too large for the numbers of the loop do not occur. -/
def Small (st : Nat → DiskStat) (l : List Nat) : Prop :=
  ∀ i ∈ l, ∀ sfs, (st i).statfs = some sfs → sfs.1 * sfs.2 < 2 ^ 62

/-- The best so far, or disk `i`. -/
def considered (st : Nat → DiskStat) (i : Nat) (b : Best) : Best :=
  match (st i).statfs with
  | none => b
  | some sfs => if b.curmaxvalue < diskfree sfs then ⟨diskfree sfs % 2 ^ 32, i⟩ else b

theorem considered_eq (b : Best) (hok : (st i).failed = false)
    (hsmall : ∀ sfs, (st i).statfs = some sfs → sfs.1 * sfs.2 < 2 ^ 62) :
    considered st i b = keep moreFree b (candidate st i) := by
  cases hsfs : (st i).statfs with
  | none =>
    rw [DiskStat.failed, hsfs] at hok
    simp at hok
  | some sfs =>
    obtain ⟨hfree, hlt⟩ := diskfree_eq (hsmall sfs hsfs)
    have hgb : (st i).freeGb = diskfree sfs := by
      rw [DiskStat.freeGb, hsfs, hfree]
      rfl
    rw [considered, hsfs]
    simp only [keep, moreFree, candidate, hgb, Nat.mod_eq_of_lt hlt, decide_eq_true_eq]

theorem maxfreeLoop_round {d : DiskInfo} (hd : d.count ≠ 0) :
    maxfreeLoop false st (d :: ds) i ms b =
      maxfreeLoop false st ds (i + 1) (selfUpdate st ms i)
        (if !(st i).failed && !checkDomainDiskErr i (selfUpdate st ms i) then
          considered st i b else b) := by
  rw [maxfreeLoop, if_neg hd, selfUpdate, considered]
  cases hl : (st i).lstat with
  | false => simp [DiskStat.failed, hl]
  | true =>
    cases hsfs : (st i).statfs with
    | none => simp [DiskStat.failed, hsfs]
    | some sfs =>
      have hok : (st i).failed = false := by rw [DiskStat.failed, hl, hsfs]; rfl
      simp only [hok, Bool.false_and, Bool.false_eq_true, if_false, Bool.not_false, Bool.true_and,
        Bool.not_eq_true']
      cases checkDomainDiskErr i (setSelfDiskErr i 0 ms) with
      | true => rfl
      | false =>
        simp only [Bool.false_eq_true, if_false, if_true]
        split <;> rfl

theorem populated_cons {d : DiskInfo} (ds : List DiskInfo) (hd : d.count ≠ 0) :
    populated (d :: ds) = populated ds + 1 := by
  simp [populated, hd]

theorem populated_le (info : List DiskInfo) : populated info ≤ info.length :=
  (takeWhile_sublist _).length_le

/-- The members after the rounds for `n` disks from `i` on. -/
def selfUpdates (st : Nat → DiskStat) (ms : List ErrMember) (i n : Nat) : List ErrMember :=
  (List.range' i n).foldl (selfUpdate st) ms

/-- Those not skipped. -/
def eligible (st : Nat → DiskStat) (ms : List ErrMember) (i n : Nat) : List Nat :=
  candidates st (selfUpdates st ms i n) (List.range' i n)

theorem maxfreeLoop_members :
    (maxfreeLoop false st ds i ms b).1 = selfUpdates st ms i (populated ds) := by
  induction ds generalizing i ms b with
  | nil => rfl
  | cons d ds ih =>
    by_cases hd : d.count = 0
    · have hnone : populated (d :: ds) = 0 := by
        simp [populated, hd]
      rw [maxfreeLoop, if_pos hd, hnone]
      rfl
    · rw [maxfreeLoop_round hd, ih, populated_cons ds hd]
      rfl

theorem maxfreeLoop_best {ds : List DiskInfo} {i : Nat} {b : Best} (hlen : i + ds.length ≤ MAXDISKS)
    (hsmall : Small st (eligible st ms i (populated ds))) : (maxfreeLoop false st ds i ms b).2 =
      ((eligible st ms i (populated ds)).map (candidate st)).foldl (keep moreFree) b := by
  induction ds generalizing i ms b with
  | nil => rfl
  | cons d ds ih =>
    rw [length_cons] at hlen
    by_cases hd : d.count = 0
    · have hnone : populated (d :: ds) = 0 := by
        simp [populated, hd]
      rw [maxfreeLoop, if_pos hd, hnone]
      rfl
    have hle := populated_le ds
    -- what is known of disk `i` when it is looked at is known at the end
    have hcheck : checkDomainDiskErr i
        (selfUpdates st (selfUpdate st ms i) (i + 1) (populated ds)) =
        checkDomainDiskErr i (selfUpdate st ms i) := by
      refine checkDomainDiskErr_updates _ fun j hj => ?_
      rw [mem_range'_1] at hj
      rw [Nat.mod_eq_of_lt (by omega), Nat.mod_eq_of_lt (by omega)]
      omega
    rw [populated_cons ds hd, eligible, selfUpdates, range'_succ, foldl_cons, ← selfUpdates,
      candidates, filter_cons, hcheck, ← candidates, ← eligible] at hsmall ⊢
    rw [maxfreeLoop_round hd]
    split at hsmall
    · rename_i hcand
      have hok : (st i).failed = false := by simpa using (Bool.and_eq_true_iff.mp hcand).1
      rw [if_pos hcand, if_pos hcand, map_cons, foldl_cons,
        considered_eq b hok (hsmall i mem_cons_self)]
      exact ih (by omega) fun j hj => hsmall j (mem_cons_of_mem _ hj)
    · rename_i hskip
      rw [if_neg hskip, if_neg hskip]
      exact ih (by omega) hsmall

theorem find_setSelfDiskErr (k : Nat) (v : UInt8) (ms : List ErrMember) :
    (setSelfDiskErr k v ms).find? ErrMember.self = (ms.find? ErrMember.self).map fun m =>
      { m with errdisk := update m.errdisk (k % MAXDISKS) v } := by
  induction ms with
  | nil => rfl
  | cons m ms ih =>
    rw [setSelfDiskErr]
    cases hm : m.self with
    | true => simp [hm]
    | false => simp [hm, ih]

theorem errdisk_updates {l : List Nat} (hl : ∀ j ∈ l, j < MAXDISKS) {m' : ErrMember}
    (h : (l.foldl (selfUpdate st) ms).find? ErrMember.self = some m') :
    ∃ m, ms.find? ErrMember.self = some m ∧ ∀ i,
      m'.errdisk i = if i ∈ l then (if (st i).failed then 1 else 0) else m.errdisk i := by
  induction l generalizing ms with
  | nil => exact ⟨m', h, fun i => by simp⟩
  | cons j l ih =>
    rw [foldl_cons] at h
    obtain ⟨m, hm, herr⟩ := ih (fun k hk => hl k (mem_cons_of_mem _ hk)) h
    rw [selfUpdate, find_setSelfDiskErr, Option.map_eq_some_iff] at hm
    obtain ⟨m₀, hm₀, rfl⟩ := hm
    refine ⟨m₀, hm₀, fun i => ?_⟩
    rw [herr i, Nat.mod_eq_of_lt (hl j mem_cons_self)]
    by_cases hij : i = j
    · subst hij
      simp
    · simp [hij]

theorem maxfreeLoop_cons {pfsTest : Bool} {d : DiskInfo} {ds : List DiskInfo} {i : Nat} {b : Best}
    (hd : d.count ≠ 0) : ∃ v b', maxfreeLoop pfsTest st (d :: ds) i ms b =
      maxfreeLoop pfsTest st ds (i + 1) (setSelfDiskErr i v ms) b' := by
  rw [maxfreeLoop, if_neg hd]
  split
  · exact ⟨1, b, rfl⟩
  · exact ⟨1, b, rfl⟩
  split
  · exact ⟨1, b, rfl⟩
  refine ⟨0, ?_⟩
  simp only
  split
  · exact ⟨b, rfl⟩
  split
  · exact ⟨_, rfl⟩
  · exact ⟨b, rfl⟩

theorem maxfreeLoop_beyond {pfsTest : Bool} {m' : ErrMember} (hlen : i + ds.length ≤ MAXDISKS)
    (h : (maxfreeLoop pfsTest st ds i ms b).1.find? ErrMember.self = some m') :
    ∃ m, ms.find? ErrMember.self = some m ∧ ∀ k, i + populated ds ≤ k →
      m'.errdisk k = m.errdisk k := by
  induction ds generalizing i ms b with
  | nil => exact ⟨m', h, fun _ _ => rfl⟩
  | cons d ds ih =>
    rw [length_cons] at hlen
    by_cases hd : d.count = 0
    · rw [maxfreeLoop, if_pos hd] at h
      exact ⟨m', h, fun _ _ => rfl⟩
    obtain ⟨v, b', hround⟩ := @maxfreeLoop_cons st ms pfsTest d ds i b hd
    rw [hround] at h
    obtain ⟨m, hm, hbeyond⟩ := ih (by omega) h
    rw [find_setSelfDiskErr, Option.map_eq_some_iff] at hm
    obtain ⟨m₀, hm₀, rfl⟩ := hm
    refine ⟨m₀, hm₀, fun k hk => ?_⟩
    rw [populated_cons ds hd] at hk
    have hne : k ≠ i % MAXDISKS := by
      rw [Nat.mod_eq_of_lt (by omega)]
      omega
    exact (hbeyond k (by omega)).trans (update_of_ne hne _ _)

theorem find_setDomainDiskerr {errdisk : Nat → UInt8} {ip : UInt32}
    (h : ∀ m, ms.find? ErrMember.self = some m → m.ip ≠ ip) :
    (setDomainDiskerr errdisk ip ms).find? ErrMember.self = ms.find? ErrMember.self := by
  induction ms with
  | nil => rfl
  | cons m ms ih =>
    rw [setDomainDiskerr]
    by_cases hm : m.self = true
    · have hne : m.ip ≠ ip := h m (find?_cons_of_pos hm)
      rw [if_neg hne, find?_cons_of_pos hm, find?_cons_of_pos hm]
    rw [find?_cons_of_neg hm] at h ⊢
    split
    · exact find?_cons_of_neg hm
    · rw [find?_cons_of_neg hm, ih h]

end Choice

/-- A table of full size, and a local map with errors of populated disks only. -/
structure DiskOk (s : DiskSt) : Prop where
  size : s.info.length = MAXDISKS
  clear : ∀ m, s.members.find? ErrMember.self = some m → ∀ i, populated s.info ≤ i → m.errdisk i = 0

/-- Error maps come from the other members. -/
def OtherReports (s : DiskSt) : DiskAct → Prop
  | .report _ ip => ∀ m, s.members.find? ErrMember.self = some m → m.ip ≠ ip
  | _ => True

theorem populated_set {info : List DiskInfo} {k i : Nat} {d : DiskInfo} (h : info[k]? = some d) :
    populated (info.set k { d with index := i }) = populated info := by
  induction info generalizing k with
  | nil => rfl
  | cons e info ih =>
    cases k with
    | zero =>
      cases h
      simp only [populated, set_cons_zero, takeWhile_cons]
      split <;> rfl
    | succ k =>
      have ih := ih h
      simp only [populated, set_cons_succ, takeWhile_cons] at ih ⊢
      split
      · simp [ih]
      · rfl

theorem DiskOk.next {s s' : DiskSt} {a : DiskAct} (h : DiskOk s) (hok : OtherReports s a)
    (hs : diskNext dir1 s a = some s') : DiskOk s' := by
  cases a with
  | get =>
    obtain ⟨⟨p, _⟩, hget, rfl⟩ := Option.map_eq_some_iff.mp hs
    obtain ⟨k, d, hd, -, rfl⟩ := getMaxFreeStorage_some hget
    refine ⟨by rw [length_set]; exact h.size, ?_⟩
    simp only [populated_set hd]
    exact h.clear
  | refresh pfsTest st =>
    cases hs
    refine ⟨h.size, fun m hm i hi => ?_⟩
    obtain ⟨m₀, hm₀, hbeyond⟩ := maxfreeLoop_beyond (i := 0) (by rw [h.size]; omega) hm
    rw [hbeyond i (by rwa [Nat.zero_add])]
    exact h.clear m₀ hm₀ i hi
  | report errdisk ip =>
    cases hs
    refine ⟨h.size, ?_⟩
    simp only [find_setDomainDiskerr hok]
    exact h.clear

/-- Where there is a healthy disk, `max_disk` is one with the most free space. -/
def ChoosesBest (st : Nat → DiskStat) (s : DiskSt) : Prop :=
  (∃ i, Healthy st s i) → ∃ k, s.maxDisk = some k ∧ Healthy st s k ∧
    ∀ i, Healthy st s i → (st i).freeGb ≤ (st k).freeGb

section Choose

variable {st : Nat → DiskStat} {s : DiskSt}

theorem mem_candidates (hsize : s.info.length = MAXDISKS) {i : Nat} :
    i ∈ candidates st s.members (List.range' 0 (populated s.info)) ↔ Healthy st s i := by
  have hle := populated_le s.info
  rw [candidates, mem_filter, mem_range'_1, Nat.zero_add, Bool.and_eq_true, Bool.not_eq_true',
    Bool.not_eq_true', Healthy]
  constructor
  · rintro ⟨⟨-, hi⟩, hok, hdomain⟩
    refine ⟨hi, hok, fun m hm => ?_⟩
    have := any_eq_false.mp hdomain m hm
    rw [Nat.mod_eq_of_lt (by omega)] at this
    simpa using this
  · rintro ⟨hi, hok, hdomain⟩
    refine ⟨⟨Nat.zero_le _, hi⟩, hok, any_eq_false.mpr fun m hm => ?_⟩
    rw [Nat.mod_eq_of_lt (by omega)]
    simp [hdomain m hm]

/-- The loop begins with the first disk and no free space: that is a choice only if the disk is
    healthy, and it stays if no healthy disk has a gigabyte. -/
theorem choosesBest_iff {l : List Nat} (hmem : ∀ i, i ∈ l ↔ Healthy st s i)
    (hbest : s.maxDisk = some ((l.map (candidate st)).foldl (keep moreFree) ⟨0, 0⟩).index) :
    ChoosesBest st s ↔ (∀ i, ¬ Healthy st s i) ∨ Healthy st s 0 ∨
      ∃ i, Healthy st s i ∧ 1 ≤ (st i).freeGb := by
  constructor
  · intro h
    by_contra hnot
    simp only [not_or, not_forall, not_not, not_exists, not_and] at hnot
    obtain ⟨hsome, hfirst, hgb⟩ := hnot
    have hstart : (l.map (candidate st)).foldl (keep moreFree) ⟨0, 0⟩ = ⟨0, 0⟩ := by
      refine foldl_keep_of_none fun b hb => decide_eq_false ?_
      obtain ⟨i, hi, rfl⟩ := mem_map.mp hb
      have := hgb i ((hmem i).mp hi)
      simp only [candidate]
      omega
    obtain ⟨k, hk, hhealthy, -⟩ := h hsome
    rw [hbest, hstart] at hk
    cases hk
    exact hfirst hhealthy
  · rintro hcond ⟨j, hj⟩
    have hle : ∀ i, Healthy st s i →
        (st i).freeGb ≤ ((l.map (candidate st)).foldl (keep moreFree) ⟨0, 0⟩).curmaxvalue := by
      intro i hi
      have hcand := mem_map_of_mem (f := candidate st) ((hmem i).mpr hi)
      exact foldl_keep_le prefers_moreFree ⟨0, 0⟩ hcand
    refine ⟨_, hbest, ?_⟩
    obtain hr | hr := foldl_keep_mem moreFree ⟨0, 0⟩ (l.map (candidate st))
    · rw [hr] at hle ⊢
      obtain hnone | h0 | ⟨i, hi, hgb⟩ := hcond
      · exact absurd hj (hnone j)
      · exact ⟨h0, fun i hi => Nat.le_trans (hle i hi) (Nat.zero_le _)⟩
      · exact absurd (hle i hi) (by simp only; omega)
    · obtain ⟨k, hk, hcand⟩ := mem_map.mp hr
      rw [← hcand] at hle ⊢
      exact ⟨(hmem k).mp hk, hle⟩

end Choose

/-- **Where there is a healthy disk, one with the most free space is chosen exactly if the first
    disk is healthy or a healthy one has a gigabyte free**, and the local error map is that of the
    disks which fail; healthy disks have less than 4 EB. -/
theorem refreshMaxfreedisk_best (dir1 : Nat) {s₀ s : DiskSt} (st : Nat → DiskStat)
    (hstart : DiskOk s₀) (hrun : Run (diskNext dir1) OtherReports s₀ s)
    (hsmall : ∀ i sfs, Healthy st (refreshMaxfreedisk false st s) i → (st i).statfs = some sfs →
      sfs.1 * sfs.2 < 2 ^ 62) :
    (ChoosesBest st (refreshMaxfreedisk false st s) ↔
      (∀ i, ¬ Healthy st (refreshMaxfreedisk false st s) i) ∨
        Healthy st (refreshMaxfreedisk false st s) 0 ∨
        ∃ i, Healthy st (refreshMaxfreedisk false st s) i ∧ 1 ≤ (st i).freeGb) ∧
      ∀ m, (refreshMaxfreedisk false st s).members.find? ErrMember.self = some m →
        ∀ i, m.errdisk i = 1 ↔ i < populated s.info ∧ (st i).failed = true := by
  obtain ⟨hsize, hclear⟩ : DiskOk s := Run.inv hstart (fun _ _ _ h hok hs => h.next hok hs) hrun
  have hmembers : (refreshMaxfreedisk false st s).members =
      selfUpdates st s.members 0 (populated s.info) := maxfreeLoop_members
  have hmem : ∀ i, i ∈ eligible st s.members 0 (populated s.info) ↔
      Healthy st (refreshMaxfreedisk false st s) i := by
    intro i
    rw [eligible, ← hmembers]
    exact mem_candidates (s := refreshMaxfreedisk false st s) hsize
  have hbest := @maxfreeLoop_best st s.members s.info 0 ⟨0, 0⟩ (by rw [hsize]; exact Nat.le_refl _)
    fun i hi sfs => hsmall i sfs ((hmem i).mp hi)
  refine ⟨choosesBest_iff hmem (by rw [← hbest]; rfl), ?_⟩
  intro m hm i
  rw [hmembers] at hm
  obtain ⟨m₀, hm₀, herr⟩ := errdisk_updates (fun j hj => by
    have := populated_le s.info
    rw [mem_range'_1] at hj
    omega) hm
  have hrange : i ∈ List.range' 0 (populated s.info) ↔ i < populated s.info := by
    simp [mem_range'_1]
  rw [herr i]
  by_cases hi : i < populated s.info
  · rw [if_pos (hrange.mpr hi)]
    cases (st i).failed <;> simp [hi]
  · rw [if_neg fun h => hi (hrange.mp h), hclear m₀ hm₀ i (Nat.le_of_not_lt hi)]
    simp [hi]

/-- Two disks, a local member and another one that reports nothing. -/
def twoDisks : DiskSt where
  info := ⟨1, [], 1, 0, fun _ => 1⟩ :: ⟨2, [], 1, 0, fun _ => 2⟩ :: List.replicate 30 DiskInfo.zero
  maxDisk := some 0
  members := [⟨1, true, fun _ => 0⟩, ⟨2, false, fun _ => 0⟩]

/-- The first disk fails; the second has this much free. -/
def secondOnly (bfree : Nat) (i : Nat) : DiskStat :=
  if i = 1 then ⟨true, some (bfree, 4096), false⟩ else ⟨false, none, false⟩

theorem diskOk_twoDisks : DiskOk twoDisks := by
  refine ⟨by decide, fun m hm i _ => ?_⟩
  cases hm
  rfl

/-- The second disk has four gigabytes free. -/
theorem refreshMaxfreedisk_best_second :
    (∃ i, Healthy (secondOnly (2 ^ 20))
      (refreshMaxfreedisk false (secondOnly (2 ^ 20)) twoDisks) i) ∧
      ChoosesBest (secondOnly (2 ^ 20))
        (refreshMaxfreedisk false (secondOnly (2 ^ 20)) twoDisks) := by
  have hsome : Healthy (secondOnly (2 ^ 20))
      (refreshMaxfreedisk false (secondOnly (2 ^ 20)) twoDisks) 1 :=
    ⟨by decide, by decide, by decide⟩
  refine ⟨⟨1, hsome⟩, (refreshMaxfreedisk_best 1 _ diskOk_twoDisks .start ?_).1.mpr
    (.inr (.inr ⟨1, hsome, by decide⟩))⟩
  intro i sfs _ hsfs
  rw [secondOnly] at hsfs
  split at hsfs
  · cases hsfs
    decide
  · cases hsfs

/-- The second disk has less than a gigabyte free: the first one is chosen, which fails. -/
theorem refreshMaxfreedisk_failed :
    Healthy (secondOnly 100) (refreshMaxfreedisk false (secondOnly 100) twoDisks) 1 ∧
      (refreshMaxfreedisk false (secondOnly 100) twoDisks).maxDisk = some 0 ∧
      ¬ Healthy (secondOnly 100) (refreshMaxfreedisk false (secondOnly 100) twoDisks) 0 :=
  ⟨⟨by decide, by decide, by decide⟩, by decide, fun h => absurd h.2.1 (by decide)⟩

end Pfs
