/-
  The names the storage gives to uploaded files (`get_local_filename`).

  The name is the Base64 text of `<time>_<ip>_<index>` with everything behind it that follows the
  first dot of the client's name; `storage_convert` then keeps the digit directories and the last
  component. `pic_index` runs through 0 .. 99998.

  Main results: `uploads_stored_apart`, `uploads_collide`.
-/
import Mathlib.Data.List.Forall2
import Pfs.Lib.Base64
import Pfs.Lib.Decimal
import Pfs.Paths

namespace Pfs

open Lib List

/-! ## 1. The name -/

def underscore : UInt8 := 95

/-- `%ld_%u_%04d`. -/
def realfile (now : Int) (selfIp : UInt32) (picIndex : Nat) : Path :=
  decimalInt now ++ underscore :: (decimal selfIp.toNat ++ underscore :: decimalPad 4 picIndex)

/-- `strchr(filename, '.')`, the empty string when there is no dot. -/
def fromDot (filename : Path) : Path := filename.dropWhile (· != dot)

/-- "/d1/d2" -/
def storageDirs (d1 d2 : UInt32) : Path := slash :: decimal d1.toNat ++ slash :: decimal d2.toNat

/-- `get_local_filename` for a record of type TASK_ADDFILE: the new name and `pic_index`. The name
    is joined in 256 bytes and then written with `snprintf` into the record's 256. -/
def getLocalFilename (now : Int) (selfIp : UInt32) (picIndex : Nat) (d1 d2 : UInt32)
    (filename : Path) : Except Fault (Path × Nat) :=
  let localfile := base64 (realfile now selfIp picIndex) ++ fromDot filename
  if 256 ≤ localfile.length then .error .overflow
  else
    .ok ((storageDirs d1 d2 ++ slash :: localfile).take 255,
      if 99999 ≤ picIndex + 1 then 0 else picIndex + 1)

/-- The bytes in front of a task's record are the padding of the node before it. -/
def nodePre : Path := [0]

/-- An upload that leaves its name to the storage: the time, the directories
    `get_max_free_storage` returns, and the client's name. -/
structure Upload where
  now : Int
  d1 : UInt32
  d2 : UInt32
  filename : Path
  /-- a `time_t` -/
  now_lt : now.natAbs < 2 ^ 63 + 1

/-- The final paths of uploads one after the other, from `pic_index` on. -/
def storeAll (datadir : Path) (selfIp : UInt32) :
    Nat → List Upload → Except Fault (List (Option Path))
  | _, [] => .ok []
  | picIndex, u :: us =>
    match getLocalFilename u.now selfIp picIndex u.d1 u.d2 u.filename with
    | .error f => .error f
    | .ok (name, picIndex') =>
      match storageConvert nodePre datadir name with
      | .error f => .error f
      | .ok stored =>
        match storeAll datadir selfIp picIndex' us with
        | .error f => .error f
        | .ok ps => .ok (stored.map Prod.snd :: ps)

/-! ## 2. The Base64 part -/

theorem underscore_notMem_decimal (n : Nat) : underscore ∉ decimal n := by
  intro h
  exact absurd (decimal_digit h) (by decide)

theorem underscore_notMem_decimalInt (x : Int) : underscore ∉ decimalInt x := by
  intro h
  exact absurd (decimalInt_char h) (by decide)

theorem append_cons_inj {c : UInt8} {a b s t : List UInt8} (ha : c ∉ a) (hb : c ∉ b)
    (h : a ++ c :: s = b ++ c :: t) : a = b ∧ s = t := by
  have htake := congrArg (takeWhile (· != c)) h
  have hdrop := congrArg (dropWhile (· != c)) h
  rw [takeWhile_ne_append_cons ha, takeWhile_ne_append_cons hb] at htake
  rw [dropWhile_ne_append_cons ha, dropWhile_ne_append_cons hb] at hdrop
  exact ⟨htake, (List.cons.inj hdrop).2⟩

theorem joined_inj {a a' b b' c c' : Path} (ha : underscore ∉ a) (ha' : underscore ∉ a')
    (hb : underscore ∉ b) (hb' : underscore ∉ b')
    (h : a ++ underscore :: (b ++ underscore :: c) = a' ++ underscore :: (b' ++ underscore :: c')) :
    a = a' ∧ b = b' ∧ c = c' := by
  obtain ⟨haa, hrest⟩ := append_cons_inj ha ha' h
  obtain ⟨hbb, hcc⟩ := append_cons_inj hb hb' hrest
  exact ⟨haa, hbb, hcc⟩

variable {ip : UInt32} {k : Nat} {datadir : Path}

theorem realfile_inj {now now' : Int} {k' : Nat}
    (h : realfile now ip k = realfile now' ip k') : now = now' ∧ k = k' := by
  obtain ⟨hnow, -, hk⟩ := joined_inj (underscore_notMem_decimalInt _)
    (underscore_notMem_decimalInt _) (underscore_notMem_decimal _) (underscore_notMem_decimal _) h
  exact ⟨decimalInt_inj hnow, decimalPad_inj hk⟩

theorem realfile_char {now : Int} : ∀ c ∈ realfile now ip k, c.toNat < 128 ∧ c.toNat % 64 ≠ 63 := by
  have hdigit {c : UInt8} (h : 48 ≤ c.toNat ∧ c.toNat ≤ 57) : c.toNat < 128 ∧
      c.toNat % 64 ≠ 63 := by
    omega
  intro c hc
  simp only [realfile, mem_append, mem_cons] at hc
  rcases hc with hc | rfl | hc | rfl | hc
  · rcases decimalInt_char hc with rfl | hd
    · decide
    · exact hdigit hd
  · decide
  · exact hdigit (decimal_digit hc)
  · decide
  · exact hdigit (decimalPad_digit hc)

theorem base64_realfile_length (u : Upload) (ip : UInt32) (hk : k < 99999) :
    (base64 (realfile u.now ip k)).length ≤ 50 := by
  have hnow : (decimalInt u.now).length ≤ 20 :=
    decimalInt_length_le (Nat.lt_of_lt_of_le u.now_lt (by decide)) (by decide)
  have hip : (decimal ip.toNat).length ≤ 10 :=
    decimal_length_le (Nat.lt_trans ip.toNat_lt (by decide)) (by decide)
  have hidx : (decimalPad 4 k).length ≤ 5 :=
    decimalPad_length_le (Nat.lt_trans hk (by decide)) (by decide) (by decide)
  have hlen : (realfile u.now ip k).length ≤ 37 := by
    simp only [realfile, length_append, length_cons]
    omega
  rw [base64_eq_groups, length_map, groups_length]
  omega

/-! ## 3. One upload -/

theorem storageDirs_length (d1 d2 : UInt32) : (storageDirs d1 d2).length ≤ 22 := by
  have h1 : (decimal d1.toNat).length ≤ 10 :=
    decimal_length_le (Nat.lt_trans d1.toNat_lt (by decide)) (by decide)
  have h2 : (decimal d2.toNat).length ≤ 10 :=
    decimal_length_le (Nat.lt_trans d2.toNat_lt (by decide)) (by decide)
  simp only [storageDirs, length_append, length_cons]
  omega

theorem isDirChar_decimal {n : Nat} {c : UInt8} (h : c ∈ decimal n) : isDirChar c = true := by
  obtain ⟨hlo, hhi⟩ := decimal_digit h
  have hlo' : (48 : UInt8) ≤ c := UInt8.le_iff_toNat_le.mpr hlo
  have hhi' : c ≤ (57 : UInt8) := UInt8.le_iff_toNat_le.mpr hhi
  simp [isDirChar, isDigit, hlo', hhi']

theorem isDirChar_storageDirs {d1 d2 : UInt32} : ∀ c ∈ storageDirs d1 d2, isDirChar c = true := by
  intro c hc
  simp only [storageDirs, mem_append, mem_cons] at hc
  rcases hc with (rfl | hc) | rfl | hc
  · rfl
  · exact isDirChar_decimal hc
  · rfl
  · exact isDirChar_decimal hc

theorem digitDirs_storageDirs (d1 d2 : UInt32) :
    digitDirs nodePre (storageDirs d1 d2) = storageDirs d1 d2 := by
  have htake : List.rtakeWhile isDirChar (nodePre ++ storageDirs d1 d2) = storageDirs d1 d2 := by
    rw [rtakeWhile_append_of_all nodePre isDirChar_storageDirs]
    rfl
  unfold digitDirs
  rw [htake]
  rfl

theorem endsSlash_storageDirs (datadir : Path) (d1 d2 : UInt32) :
    endsSlash false (datadir ++ storageDirs d1 d2) = false := by
  obtain ⟨c, hc⟩ : ∃ c, (decimal d2.toNat).getLast? = some c :=
    Option.ne_none_iff_exists'.mp fun h => decimal_ne_nil _ (getLast?_eq_none_iff.mp h)
  have hlast : (datadir ++ storageDirs d1 d2).getLast? = some c := by
    unfold storageDirs
    rw [← append_assoc, getLast?_append, getLast?_cons, hc]
    rfl
  have hmem : c ∈ decimal d2.toNat := mem_of_getLast? hc
  have hne : (c == slash) = false := by
    rw [beq_eq_false_iff_ne]
    rintro rfl
    exact absurd (decimal_digit hmem) (by decide)
  unfold endsSlash
  rw [hlast]
  exact hne

/-- **A name without a separator is stored in its directories.** -/
theorem storageConvert_storageDirs {name ret p : Path} {d1 d2 : UInt32} (hn : slash ∉ name)
    (h : storageConvert nodePre datadir (storageDirs d1 d2 ++ slash :: name) =
      .ok (some (ret, p))) :
    p = trimSep (datadir ++ storageDirs d1 d2) ++ slash :: name := by
  unfold storageConvert at h
  rw [splitLast_append _ hn] at h
  simp only [digitDirs_storageDirs] at h
  split at h
  · cases h
  cases h
  have hassoc : datadir ++ (storageDirs d1 d2 ++ slash :: name) =
      datadir ++ storageDirs d1 d2 ++ [slash] ++ name := by
    simp only [append_assoc, singleton_append]
  rw [hassoc, trimSep_append_of_notMem _ hn, trimSep_append_slash, endsSlash_storageDirs]
  simp only [Bool.false_eq_true, if_false, append_assoc, singleton_append]

/-- What is stored for `u` when `pic_index` is `k`: the Base64 text and a part of the suffix. -/
def StoredAs (datadir : Path) (ip : UInt32) (u : Upload) (k : Nat) (p : Option Path) : Prop :=
  ∃ suffix, suffix <+: fromDot u.filename ∧
    p = some (trimSep (datadir ++ storageDirs u.d1 u.d2) ++
      slash :: (base64 (realfile u.now ip k) ++ suffix))

theorem getLocalFilename_storedAs {name : Path} {u : Upload} {k' : Nat}
    {stored : Option (Path × Path)} (hk : k < 99999) (hu : slash ∉ fromDot u.filename)
    (hname : getLocalFilename u.now ip k u.d1 u.d2 u.filename = .ok (name, k'))
    (hstored : storageConvert nodePre datadir name = .ok stored) :
    StoredAs datadir ip u k (stored.map Prod.snd) ∧ k' = (k + 1) % 99999 := by
  unfold getLocalFilename at hname
  simp only at hname
  split at hname
  · cases hname
  have hb := base64_realfile_length u ip hk
  have hdirs := storageDirs_length u.d1 u.d2
  have hslash : slash ∉ base64 (realfile u.now ip k) := base64_notMem_slash realfile_char
  -- the directories and the text are never cut
  obtain ⟨m, hm⟩ : ∃ m, 255 = (storageDirs u.d1 u.d2).length +
      (1 + ((base64 (realfile u.now ip k)).length + m)) :=
    ⟨255 - (storageDirs u.d1 u.d2).length - 1 - (base64 (realfile u.now ip k)).length, by omega⟩
  have hcut : (storageDirs u.d1 u.d2 ++ slash :: (base64 (realfile u.now ip k) ++
      fromDot u.filename)).take 255 = storageDirs u.d1 u.d2 ++ slash ::
        (base64 (realfile u.now ip k) ++ (fromDot u.filename).take m) := by
    rw [hm, take_length_add_append, Nat.add_comm 1, take_succ_cons, take_length_add_append]
  rw [hcut] at hname
  obtain ⟨hnm, hk'⟩ := Prod.mk.inj (Except.ok.inj hname)
  have hnot : slash ∉ base64 (realfile u.now ip k) ++ (fromDot u.filename).take m := by
    intro h
    rcases mem_append.mp h with h | h
    · exact hslash h
    · exact hu (mem_of_mem_take h)
  subst hnm
  refine ⟨⟨(fromDot u.filename).take m, take_prefix _ _, ?_⟩, ?_⟩
  · cases stored with
    | none =>
      have hno := storageConvert_none hstored
      exact absurd (mem_append_right _ mem_cons_self) hno
    | some rp =>
      obtain ⟨ret, p⟩ := rp
      rw [storageConvert_storageDirs hnot hstored]
      rfl
  · rw [← hk']
    split <;> omega

theorem storedAs_inj {u v : Upload} {j : Nat} {p : Option Path}
    (hu : slash ∉ fromDot u.filename) (hv : slash ∉ fromDot v.filename)
    (hp : StoredAs datadir ip u j p) (hq : StoredAs datadir ip v k p) : u.now = v.now ∧ j = k := by
  obtain ⟨s, hs, rfl⟩ := hp
  obtain ⟨t, ht, he⟩ := hq
  have hslash (w : Upload) (i : Nat) (x : Path) (hw : slash ∉ fromDot w.filename)
      (hx : x <+: fromDot w.filename) : slash ∉ base64 (realfile w.now ip i) ++ x := by
    intro h
    rcases mem_append.mp h with h | h
    · exact base64_notMem_slash realfile_char h
    · exact hw (hx.subset h)
  have hsplit := congrArg splitLast (Option.some.inj he)
  rw [splitLast_append _ (hslash u j s hu hs), splitLast_append _ (hslash v k t hv ht)] at hsplit
  have hname := (Prod.mk.inj (Option.some.inj hsplit)).2
  -- the text has no dot, and what follows it is empty or starts with one
  have hdot (w : Upload) (i : Nat) (x : Path) (hx : x <+: fromDot w.filename) :
      (base64 (realfile w.now ip i) ++ x).takeWhile (· != dot) = base64 (realfile w.now ip i) := by
    rw [takeWhile_append_of_pos (fun c hc => by
      simpa using fun e => base64_notMem_dot _ (e ▸ hc))]
    have hnil : x.takeWhile (· != dot) = [] := by
      cases x with
      | nil => rfl
      | cons c x =>
        obtain ⟨y, hy⟩ := hx
        have hhead := head?_dropWhile_not (· != dot) w.filename
        rw [show w.filename.dropWhile (· != dot) = c :: x ++ y from hy.symm] at hhead
        have hc : (c != dot) = false := by simpa using hhead
        rw [takeWhile_cons, hc]
        rfl
    rw [hnil, append_nil]
  have htext := congrArg (List.takeWhile (· != dot)) hname
  rw [hdot u j s hs, hdot v k t ht] at htext
  exact realfile_inj (base64_inj htext)

/-! ## 4. A run of uploads -/

section Uploads

variable {datadir : Path} {ip : UInt32} {us : List Upload} {ps : List (Option Path)}

theorem storeAll_storedAs {pic : Nat} (hpic : pic < 99999)
    (hname : ∀ u ∈ us, slash ∉ fromDot u.filename) (h : storeAll datadir ip pic us = .ok ps) :
    List.Forall₂ (fun u p => ∃ k, StoredAs datadir ip u k p) us ps ∧
      ∀ (k : Nat) (u : Upload) (p : Option Path), us[k]? = some u → ps[k]? = some p →
        StoredAs datadir ip u ((pic + k) % 99999) p := by
  induction us generalizing pic ps with
  | nil =>
    cases h
    exact ⟨.nil, fun k u p hu => by cases hu⟩
  | cons u us ih =>
    rw [storeAll] at h
    split at h
    · cases h
    rename_i name pic' hn
    split at h
    · cases h
    rename_i stored hs
    split at h
    · cases h
    rename_i qs hq
    obtain ⟨hu, hp⟩ := getLocalFilename_storedAs hpic (hname u mem_cons_self) hn hs
    obtain ⟨hall, hidx⟩ := ih (by rw [hp]; omega)
      (fun v hv => hname v (mem_cons_of_mem _ hv)) hq
    cases h
    refine ⟨.cons ⟨pic, hu⟩ hall, fun k v p hv hpk => ?_⟩
    cases k with
    | zero =>
      cases hv
      cases hpk
      rw [Nat.add_zero, Nat.mod_eq_of_lt hpic]
      exact hu
    | succ k =>
      have hlater := hidx k v p hv hpk
      rw [hp, Nat.mod_add_mod] at hlater
      rwa [show pic + (k + 1) = pic + 1 + k by omega]

theorem gap_lt_of_same_second {i j : Nat} {u v : Upload}
    (hclock : us.Pairwise (fun a b => a.now ≤ b.now)) (hij : i < j) (hi : us[i]? = some u)
    (hj : us[j]? = some v) (he : u.now = v.now) :
    j - i < (us.filter (fun w => w.now == u.now)).length := by
  obtain ⟨hil, rfl⟩ := List.getElem?_eq_some_iff.mp hi
  obtain ⟨hjl, rfl⟩ := List.getElem?_eq_some_iff.mp hj
  have hle := pairwise_iff_getElem.mp hclock
  have hsame : ∀ w ∈ (us.drop i).take (j - i + 1), (w.now == us[i].now) = true := by
    intro w hw
    obtain ⟨m, hm, rfl⟩ := mem_iff_getElem.mp hw
    rw [length_take, length_drop] at hm
    rw [getElem_take, getElem_drop, beq_iff_eq]
    have hlo : us[i].now ≤ us[i + m].now := by
      rcases Nat.eq_zero_or_pos m with rfl | hpos
      · exact Int.le_refl _
      · exact hle i (i + m) hil (by omega) (by omega)
    have hhi : us[i + m].now ≤ us[j].now := by
      rcases Nat.lt_or_ge (i + m) j with hlt | hge
      · exact hle (i + m) j (by omega) hjl hlt
      have hmj : i + m = j := by omega
      simp only [hmj]
      exact Int.le_refl _
    omega
  have hsub : ((us.drop i).take (j - i + 1)).Sublist us :=
    (take_sublist _ _).trans (drop_sublist _ _)
  have hlen := (hsub.filter (fun w => w.now == us[i].now)).length_le
  rw [filter_eq_self.mpr hsame, length_take, length_drop] at hlen
  omega

/-- **Uploads named by the storage are stored in their directories and never collide**: for every
    run in which no client name has a separator behind its first dot, the clock does not go back
    and fewer than 99999 uploads fall into one second. -/
theorem uploads_stored_apart (datadir : Path) (ip : UInt32) (us : List Upload)
    (ps : List (Option Path)) (hname : ∀ u ∈ us, slash ∉ fromDot u.filename)
    (hclock : us.Pairwise (fun a b => a.now ≤ b.now))
    (hrate : ∀ t : Int, (us.filter (fun u => u.now == t)).length < 99999)
    (h : storeAll datadir ip 0 us = .ok ps) :
    List.Forall₂ (fun u p => ∃ name, slash ∉ name ∧
      p = some (trimSep (datadir ++ storageDirs u.d1 u.d2) ++ slash :: name)) us ps ∧ ps.Nodup := by
  obtain ⟨hall, hidx⟩ := storeAll_storedAs (by decide) hname h
  have hlen := hall.length_eq
  refine ⟨?_, pairwise_iff_getElem.mpr fun i j hi hj hij he => ?_⟩
  · refine forall₂_iff_get.mpr ⟨hlen, fun k hk hk' => ?_⟩
    obtain ⟨i, suffix, hsuf, hp⟩ := (forall₂_iff_get.mp hall).2 k hk hk'
    refine ⟨_, fun hm => ?_, hp⟩
    rcases mem_append.mp hm with hm | hm
    · exact base64_notMem_slash realfile_char hm
    · exact hname _ (get_mem us ⟨k, hk⟩) (hsuf.subset hm)
  · have hgi : us[i]? = some us[i] := getElem?_eq_getElem (by omega)
    have hgj : us[j]? = some us[j] := getElem?_eq_getElem (by omega)
    have hpi := hidx i us[i] ps[i] hgi (getElem?_eq_getElem hi)
    have hpj := hidx j us[j] ps[j] hgj (getElem?_eq_getElem hj)
    rw [he] at hpi
    obtain ⟨hnow, hk⟩ := storedAs_inj (hname _ (getElem_mem _)) (hname _ (getElem_mem _))
      hpi hpj
    have hgap := gap_lt_of_same_second hclock hij hgi hgj hnow
    have hr := hrate us[i].now
    omega

end Uploads

/-- "/a.jpg", twice in one second. -/
def twoPlainUploads : List Upload :=
  [⟨7, 1, 2, [47, 97, 46, 106, 112, 103], by decide⟩,
    ⟨7, 1, 2, [47, 97, 46, 106, 112, 103], by decide⟩]

theorem uploads_stored_apart_of_two : ∃ ps, storeAll [47, 100] 9 0 twoPlainUploads = .ok ps ∧
    ps.Nodup ∧ ps.length = 2 := by
  refine ⟨_, rfl, (uploads_stored_apart [47, 100] 9 twoPlainUploads _ (by decide) (by decide)
    (fun t => ?_) rfl).2, rfl⟩
  exact Nat.lt_of_le_of_lt (length_filter_le _ _) (by decide)

/-- "/a.b/c": the part behind the dot has a separator, and of the name nothing but "c" is left.
    Both uploads are stored as "/d/c". -/
theorem uploads_collide :
    storeAll [47, 100] 9 0
        [⟨7, 1, 2, [47, 97, 46, 98, 47, 99], by decide⟩,
          ⟨8, 3, 4, [47, 97, 46, 98, 47, 99], by decide⟩] =
      .ok [some [47, 100, 47, 99], some [47, 100, 47, 99]] := by
  rfl

end Pfs
