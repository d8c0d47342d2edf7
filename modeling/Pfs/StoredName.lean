/-
  `storage_convert` on names it has made itself (network/pfs_localfile.c), and the names
  that clients send back (lib/pfs_api.c).

  A stored path is `datadir`, digit directories and a last component. Converted again, everything
  behind the last component of `datadir` that is not made of digits counts as digit directories: a
  `datadir` that ends in a digit directory is put in front twice.

  Main results: `reconvert_iff`, `returned_name_stable`.
-/
import Pfs.ClientCache
import Pfs.Machine

namespace Pfs

open Lib List

/-! ## 1. `trim_sep` -/

theorem endsSlash_append (after : Bool) (s t : Path) :
    endsSlash after (s ++ t) = endsSlash (endsSlash after s) t := by
  induction s generalizing after with
  | nil => rfl
  | cons c s ih => rw [cons_append, endsSlash_cons, endsSlash_cons, ih]

theorem trimAux_trimAux (a b : Bool) (s : Path) : trimAux a (trimAux b s) = trimAux (a || b) s := by
  induction s generalizing a b with
  | nil => rfl
  | cons c s ih =>
    cases hc : c == slash with
    | false => simp [trimAux, hc, ih]
    | true =>
      cases b with
      | true => simp [trimAux, hc, ih]
      | false => cases a <;> simp [trimAux, hc, ih]

theorem endsSlash_trimAux (after : Bool) (s : Path) :
    endsSlash after (trimAux after s) = endsSlash after s := by
  induction s generalizing after with
  | nil => rfl
  | cons c s ih =>
    rw [endsSlash_cons, trimAux]
    split
    · rename_i h
      obtain ⟨rfl, hc⟩ : after = true ∧ (c == slash) = true := by simpa using h
      rw [hc]
      exact ih true
    · rw [endsSlash_cons]
      exact ih _

theorem trimSep_append_trimSep (s t : Path) : trimSep (s ++ trimSep t) = trimSep (s ++ t) := by
  unfold trimSep
  rw [trimAux_append, trimAux_append, trimAux_trimAux, Bool.or_false]

theorem trimSep_trimSep_append (s t : Path) : trimSep (trimSep s ++ t) = trimSep (s ++ t) := by
  unfold trimSep
  rw [trimAux_append, trimAux_append, trimAux_trimAux, endsSlash_trimAux]
  rfl

theorem trimSep_append_slashes (s : Path) {seps : Path} (h : ∀ c ∈ seps, c = slash) (t : Path) :
    trimSep (s ++ (seps ++ slash :: t)) = trimSep (s ++ slash :: t) := by
  have haux : ∀ after, trimAux after (seps ++ slash :: t) = trimAux after (slash :: t) := by
    induction seps with
    | nil => exact fun _ => rfl
    | cons c seps ih =>
      intro after
      have hrest := ih fun c hc => h c (mem_cons_of_mem _ hc)
      rw [h c mem_cons_self, cons_append]
      cases after <;> simp [trimAux, hrest]
  unfold trimSep
  rw [trimAux_append false s, trimAux_append false s, haux]

theorem filter_trimAux (after : Bool) (s : Path) :
    (trimAux after s).filter (· != slash) = s.filter (· != slash) := by
  induction s generalizing after with
  | nil => rfl
  | cons c s ih =>
    rw [trimAux]
    split
    · rename_i h
      have hc : (c != slash) = false := by
        have hcs := (Bool.and_eq_true_iff.mp h).2
        simpa using hcs
      rw [ih, filter_cons, hc]
      rfl
    · rw [filter_cons, filter_cons, ih]

theorem filter_trimSep (s : Path) : (trimSep s).filter (· != slash) = s.filter (· != slash) :=
  filter_trimAux false s

/-! ## 2. The backward scan -/

/-- The digit directories at the end of a string, from the leftmost separator among them on. -/
def scanBack (s : Path) : Path := (List.rtakeWhile isDirChar s).dropWhile (· != slash)

/-- Digits and separators, with a separator in front. -/
def DirTail (t : Path) : Prop := (∀ c ∈ t, isDirChar c = true) ∧ (t = [] ∨ ∃ u, t = slash :: u)

/-- The scan stops at the start of the name: the byte in front of it is neither a digit nor a
    separator. -/
def Stops (pre : Path) : Prop := List.rtakeWhile isDirChar pre = []

theorem stops_nil : Stops [] := rfl

variable {t pre dirs name datadir : Path} {status : UInt8} {base : TaskBase}

theorem scanBack_append (s : Path) (ht : DirTail t) : scanBack (s ++ t) = scanBack s ++ t := by
  have hhead : t.dropWhile (· != slash) = t := by
    obtain rfl | ⟨u, rfl⟩ := ht.2
    · rfl
    · rfl
  unfold scanBack
  rw [rtakeWhile_append_of_all s ht.1, dropWhile_append]
  split
  · rename_i hnil
    rw [List.isEmpty_iff.mp hnil, hhead]
    rfl
  · rfl

theorem dirTail_concat (h : DirTail t) : DirTail (t ++ [slash]) := by
  refine ⟨?_, .inr ?_⟩
  · intro c hc
    rcases mem_append.mp hc with hc | hc
    · exact h.1 c hc
    · rw [mem_singleton.mp hc]
      rfl
  · obtain rfl | ⟨u, rfl⟩ := h.2
    · exact ⟨[], rfl⟩
    · exact ⟨u ++ [slash], rfl⟩

theorem dirTail_slash : DirTail [slash] :=
  ⟨fun _ hc => by rw [mem_singleton.mp hc]; rfl, .inr ⟨[], rfl⟩⟩

theorem digitDirs_of_stops (hpre : Stops pre) (dir : Path) : digitDirs pre dir = scanBack dir := by
  have htake : List.rtakeWhile isDirChar (pre ++ dir) = List.rtakeWhile isDirChar dir := by
    induction dir using List.reverseRecOn with
    | nil =>
      rw [append_nil, rtakeWhile_nil]
      exact hpre
    | append_singleton dir c ih => rw [← append_assoc, rtakeWhile_concat,
        rtakeWhile_concat, ih]
  unfold digitDirs scanBack
  rw [htake]

theorem dropWhile_trimSep (s : Path) :
    (trimSep s).dropWhile (· != slash) = trimSep (s.dropWhile (· != slash)) := by
  induction s with
  | nil => rfl
  | cons c s ih =>
    by_cases hc : c = slash
    · subst hc
      rfl
    have hcs : (c == slash) = false := by simpa using hc
    have hcn : (c != slash) = true := by simpa using hc
    have htrim : trimSep (c :: s) = c :: trimSep s := by
      simp [trimSep, trimAux, hcs]
    rw [htrim, dropWhile_cons, dropWhile_cons, if_pos hcn, if_pos hcn, ih]

theorem endsSlash_rtakeWhile (s : Path) :
    endsSlash false (List.rtakeWhile isDirChar s) = endsSlash false s := by
  cases s using List.reverseRecOn with
  | nil => rfl
  | append_singleton s c =>
    rw [rtakeWhile_concat]
    split
    · rw [endsSlash_append, endsSlash_append, endsSlash_cons, endsSlash_cons]
    rename_i hc
    have hne : (c == slash) = false := by
      cases h : c == slash with
      | false => rfl
      | true => exact absurd (by simp [isDirChar, h]) hc
    rw [endsSlash_append, endsSlash_cons, hne]

theorem rtakeWhile_trimSep (s : Path) :
    List.rtakeWhile isDirChar (trimSep s) = trimSep (List.rtakeWhile isDirChar s) := by
  induction s using List.reverseRecOn with
  | nil => rfl
  | append_singleton s c ih =>
    by_cases hc : c = slash
    · subst hc
      have hdir : isDirChar slash = true := rfl
      rw [rtakeWhile_concat_pos _ _ _ hdir, trimSep_append_slash, trimSep_append_slash,
        endsSlash_rtakeWhile]
      split
      · exact ih
      · rw [rtakeWhile_concat_pos _ _ _ hdir, ih]
    · have hnot : slash ∉ [c] := fun h => hc (mem_singleton.mp h).symm
      rw [trimSep_append_of_notMem _ hnot, rtakeWhile_concat, rtakeWhile_concat]
      split
      · rw [trimSep_append_of_notMem _ hnot, ih]
      · rfl

theorem scanBack_trimSep (s : Path) : scanBack (trimSep s) = trimSep (scanBack s) := by
  unfold scanBack
  rw [rtakeWhile_trimSep, dropWhile_trimSep]

/-! ## 3. Stored paths -/

/-- **What becomes of a stored path under a `datadir`**, its own or another one: the digit
    directories at the end of the `datadir` it was made with stay in front of its own. -/
theorem storageConvert_stored (hpre : Stops pre) (hdirs : DirTail dirs)
    (hn : slash ∉ name) (datadir datadir' : Path) :
    storageConvert pre datadir' (trimSep (datadir ++ (dirs ++ slash :: name))) =
      if 256 ≤ datadir'.length + (trimSep (scanBack datadir ++ (dirs ++ slash :: name))).length
      then .error .overflow
      else .ok (some ((trimSep (scanBack datadir ++ (dirs ++ slash :: name))).take 255,
        trimSep (datadir' ++ (scanBack datadir ++ (dirs ++ slash :: name))))) := by
  have hsep (x : Path) : x ++ (dirs ++ slash :: name) = x ++ (dirs ++ [slash]) ++ name := by simp
  have hends : endsSlash false (trimSep (datadir ++ (dirs ++ [slash]))) = true := by
    rw [trimSep, endsSlash_trimAux, ← append_assoc, endsSlash_append]
    rfl
  -- the path is cut at its last separator
  obtain ⟨q, hq⟩ : ∃ q, trimSep (datadir ++ (dirs ++ [slash])) = q ++ [slash] := by
    cases h : trimSep (datadir ++ (dirs ++ [slash])) using List.reverseRecOn with
    | nil =>
      rw [h] at hends
      cases hends
    | append_singleton q c =>
      rw [h, endsSlash_append, endsSlash_cons] at hends
      have hc : c = slash := by simpa [endsSlash] using hends
      exact ⟨q, by rw [hc]⟩
  have hpath : trimSep (datadir ++ (dirs ++ slash :: name)) = q ++ slash :: name := by
    rw [hsep, trimSep_append_of_notMem _ hn, hq, append_assoc]
    rfl
  have hscan : digitDirs pre q ++ [slash] = trimSep (scanBack datadir ++ (dirs ++ [slash])) := by
    rw [digitDirs_of_stops hpre, ← scanBack_append q dirTail_slash, ← hq, scanBack_trimSep,
      scanBack_append _ (dirTail_concat hdirs)]
  have hlast : digitDirs pre q ++ slash :: name =
      trimSep (scanBack datadir ++ (dirs ++ slash :: name)) := by
    rw [hsep, trimSep_append_of_notMem _ hn, ← hscan, append_assoc]
    rfl
  rw [hpath, storageConvert, splitLast_append _ hn]
  simp only [hlast, trimSep_append_trimSep]

theorem storageConvert_parts {file ret path : Path}
    (h : storageConvert pre datadir file = .ok (some (ret, path))) :
    ∃ dirs dir name, splitLast file = some (dir, name) ∧ DirTail dirs ∧ slash ∉ name ∧
      ret = dirs ++ slash :: name ∧ path = trimSep (datadir ++ ret) ∧
      datadir.length + ret.length < 256 := by
  unfold storageConvert at h
  cases hs : splitLast file with
  | none =>
    rw [hs] at h
    cases h
  | some q =>
    obtain ⟨dir, name⟩ := q
    rw [hs] at h
    simp only at h
    split at h
    · cases h
    rename_i hlen
    have hcut : (digitDirs pre dir ++ slash :: name).take 255 = digitDirs pre dir ++
        slash :: name :=
      take_of_length_le (by omega)
    cases h
    rw [hcut]
    exact ⟨digitDirs pre dir, dir, name, rfl, ⟨digitDirs_dirChar pre dir, digitDirs_head pre dir⟩,
      (splitLast_eq_some hs).2, rfl, rfl, Nat.not_le.mp hlen⟩

/-- The separators at the end of `datadir` have no digit directory between or before them. -/
def PlainEnd (datadir : Path) : Prop := ∀ c ∈ scanBack datadir, c = slash

instance (datadir : Path) : Decidable (PlainEnd datadir) :=
  List.decidableBAll (· = slash) (scanBack datadir)

/-- `storage_convert` again and again, on the file name it leaves. -/
def convertTimes (pre datadir : Path) : Nat → Path → Option Path
  | 0, file => some file
  | n + 1, file =>
    match storageConvert pre datadir file with
    | .ok (some (_, path)) => convertTimes pre datadir n path
    | _ => none

theorem exists_cons_slash (h : DirTail dirs) (name : Path) :
    ∃ t, dirs ++ slash :: name = slash :: t := by
  obtain rfl | ⟨u, rfl⟩ := h.2
  · exact ⟨name, rfl⟩
  · exact ⟨u ++ slash :: name, rfl⟩

theorem storageConvert_fixed (hpre : Stops pre)
    (hdirs : DirTail dirs) (hn : slash ∉ name) (hplain : PlainEnd datadir)
    (hlen : datadir.length + (dirs ++ slash :: name).length < 256) :
    ∃ ret, storageConvert pre datadir (trimSep (datadir ++ (dirs ++ slash :: name))) =
      .ok (some (ret, trimSep (datadir ++ (dirs ++ slash :: name)))) := by
  obtain ⟨t, ht⟩ := exists_cons_slash hdirs name
  have hshort := trimAux_length_le false (dirs ++ slash :: name)
  have hsame : trimSep (scanBack datadir ++ (dirs ++ slash :: name)) =
      trimSep (dirs ++ slash :: name) := by
    rw [ht]
    exact trimSep_append_slashes [] hplain t
  rw [storageConvert_stored hpre hdirs hn, hsame, if_neg]
  · rw [ht, trimSep_append_slashes _ hplain]
    exact ⟨_, rfl⟩
  · unfold trimSep
    omega

/-- **Stored paths are left alone by `storage_convert`, however often it is applied, exactly if
    `datadir` does not end in a digit directory.** -/
theorem reconvert_iff {pre datadir file ret path : Path} (hpre : Stops pre)
    (h : storageConvert pre datadir file = .ok (some (ret, path))) :
    (∀ n, convertTimes pre datadir n path = some path) ↔ PlainEnd datadir := by
  obtain ⟨dirs, -, name, -, hdirs, hn, rfl, rfl, hlen⟩ := storageConvert_parts h
  constructor
  · intro hall c hc
    have hone := hall 1
    rw [convertTimes, storageConvert_stored hpre hdirs hn] at hone
    split at hone
    · rename_i hok
      split at hok
      · cases hok
      cases hok
      -- a digit in front would be one more byte that is no separator
      have hcount := congrArg (fun s => (List.filter (· != slash) s).length)
        (Option.some.inj hone)
      simp only [filter_trimSep, filter_append, length_append] at hcount
      have hnil : (scanBack datadir).filter (· != slash) = [] :=
        length_eq_zero_iff.mp (by omega)
      simpa using filter_eq_nil_iff.mp hnil c hc
    · cases hone
  · intro hplain n
    obtain ⟨ret, hfix⟩ := storageConvert_fixed hpre hdirs hn hplain hlen
    induction n with
    | zero => rfl
    | succ n ih => rw [convertTimes, hfix]; exact ih

theorem reconvert_of_plain :
    PlainEnd (ascii "/d1") ∧
      ∀ n, convertTimes [] (ascii "/d1") n (ascii "/d1/2/3/a") = some (ascii "/d1/2/3/a") :=
  ⟨by decide, (@reconvert_iff [] (ascii "/d1") (ascii "x//2//3/a") _ _ stops_nil rfl).mpr
    (by decide)⟩

/-- **Under "/d/5" the name "/1/a" is stored as "/d/5/1/a"**, and that is converted to
    "/d/5/5/1/a". -/
theorem reconvert_grows :
    storageConvert [] (ascii "/d/5") (ascii "/1/a") =
        .ok (some (ascii "/1/a", ascii "/d/5/1/a")) ∧
      convertTimes [] (ascii "/d/5") 1 (ascii "/d/5/1/a") = some (ascii "/d/5/5/1/a") :=
  ⟨rfl, rfl⟩

/-! ## 4. Names that come back -/

namespace Client

def bar : UInt8 := 124

/-- `check_rsp_from_storage`: `remotefile` and `group`. The name ends at the first '|', and its
    leading separators become one; without any, the '|' in front of the name is taken for it. -/
def checkRspFromStorage (errmsg : List UInt8) : Option (Path × Path) :=
  if errmsg.take 3 = ascii "OK|" then
    let s := errmsg.drop 3
    if bar ∈ s then
      let name := s.takeWhile (· != bar)
      let front := if name.head? = some slash then slash else bar
      some (front :: name.dropWhile (· == slash), (s.dropWhile (· != bar)).drop 1)
    else none
  else none

/-- `errmsg` after a reply: the body as a string, in 256 bytes. -/
def errmsgOf (body : List UInt8) : List UInt8 := field256 (cText body)

end Client

/-- The body of `create_push_rsp`. -/
def pushRspBody (domain retfile : Path) : List UInt8 :=
  charField 256 ((ascii "OK|" ++ retfile ++ ascii "|" ++ domain).take 255)

/-- Where `do_push_task` puts the file of a request, or looks for it: `storage_convert` on the name
    that is chosen for it. -/
def pushPath (cfg : Cfg) (e : Env) (svc : Svc) (pre : Path) (status : UInt8) (base : TaskBase)
    (picIndex : Nat) : Except Fault (Option Path) :=
  match pushName cfg e svc (baseHead CMD_PUT_FILE_REQ status) base picIndex with
  | .error f => .error f
  | .ok (name, _) =>
    match storageConvert pre cfg.datadir name with
    | .error f => .error f
    | .ok stored => .ok (stored.map Prod.snd)

open Client

theorem length_charField (n : Nat) (s : List UInt8) : (charField n s).length = n := by
  simp [charField]

theorem cText_charField_append {n : Nat} {s : List UInt8} (rest : List UInt8) (h0 : 0 ∉ s)
    (hlen : s.length < n) : cText (charField n s ++ rest) = s := by
  obtain ⟨k, hk⟩ := Nat.exists_eq_add_one_of_ne_zero (Nat.sub_ne_zero_of_lt hlen)
  have hfield : charField n s = s ++ 0 :: List.replicate k 0 := by
    rw [charField, take_append, take_of_length_le (Nat.le_of_lt hlen),
      take_replicate, Nat.min_eq_left (Nat.sub_le _ _), hk, replicate_succ]
  rw [cText, hfield, append_assoc, cons_append, takeWhile_ne_append_cons h0]

/-- The reply as a string, whatever is behind it. -/
theorem cText_pushRsp {domain retfile : Path} (rest : List UInt8) (h0 : 0 ∉ retfile)
    (hd : 0 ∉ domain) :
    cText (pushRspBody domain retfile ++ rest) =
      ascii "OK|" ++ (retfile ++ bar :: domain).take 252 := by
  have htext : (ascii "OK|" ++ retfile ++ ascii "|" ++ domain).take 255 =
      ascii "OK|" ++ (retfile ++ bar :: domain).take 252 := by
    rw [append_assoc, append_assoc]
    rfl
  rw [pushRspBody, htext]
  refine cText_charField_append rest (fun h => ?_) ?_
  · obtain h | h := mem_append.mp h
    · exact absurd h (by decide)
    obtain h | h := mem_append.mp (mem_of_mem_take h)
    · exact h0 h
    obtain h | h := mem_cons.mp h
    · exact absurd h (by decide)
    · exact hd h
  · rw [length_append, length_take]
    have : (ascii "OK|").length = 3 := rfl
    omega

theorem field256_pushRsp (s : List UInt8) :
    field256 (ascii "OK|" ++ s.take 252) = ascii "OK|" ++ s.take 252 := by
  refine take_of_length_le ?_
  rw [length_append, length_take]
  have : (ascii "OK|").length = 3 := rfl
  omega

theorem checkRspFromStorage_ok (s : List UInt8) :
    checkRspFromStorage (ascii "OK|" ++ s) =
      let name := s.takeWhile (· != bar)
      if bar ∈ s then
        some ((if name.head? = some slash then slash else bar) :: name.dropWhile (· == slash),
          (s.dropWhile (· != bar)).drop 1)
      else none := rfl

/-- **The client keeps the return name up to its first '|', with one separator in front.** -/
theorem checkRspFromStorage_pushRsp {domain : Path} (h0 : 0 ∉ slash :: t) (hd : 0 ∉ domain)
    (hlen : (slash :: t).length + domain.length + 4 < 256) :
    ∃ group, checkRspFromStorage (errmsgOf (pushRspBody domain (slash :: t))) =
        some (slash :: (t.takeWhile (· != bar)).dropWhile (· == slash), group) ∧
      (bar ∉ t → group = domain) := by
  have hbody : errmsgOf (pushRspBody domain (slash :: t)) =
      ascii "OK|" ++ (slash :: t ++ bar :: domain) := by
    have hfit : (slash :: t ++ bar :: domain).take 252 = slash :: t ++ bar :: domain := by
      refine take_of_length_le ?_
      rw [length_append, length_cons (a := bar)]
      omega
    rw [errmsgOf, ← append_nil (pushRspBody _ _), cText_pushRsp [] h0 hd, field256_pushRsp, hfit]
  have htake : (t ++ bar :: domain).takeWhile (· != bar) = t.takeWhile (· != bar) := by
    rw [takeWhile_append]
    split
    · rename_i hall
      rw [( takeWhile_prefix _).eq_of_length hall]
      exact append_nil t
    · rfl
  have hmem : bar ∈ slash :: t ++ bar :: domain := mem_append_right _ mem_cons_self
  refine ⟨((t ++ bar :: domain).dropWhile (· != bar)).drop 1, ?_, fun hbar => ?_⟩
  · rw [hbody, ← htake, checkRspFromStorage_ok]
    exact if_pos hmem
  · rw [dropWhile_ne_append_cons hbar]
    rfl

theorem storageConvert_dirTail (hpre : Stops pre) (hdirs : DirTail dirs) (hn : slash ∉ name)
    (hlen : datadir.length + (dirs ++ slash :: name).length < 256) :
    storageConvert pre datadir (dirs ++ slash :: name) =
      .ok (some ((dirs ++ slash :: name).take 255,
        trimSep (datadir ++ (dirs ++ slash :: name)))) := by
  have hscan : digitDirs pre dirs = dirs := by
    rw [digitDirs_of_stops hpre, ← nil_append dirs, scanBack_append [] hdirs]
    rfl
  rw [storageConvert, splitLast_append _ hn]
  simp only [hscan, if_neg (Nat.not_le.mpr hlen)]

theorem dirTail_collapse (hdirs : DirTail dirs) (hn : slash ∉ name)
    (ht : dirs ++ slash :: name = slash :: t) :
    ∃ dirs', DirTail dirs' ∧ slash :: t.dropWhile (· == slash) = dirs' ++ slash :: name := by
  have hname : name.dropWhile (· == slash) = name := by
    cases name with
    | nil => rfl
    | cons c name =>
      have hc : (c == slash) = false := by
        rw [beq_eq_false_iff_ne]
        rintro rfl
        exact hn mem_cons_self
      rw [dropWhile_cons, hc]
      rfl
  have hnil : DirTail [] := ⟨fun _ hc => (nomatch hc), .inl rfl⟩
  obtain rfl | ⟨u, rfl⟩ := hdirs.2
  · cases ht
    exact ⟨[], hnil, by rw [hname]; rfl⟩
  cases ht
  change ∃ dirs', DirTail dirs' ∧ slash :: (u ++ slash :: name).dropWhile (· == slash) = _
  rw [dropWhile_append]
  split
  · exact ⟨[], hnil, by rw [dropWhile_cons, if_pos (beq_self_eq_true _), hname]; rfl⟩
  refine ⟨slash :: u.dropWhile (· == slash), ⟨?_, .inr ⟨_, rfl⟩⟩, rfl⟩
  intro c hc
  rcases mem_cons.mp hc with rfl | hc
  · rfl
  · exact hdirs.1 c (mem_cons_of_mem _ ((dropWhile_sublist _).subset hc))

theorem trimSep_collapse (datadir t : Path) :
    trimSep (datadir ++ slash :: t.dropWhile (· == slash)) = trimSep (datadir ++ slash :: t) := by
  have hseps : ∀ c ∈ t.takeWhile (· == slash), c = slash := fun c hc => by
    simpa using mem_takeWhile_imp hc
  have hsplit : slash :: t = t.takeWhile (· == slash) ++ slash :: t.dropWhile (· == slash) := by
    have hcomm : t.takeWhile (· == slash) ++ [slash] = slash :: t.takeWhile (· == slash) := by
      rw [eq_replicate_of_mem hseps, ← replicate_succ', replicate_succ]
    rw [← singleton_append (l := t.dropWhile _), ← append_assoc, hcomm, cons_append,
      takeWhile_append_dropWhile]
  rw [hsplit, trimSep_append_slashes _ hseps]

theorem createReqMsg_filename {api : Api} {file : LocalStat}
    {f : Option (List UInt8 × Int)} (htype : api.type = TASK_DELFILE ∨ api.type = TASK_MODYFILE)
    (h : createReqMsg .putData file api = some (.put status base f)) :
    base.type = TASK_DELFILE ∧ base.filename = field256 api.remotefile ∨
      base.type = TASK_MODYFILE ∧ status = ADD_PATH_BY_UPLOAD ∧
        base.filename = field256 (slash :: api.remotefile) := by
  have hne : TASK_MODYFILE ≠ TASK_DELFILE := by decide
  have hdir : ADD_PATH_BY_UPLOAD ≠ ADD_DIR_BY_UPLOAD := by decide
  unfold createReqMsg at h
  rcases htype with htype | htype
  · simp only [if_pos htype] at h
    cases h
    exact .inl ⟨htype, rfl⟩
  simp only [htype, if_neg hne, if_true, if_neg hdir] at h
  split at h
  · cases h
  split at h
  · cases h
  split at h
  · cases h
    exact .inr ⟨rfl, rfl, rfl⟩
  · cases h

theorem pushName_of_request {cfg : Cfg} {e : Env} {svc : Svc}
    (picIndex : Nat) (h : base.type = TASK_DELFILE ∨
      base.type = TASK_MODYFILE ∧ status = ADD_PATH_BY_UPLOAD) :
    pushName cfg e svc (baseHead CMD_PUT_FILE_REQ status) base picIndex =
      .ok (base.filename, picIndex) := by
  unfold pushName
  rcases h with h | ⟨h, rfl⟩
  · rw [if_neg fun hc => hc.1 h, if_neg fun hc => hc.1 h]
  · rw [if_neg fun hc => absurd (h.symm.trans hc.2.2) (by decide),
      if_neg fun hc => absurd hc.2.2 (by decide)]

theorem notMem_ret {c : UInt8} (hdirs : DirTail dirs) (hn : c ∉ name)
    (hc : isDirChar c = false) : c ∉ dirs ++ slash :: name := by
  intro h
  rcases mem_append.mp h with h | h
  · rw [hdirs.1 c h] at hc
    cases hc
  rcases mem_cons.mp h with rfl | h
  · cases hc
  · exact hn h

theorem pushPath_dirTail {cfg : Cfg} {e : Env} {svc : Svc} (picIndex : Nat)
    (hreq : base.type = TASK_DELFILE ∨
      base.type = TASK_MODYFILE ∧ status = ADD_PATH_BY_UPLOAD)
    (hfile : base.filename = field256 (dirs ++ slash :: name)) (hpre : Stops pre)
    (hdirs : DirTail dirs) (hn : slash ∉ name)
    (hlen : cfg.datadir.length + (dirs ++ slash :: name).length < 256) :
    pushPath cfg e svc pre status base picIndex =
      .ok (some (trimSep (cfg.datadir ++ (dirs ++ slash :: name)))) := by
  have hcut : field256 (dirs ++ slash :: name) = dirs ++ slash :: name :=
    take_of_length_le (by omega)
  rw [pushPath, pushName_of_request picIndex hreq, hfile, hcut]
  simp only [storageConvert_dirTail hpre hdirs hn hlen]
  rfl

/-- A delete and a modify of the name `remote` come to the stored path. -/
def KeepsAddress (cfg : Cfg) (path remote : Path) : Prop :=
  ∀ (api : Api) (stat : LocalStat) (status : UInt8) (base : TaskBase)
    (f : Option (List UInt8 × Int)) (e : Env) (svc : Svc) (pre : Path) (picIndex : Nat),
    api.remotefile = remote → (api.type = TASK_DELFILE ∨ api.type = TASK_MODYFILE) →
    createReqMsg .putData stat api = some (.put status base f) → Stops pre →
    pushPath cfg e svc pre status base picIndex = .ok (some path)

theorem keepsAddress_collapse {cfg : Cfg} (hdirs : DirTail dirs) (hn : slash ∉ name)
    (ht : dirs ++ slash :: name = slash :: t)
    (hmodify : cfg.datadir.length + (slash :: t).length + 1 < 256) :
    KeepsAddress cfg (trimSep (cfg.datadir ++ slash :: t)) (slash :: t.dropWhile (· == slash)) := by
  obtain ⟨dirs', hdirs', hcol⟩ := dirTail_collapse hdirs hn ht
  have hshort : (t.dropWhile (· == slash)).length ≤ t.length := (dropWhile_sublist _).length_le
  intro api stat status base f e svc pre picIndex hapi htype hreq hpre
  rw [← trimSep_collapse, hcol]
  rcases createReqMsg_filename htype hreq with ⟨hdel, hname⟩ | ⟨hmod, hstatus, hname⟩
  · rw [hapi, hcol] at hname
    refine pushPath_dirTail picIndex (.inl hdel) hname hpre hdirs' hn ?_
    rw [← hcol]
    simp only [length_cons] at hmodify ⊢
    omega
  rw [hapi, hcol, ← cons_append] at hname
  have hmore : DirTail (slash :: dirs') := by
    refine ⟨?_, .inr ⟨_, rfl⟩⟩
    intro c hc
    rcases mem_cons.mp hc with rfl | hc
    · rfl
    · exact hdirs'.1 c hc
  have hpath : trimSep (cfg.datadir ++ (slash :: dirs' ++ slash :: name)) =
      trimSep (cfg.datadir ++ (dirs' ++ slash :: name)) := by
    rw [cons_append, ← hcol]
    exact @trimSep_append_slashes _ [slash] (by simp) _
  rw [← hpath]
  refine pushPath_dirTail picIndex (.inr ⟨hmod, hstatus⟩) hname hpre hmore hn ?_
  rw [cons_append, ← hcol]
  simp only [length_cons] at hmodify ⊢
  omega

theorem count_bar_trimSep (s : Path) : (trimSep s).count bar = s.count bar := by
  rw [← count_filter (p := (· != slash)) (a := bar) (l := trimSep s) rfl, filter_trimSep,
    count_filter rfl]

/-- A name without '|' comes to a path with no more of them than `datadir` has. -/
theorem bar_notMem_of_keepsAddress {cfg : Cfg} {ret remote : Path} (hbar : bar ∉ remote)
    (hlen : remote.length < 256)
    (h : KeepsAddress cfg (trimSep (cfg.datadir ++ ret)) remote) : bar ∉ ret := by
  have hdel := h ⟨[], remote, [], TASK_DELFILE, 0, 0⟩ ⟨none, false⟩ 0 _ none (smallEnv 0) .up [] 0
    rfl
    (.inl rfl) rfl stops_nil
  have hcut : field256 remote = remote := take_of_length_le (by omega)
  rw [pushPath, pushName_of_request 0 (.inl rfl)] at hdel
  simp only [hcut] at hdel
  split at hdel
  · cases hdel
  rename_i stored hstored
  obtain ⟨r, rfl, hr⟩ := Option.map_eq_some_iff.mp (Except.ok.inj hdel)
  obtain ⟨dirs, dir, name, hsplit, hdirs, -, hret, hpath, -⟩ := storageConvert_parts hstored
  have hname : bar ∉ name := fun hm => hbar <| by
    rw [(splitLast_eq_some hsplit).1]
    exact mem_append_right _ (mem_cons_of_mem _ hm)
  have hcount := congrArg (count bar) (hr.symm.trans hpath)
  rw [count_bar_trimSep, count_bar_trimSep, count_append, count_append, hret,
    count_eq_zero.mpr (notMem_ret hdirs hname (by decide))] at hcount
  exact count_eq_zero.mp (by omega)

/-- **A returned name keeps its address exactly if the last component of the uploaded name has no
    '|'.** The client takes a name from the storage's reply, and a delete and a modify of it are
    mapped to the stored path again. -/
theorem returned_name_stable (cfg : Cfg) {pre file ret path : Path}
    (h : storageConvert pre cfg.datadir file = .ok (some (ret, path))) (hfile : 0 ∉ file)
    (hdomain : 0 ∉ cfg.domain) (hreply : ret.length + cfg.domain.length + 4 < 256)
    (hmodify : cfg.datadir.length + ret.length + 1 < 256) :
    ∃ remote group, checkRspFromStorage (errmsgOf (pushRspBody cfg.domain ret)) =
        some (remote, group) ∧
      (KeepsAddress cfg path remote ↔
        ∀ dir name, splitLast file = some (dir, name) → bar ∉ name) ∧
      (KeepsAddress cfg path remote → group = cfg.domain) := by
  obtain ⟨dirs, dir, name, hsplit, hdirs, hn, hret, rfl, -⟩ := storageConvert_parts h
  have h0 : 0 ∉ name := fun hm => hfile <| by
    rw [(splitLast_eq_some hsplit).1]
    exact mem_append_right _ (mem_cons_of_mem _ hm)
  obtain ⟨t, ht⟩ := exists_cons_slash hdirs name
  have hret0 : 0 ∉ slash :: t := ht ▸ notMem_ret hdirs h0 (by decide)
  rw [hret, ht] at hreply hmodify ⊢
  obtain ⟨group, hrsp, hgroup⟩ := checkRspFromStorage_pushRsp hret0 hdomain hreply
  have hback : KeepsAddress cfg (trimSep (cfg.datadir ++ slash :: t))
      (slash :: (t.takeWhile (· != bar)).dropWhile (· == slash)) → bar ∉ slash :: t := by
    have hsub := (dropWhile_sublist (l := t.takeWhile (· != bar)) (· == slash)).trans
      ( takeWhile_sublist (l := t) (· != bar))
    refine bar_notMem_of_keepsAddress (fun hm => ?_) ?_
    · obtain hm | hm := mem_cons.mp hm
      · exact absurd hm (by decide)
      · have hne := mem_takeWhile_imp ((dropWhile_sublist _).subset hm)
        simp at hne
    · have := hsub.length_le
      rw [length_cons] at hmodify ⊢
      omega
  refine ⟨_, group, hrsp, ⟨fun hkeeps dir' name' hsplit' hm => ?_, fun hbar => ?_⟩,
    fun hkeeps => ?_⟩
  · cases hsplit.symm.trans hsplit'
    exact hback hkeeps (ht ▸ mem_append_right _ (mem_cons_of_mem _ hm))
  · have hbar : bar ∉ slash :: t := ht ▸ notMem_ret hdirs (hbar dir name hsplit) (by decide)
    have hall : t.takeWhile (· != bar) = t :=
      takeWhile_eq_self_iff.mpr (bne_of_notMem fun hm => hbar (mem_cons_of_mem _ hm))
    rw [hall]
    exact keepsAddress_collapse hdirs hn ht hmodify
  · exact hgroup fun hm => hback hkeeps (mem_cons_of_mem _ hm)

theorem returned_name_stable_plain :
    ∃ remote, checkRspFromStorage (errmsgOf (pushRspBody smallCfg.domain (ascii "/1/2/a"))) =
        some (remote, smallCfg.domain) ∧
      pushPath smallCfg (smallEnv 0) .up [] 0
        { TaskBase.zero with type := TASK_DELFILE, filename := field256 remote } 0 =
          .ok (some (ascii "/d/1/2/a")) := by
  obtain ⟨remote, group, hreply, hiff, hgroup⟩ := @returned_name_stable smallCfg []
    (ascii "x/1/2/a") (ascii "/1/2/a") (ascii "/d/1/2/a") rfl (by decide) (by decide) (by decide)
    (by decide)
  have hkeeps := hiff.mpr fun dir name h => by cases h; decide
  cases hgroup hkeeps
  exact ⟨remote, hreply, hkeeps ⟨[], remote, [], TASK_DELFILE, 0, 0⟩ ⟨none, false⟩ 0 _ none
    (smallEnv 0) .up [] 0 rfl (.inl rfl) rfl stops_nil⟩

/-- **A '|' in the name cuts it on its way back**: "/1/a|b" is stored as "/d/1/a|b", the client
    keeps "/1/a", and a delete of that is for "/d/1/a". -/
theorem returned_name_cut :
    storageConvert [] smallCfg.datadir (ascii "/1/a|b") =
        .ok (some (ascii "/1/a|b", ascii "/d/1/a|b")) ∧
      checkRspFromStorage (errmsgOf (pushRspBody smallCfg.domain (ascii "/1/a|b"))) =
        some (ascii "/1/a", ascii "b|dom") ∧
      pushPath smallCfg (smallEnv 0) .up [] 0
        { TaskBase.zero with type := TASK_DELFILE, filename := ascii "/1/a" } 0 =
          .ok (some (ascii "/d/1/a")) :=
  ⟨rfl, by decide +kernel, rfl⟩

end Pfs
