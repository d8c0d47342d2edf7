/-
  The configuration loader in memory: `myconfig_loadfile0` (lib/myconfig.c).

  `Config` has the loader on lines of text. Here it works on the mapped buffer of `len + 1` bytes,
  access by access: it looks for '\n', writes a NUL there, and divides the line by writing more of
  them. The pointer behind '\n' is the next cursor; it is NULL if no '\n' was found, and NULL is
  below `buf + len`.

  Main results: `loadLines_entries`, `scanLoop_text`, `loadfile_scanText`, `load_total`,
  `load_outside`.
-/
import Pfs.ConfigDump

namespace Pfs.Conf

open Lib List

/-! ## 1. The function -/

/-- What is handed to `myconfig_put_value`. -/
structure Entry where
  sect : Path
  key : Path
  val : Path
  deriving DecidableEq

/-- The variables of the loop: `buf`, `p` (`none` is NULL), `section` (`none` is the literal ""),
    and what was handed over. -/
structure Scan (n : Nat) where
  buf : Buf n
  p : Option Nat
  sect : Option Nat
  out : List Entry
  deriving DecidableEq

section Function

variable {n : Nat}

/-- The line of a section, with `p` behind '['. -/
def sectionAt (p : Nat) (buf : Buf n) (sect : Option Nat) : Except Oob (Buf n × Option Nat) := do
  match ← buf.strchr p 93 with
  | none => .ok (buf, sect)
  | some q =>
    let q ← buf.back isSep q
    let buf ← buf.set q 45
    let buf ← buf.set (q + 1) 0
    let p ← buf.scan (fun c => !isSep c) p
    let c ← buf.get p
    .ok (buf, if c = 0 then none else some p)

/-- The text that `section` points to. -/
def sectionText (buf : Buf n) : Option Nat → Except Oob Path
  | none => .ok []
  | some i => buf.str i

/-- Any number of '=', from `p` on. -/
def skipEquals (p : Nat) (buf : Buf n) : Except Oob Nat := do
  let c ← buf.get p
  if c = 61 then buf.scan (fun c => c != 61) (p + 1) else .ok p

/-- From the first character of a key: the end of the key, and the position behind blanks and
    '='. -/
def keyEnd (k : Nat) (buf : Buf n) : Except Oob (Nat × Nat) := do
  let v ← buf.scan (fun c => endsKey c || c == 0) k
  let p ← buf.scan (fun c => !isBlank c) v
  let p ← skipEquals p buf
  .ok (v, p)

/-- `pn - 2` or `p + strlen(p) - 1`, and one more. -/
def lineEnd (p : Nat) (pn : Option Nat) (buf : Buf n) : Except Oob Nat :=
  match pn with
  | some pn => .ok (pn - 1)
  | none => (buf.str p).map fun text => p + text.length

/-- `isalnum(k[0]) && *v`, and what is then handed over. -/
def takeEntry (k v : Nat) (buf : Buf n) (sect : Option Nat) : Except Oob (Option Entry) := do
  let c ← buf.get k
  let d ← buf.get v
  if isAlnum c && d != 0 then
    let sect ← sectionText buf sect
    let key ← buf.str k
    let val ← buf.str v
    .ok (some ⟨sect, key, val⟩)
  else .ok none

/-- The line of a key, with `k` at its first character. -/
def keyAt (k : Nat) (pn : Option Nat) (buf : Buf n) (sect : Option Nat) :
    Except Oob (Buf n × Option Entry) := do
  let (v, p) ← keyEnd k buf
  let buf ← buf.set v 0
  let v ← buf.scan (fun c => !isBlank c) p
  let last ← lineEnd p pn buf
  let buf ← buf.eraseBack isBlank last
  let e ← takeEntry k v buf sect
  .ok (buf, e)

/-- The end of the line is looked for, and becomes a NUL; with the pointer behind it. -/
def cutLine (p : Nat) (buf : Buf n) : Except Oob (Buf n × Option Nat) := do
  match ← buf.strchr p 10 with
  | some q =>
    let buf ← buf.set q 0
    .ok (buf, some (q + 1))
  | none => .ok (buf, none)

/-- One turn of the loop. At NULL `strchr` has nothing to read. -/
def iter (st : Scan n) : Except Oob (Scan n) :=
  match st.p with
  | none => .error .outside
  | some p => do
    let (buf, pn) ← cutLine p st.buf
    let p ← buf.scan (fun c => !isBlank c) p
    let c ← buf.get p
    if c = 91 then
      let (buf, sect) ← sectionAt (p + 1) buf st.sect
      .ok { st with buf := buf, p := pn, sect := sect }
    else if c ≠ 0 ∧ c ≠ 35 ∧ c ≠ 59 then
      let (buf, e) ← keyAt p pn buf st.sect
      .ok { st with buf := buf, p := pn, out := st.out ++ e.toList }
    else .ok { st with buf := buf, p := pn }

/-- `p < buf + len` -/
def Scan.running (len : Nat) (st : Scan n) : Bool :=
  match st.p with
  | none => true
  | some p => p < len

/-- The loop; `none` if it has not ended after so many turns. -/
def scanLoop (len : Nat) : Nat → Scan n → Except Oob (Option (Scan n))
  | 0, _ => .ok none
  | turns + 1, st => if st.running len then iter st >>= scanLoop len turns else .ok (some st)

end Function

/-- The first turn: `buf` with the NUL at its end. -/
def Scan.start (text : Path) : Scan (text.length + 1) where
  buf := ⟨text ++ [0], length_append⟩
  p := some 0
  sect := none
  out := []

/-- The loop over a text of `len` bytes. -/
def scanText (text : Path) : Except Oob (Option (Scan (text.length + 1))) :=
  scanLoop text.length (text.length + 1) (Scan.start text)

/-- What the system does: `open`, `mmap`, and how many bytes `read` gives (`none` is -1). -/
structure LoadEnv where
  opens : Bool
  maps : Bool
  got : Option Nat

/-- `len` is an `int`, and so is `len + 1`; there is no mapping of 0 bytes, nor of a negative
    number. -/
def mapLen (size : Nat) : Option Nat :=
  if 0 < toInt32 (toInt32 size + 1) then some (toInt32 size).toNat else none

/-- What is in front of `buf[len]`: the bytes that one `read` gave, and zeros. -/
def LoadEnv.text (e : LoadEnv) (file : Path) : Option Path := do
  guard e.opens
  let len ← mapLen file.length
  guard e.maps
  let k ← e.got
  some ((file.take k ++ List.replicate len 0).take len)

/-- It returns -1, or has handed over these entries; or it does not return. -/
inductive Loaded where
  | failed
  | done (out : List Entry)
  | endless
  deriving DecidableEq

def Loaded.of {n : Nat} : Option (Scan n) → Loaded
  | some st => .done st.out
  | none => .endless

/-- `myconfig_loadfile0` -/
def loadfile0 (e : LoadEnv) (file : Path) : Except Oob Loaded :=
  match e.text file with
  | none => .ok .failed
  | some text => (scanText text).map Loaded.of

/-! ## 2. Lines and entries -/

/-- What a line means: the section after it, and the entry. -/
def lineEntry (line sect : Path) : Path × Option Entry :=
  match line.dropWhile isBlank with
  | [] => (sect, none)
  | c :: p =>
    if c = 91 then ((sectionOf p).getD sect, none)
    else if c = 35 ∨ c = 59 then (sect, none)
    else if (keyOf (c :: p)).head?.any isAlnum && valueOf (c :: p) != [] then
      (sect, some ⟨sect, keyOf (c :: p), valueOf (c :: p)⟩)
    else (sect, none)

section LineEntry

variable {line p sect : Path} {c : UInt8}

theorem lineEntry_blank (h : line.dropWhile isBlank = []) : lineEntry line sect = (sect, none) := by
  simp only [lineEntry, h]

theorem lineEntry_section (h : line.dropWhile isBlank = 91 :: p) :
    lineEntry line sect = ((sectionOf p).getD sect, none) := by
  simp only [lineEntry, h, if_true]

theorem lineEntry_remark (h : line.dropWhile isBlank = c :: p) (hc : c ≠ 91)
    (hrem : c = 35 ∨ c = 59) :
    lineEntry line sect = (sect, none) := by
  simp only [lineEntry, h, if_neg hc, if_pos hrem]

theorem lineEntry_key (h : line.dropWhile isBlank = c :: p) (hc : c ≠ 91)
    (hrem : ¬ (c = 35 ∨ c = 59)) :
    lineEntry line sect =
      (sect, if (keyOf (c :: p)).head?.any isAlnum && valueOf (c :: p) != [] then
      some ⟨sect, keyOf (c :: p), valueOf (c :: p)⟩ else none) := by
  simp only [lineEntry, h, if_neg hc, if_neg hrem]
  split <;> rfl

end LineEntry

def entriesOf : List Path → Path → List Entry
  | [], _ => []
  | line :: lines, sect => (lineEntry line sect).2.toList ++ entriesOf lines (lineEntry line sect).1

/-- Before `inited` each entry is put into the store. On a reload it is one of the given keys, those
    of `reload_key`, and takes the place of what was there. -/
def putEntry (reload : Option (List Path)) (s : Store) (e : Entry) : Except Oob Store :=
  match reload with
  | none => putValue e.sect e.key e.val s
  | some keys =>
    if keys.any fun key => key == e.key then deleteValue e.sect e.key s >>=
      putValue e.sect e.key e.val
    else .ok s

theorem loadLine_entry (line : Path) (l : Loader) :
    loadLine line l =
      ((lineEntry line l.sect).2.toList.foldlM (putEntry none) l.store).map
        (Loader.mk (lineEntry line l.sect).1) := by
  unfold loadLine lineEntry
  cases line.dropWhile isBlank with
  | nil => rfl
  | cons c p =>
    by_cases hsect : c = 91
    · simp only [if_pos hsect]
      rfl
    by_cases hrem : c = 35 ∨ c = 59
    · simp only [if_neg hsect, if_pos hrem]
      rfl
    simp only [if_neg hsect, if_neg hrem]
    split
    · simp only [Option.toList_some, foldlM_cons, foldlM_nil, putEntry]
      cases putValue l.sect (keyOf (c :: p)) (valueOf (c :: p)) l.store <;> rfl
    · rfl

theorem loadLines_entries (ls : List Path) (l : Loader) :
    (loadLines ls l).map Loader.store = (entriesOf ls l.sect).foldlM (putEntry none) l.store := by
  induction ls generalizing l with
  | nil => rfl
  | cons line ls ih =>
    rw [loadLines, entriesOf, foldlM_append, loadLine_entry]
    cases (lineEntry line l.sect).2.toList.foldlM (putEntry none) l.store with
    | error e => rfl
    | ok s => exact ih _

/-! ## 3. One line -/

/-- `section` points to the text `sect`, in front of the end of `pre`. -/
inductive SectIn (pre : Path) : Option Nat → Path → Prop
  | literal : SectIn pre none []
  | text {head sect tail : Path} (h : pre = head ++ (sect ++ 0 :: tail)) (h0 : 0 ∉ sect) :
      SectIn pre (some head.length) sect

section Line

variable {n : Nat} {buf : Buf n} {a t post pre sect : Path} {i : Option Nat} {g f : UInt8 → Bool}

theorem SectIn.append (h : SectIn pre i sect) (more : Path) : SectIn (pre ++ more) i sect := by
  cases h with
  | literal => exact .literal
  | @text head sect tail h h0 =>
    have hmore : pre ++ more = head ++ (sect ++ 0 :: (tail ++ more)) := by rw [h]; simp
    exact .text hmore h0

theorem sectionText_eq (h : SectIn pre i sect) (hb : buf.bytes = pre ++ post) :
    sectionText buf i = .ok sect := by
  cases h with
  | literal => rfl
  | @text head sect tail h h0 =>
    have hbytes : buf.bytes = head ++ (sect ++ 0 :: (tail ++ post)) := by rw [hb, h]; simp
    exact Buf.str_at hbytes rfl h0

theorem dropWhile_head {c : UInt8} (h : t.dropWhile f = c :: post) : f c = false := by
  have hhead := head_dropWhile_not f (l := t) (by rw [h]; simp)
  simpa [h] using hhead

variable {k pn : Nat} {r w : Path}

theorem scan_text (h : buf.bytes = a ++ (t ++ 0 :: post)) (hk : k = a.length) (h0 : g 0 = true) :
    buf.scan g k = .ok (k + (t.takeWhile fun c => !g c).length) := by
  have hall : ∀ x ∈ t.takeWhile fun c => !g c, g x = false := by
    intro x hx
    simpa using mem_takeWhile_imp hx
  cases hrest : t.dropWhile fun c => !g c with
  | nil =>
    have ht : t.takeWhile (fun c => !g c) = t := by
      have happ := @takeWhile_append_dropWhile _ (fun c => !g c) t
      rwa [hrest, append_nil] at happ
    rw [ht] at hall ⊢
    exact Buf.scan_at h hk hall h0
  | cons c rest =>
    have hc : g c = true := by simpa using dropWhile_head hrest
    have ht : t = t.takeWhile (fun c => !g c) ++ c :: rest := by
      rw [← hrest, takeWhile_append_dropWhile]
    have hbytes : buf.bytes = a ++ (t.takeWhile (fun c => !g c) ++ c :: (rest ++ 0 :: post)) := by
      rw [h]
      nth_rewrite 1 [ht]
      simp
    exact Buf.scan_at hbytes hk hall hc

theorem halts_append_rdropWhile (ha : Buf.Halts f a) (x : Path) :
    Buf.Halts f (a ++ x.rdropWhile f) := by
  by_cases hx : x.rdropWhile f = []
  · rwa [hx, append_nil]
  refine ⟨a ++ (x.rdropWhile f).dropLast, (x.rdropWhile f).getLast hx, ?_, ?_⟩
  · rw [append_assoc, dropLast_append_getLast]
  · simpa using rdropWhile_last_not f x hx

theorem exists_two {l : Path} (h : 2 ≤ l.length) : ∃ x y r, l = x :: y :: r := by
  rcases l with _ | ⟨x, _ | ⟨y, r⟩⟩
  · simp at h
  · simp at h
  · exact ⟨x, y, r, rfl⟩

theorem sectionStart_eq {x : Path} (hb : buf.bytes = a ++ (x ++ 45 :: 0 :: r) ++ post)
    (h0 : 0 ∉ x) :
    ∃ i', (do
        let p ← buf.scan (fun c => !isSep c) a.length
        let c ← buf.get p
        .ok (buf, if c = 0 then none else some p)) = Except.ok (buf, i') ∧
      SectIn (a ++ (x ++ 45 :: 0 :: r)) i'
        (if x.dropWhile isSep = [] then [] else x.dropWhile isSep ++ [45]) := by
  cases hname : x.dropWhile isSep with
  | nil =>
    have hall : ∀ c ∈ x ++ [45], (!isSep c) = false := by
      have hsep := dropWhile_eq_nil_iff.mp hname
      intro c hc
      rcases mem_append.mp hc with hc | hc
      · simp [hsep c hc]
      · rw [mem_singleton.mp hc]
        decide
    have hb' : buf.bytes = a ++ ((x ++ [45]) ++ 0 :: (r ++ post)) := by rw [hb]; simp
    have hscan := Buf.scan_at (g := fun c => !isSep c) hb' rfl hall (by decide)
    have hget : buf.get (a.length + (x ++ [45]).length) = .ok 0 :=
      Buf.get_at (hb'.trans (append_assoc ..).symm) length_append.symm
    refine ⟨none, ?_, .literal⟩
    rw [hscan, ok_bind, hget, ok_bind, if_pos rfl]
  | cons d z =>
    have hx : x = x.takeWhile isSep ++ d :: z := by rw [← hname, takeWhile_append_dropWhile]
    have hname0 : 0 ∉ d :: z := fun h => h0 (hx ▸ mem_append_right _ h)
    have hall : ∀ c ∈ x.takeWhile isSep, (!isSep c) = false := by
      intro c hc
      simp [mem_takeWhile_imp hc]
    have hb' : buf.bytes = a ++ (x.takeWhile isSep ++ d :: (z ++ 45 :: 0 :: (r ++ post))) := by
      rw [hb]
      nth_rewrite 1 [hx]
      simp
    have hscan := Buf.scan_at (g := fun c => !isSep c) hb' rfl hall (by simp [dropWhile_head hname])
    have hget : buf.get (a.length + (x.takeWhile isSep).length) = .ok d :=
      Buf.get_at (hb'.trans (append_assoc ..).symm) length_append.symm
    refine ⟨some (a ++ x.takeWhile isSep).length, ?_, ?_⟩
    · rw [hscan, ok_bind, hget, ok_bind, if_neg fun hd => hname0 (by simp [hd]), length_append]
    · have htext : a ++ (x ++ 45 :: 0 :: r) = (a ++ x.takeWhile isSep) ++
          ((d :: z ++ [45]) ++ 0 :: r) := by
        nth_rewrite 1 [hx]
        simp
      refine .text htext fun hmem => ?_
      rcases mem_append.mp hmem with hmem | hmem
      · exact hname0 hmem
      · simp at hmem

/-- The name of a section, up to ']': the separators at its end are passed backwards, no further
    than to '[', and '-' and a NUL are written there. -/
theorem sectionAt_name {x y : Path} (hb : buf.bytes = a ++ (x ++ 93 :: y ++ 0 :: post)) (h0 : 0 ∉ x)
    (h93 : 93 ∉ x) (ha : Buf.Halts isSep a) :
    ∃ buf' i' done, sectionAt a.length buf i = .ok (buf', i') ∧ buf'.bytes = a ++ done ++ post ∧
      SectIn (a ++ done) i' (if (x.rdropWhile isSep).dropWhile isSep = [] then []
        else (x.rdropWhile isSep).dropWhile isSep ++ [45]) := by
  -- `x` without the separators at its end, and these
  obtain ⟨x', seps, hx', hx, hseps⟩ : ∃ x' seps, x' = x.rdropWhile isSep ∧ x = x' ++ seps ∧
      ∀ c ∈ seps, isSep c = true :=
    ⟨_, _, rfl, (rdropWhile_append_rtakeWhile ..).symm, fun c hc => mem_rtakeWhile_imp hc⟩
  rw [← hx']
  obtain ⟨u, w, r, htwo⟩ : ∃ u w r, seps ++ 93 :: (y ++ [0]) = u :: w :: r :=
    exists_two (by simp only [length_append, length_cons]; omega)
  have hchr : buf.strchr a.length 93 = .ok (some (a.length + x.length)) :=
    Buf.strchr_at (r := y ++ 0 :: post) (by rw [hb]; simp) rfl h0 h93
  have hback : buf.back isSep (a.length + x.length) = .ok (a ++ x').length := by
    refine Buf.back_at (s := seps) (r := 93 :: (y ++ 0 :: post)) ?_ ?_
      (hx' ▸ halts_append_rdropWhile ha x) hseps
    · rw [hb, hx]
      simp
    · rw [hx, length_append, length_append, Nat.add_assoc]
  have hbytes : buf.bytes = (a ++ x') ++ u :: (w :: r ++ post) := by
    have hrest : buf.bytes = (a ++ x') ++ (seps ++ 93 :: (y ++ [0])) ++ post := by
      rw [hb, hx]
      simp
    rw [hrest, htwo]
    simp
  obtain ⟨b₁, hset₁, hb₁⟩ := Buf.set_at hbytes rfl 45
  have hb₁' : b₁.bytes = (a ++ x' ++ [45]) ++ w :: (r ++ post) := by rw [hb₁]; simp
  have hnext : (a ++ x').length + 1 = (a ++ x' ++ [45]).length := by
    simp only [length_append, length_singleton]
  obtain ⟨b₂, hset₂, hb₂⟩ := Buf.set_at hb₁' hnext 0
  have hb₃ : b₂.bytes = a ++ (x' ++ 45 :: 0 :: r) ++ post := by
    rw [hb₂]
    simp
  obtain ⟨i', hrun, hi'⟩ := sectionStart_eq hb₃ fun h => h0 (hx ▸ mem_append_left _ h)
  refine ⟨b₂, i', x' ++ 45 :: 0 :: r, ?_, hb₃, hi'⟩
  simpa only [sectionAt, hchr, ok_bind, hback, hset₁, hset₂] using hrun

theorem sectionAt_eq {p : Path} (hb : buf.bytes = a ++ (p ++ 0 :: post)) (h0 : 0 ∉ p)
    (ha : Buf.Halts isSep a) (hi : SectIn a i sect) :
    ∃ buf' i' done, sectionAt a.length buf i = .ok (buf', i') ∧ buf'.bytes = a ++ done ++ post ∧
      SectIn (a ++ done) i' ((sectionOf p).getD sect) := by
  by_cases hmem : 93 ∈ p
  · obtain ⟨x, y, rfl, h93⟩ := eq_append_cons_of_mem hmem
    rw [sectionOf, if_pos hmem, takeWhile_ne_append_cons h93]
    exact sectionAt_name hb (fun h => h0 (mem_append_left _ h)) h93 ha
  have hchr : buf.strchr a.length 93 = .ok none := by
    have hholds : buf.Holds a.length p := ⟨post, by rw [hb, drop_left], h0⟩
    rw [Buf.strchr_eq hholds (by decide), if_neg hmem]
  refine ⟨buf, i, p ++ [0], ?_, by rw [hb]; simp, ?_⟩
  · simp only [sectionAt, hchr, ok_bind]
  · rw [sectionOf, if_neg hmem]
    exact hi.append _

theorem skipEquals_eq (hb : buf.bytes = a ++ (t ++ 0 :: post)) (hk : k = a.length) :
    skipEquals k buf = .ok (k + (t.takeWhile (· == 61)).length) := by
  unfold skipEquals
  cases t with
  | nil =>
    have hget : buf.get k = .ok 0 := Buf.get_at hb hk
    rw [hget, ok_bind]
    rfl
  | cons c t =>
    have hget : buf.get k = .ok c := Buf.get_at hb hk
    rw [hget, ok_bind]
    by_cases hc : c = 61
    · have hb' : buf.bytes = (a ++ [c]) ++ (t ++ 0 :: post) := by rw [hb]; simp
      have hk' : k + 1 = (a ++ [c]).length := by rw [hk, length_append, length_singleton]
      rw [if_pos hc, scan_text hb' hk' (by decide), takeWhile_cons_of_pos (by simp [hc])]
      simp only [length_cons, bne, Bool.not_not, Nat.add_assoc, Nat.add_comm 1]
    · rw [if_neg hc, takeWhile_cons_of_neg (by simp [hc])]
      rfl

/-- How many blanks and '=' are behind a key. -/
def gap (r : Path) : Nat :=
  (r.takeWhile isBlank).length + ((r.dropWhile isBlank).takeWhile (· == 61)).length

theorem keyOf_append_drop (w : Path) : keyOf w ++ w.drop (keyOf w).length = w :=
  prefix_iff_eq_append.mp ( takeWhile_prefix _)

theorem keyOf_eq (h0 : 0 ∉ w) : w.takeWhile (fun c => !(endsKey c || c == 0)) = keyOf w := by
  unfold keyOf
  induction w with
  | nil => rfl
  | cons c w ih =>
    rw [mem_cons, not_or] at h0
    have hc : (c == 0) = false := beq_false_of_ne (Ne.symm h0.1)
    rw [takeWhile_cons, takeWhile_cons, ih h0.2, hc, Bool.or_false]

theorem keyEnd_eq (hb : buf.bytes = a ++ (w ++ 0 :: post)) (h0 : 0 ∉ w) : keyEnd a.length buf =
      .ok (a.length + (keyOf w).length, a.length + (keyOf w).length +
        gap (w.drop (keyOf w).length)) := by
  have hkey : buf.scan (fun c => endsKey c || c == 0) a.length =
      .ok (a.length + (keyOf w).length) := by
    rw [scan_text hb rfl (by decide), keyOf_eq h0]
  have hw := keyOf_append_drop w
  generalize w.drop (keyOf w).length = r at hw ⊢
  have hb₁ : buf.bytes = (a ++ keyOf w) ++ (r ++ 0 :: post) := by
    rw [hb]
    nth_rewrite 1 [← hw]
    simp
  have hblank := scan_text (g := fun c => !isBlank c) hb₁ length_append.symm (by decide)
  simp only [Bool.not_not] at hblank
  have hb₂ : buf.bytes = (a ++ keyOf w ++ r.takeWhile isBlank) ++
      (r.dropWhile isBlank ++ 0 :: post) := by
    rw [hb₁, append_assoc (a ++ keyOf w), ← append_assoc (r.takeWhile isBlank),
      takeWhile_append_dropWhile]
  have hequals := skipEquals_eq hb₂ (k := a.length + (keyOf w).length +
    (r.takeWhile isBlank).length) (by simp only [length_append])
  unfold keyEnd
  rw [hkey, ok_bind, hblank, ok_bind, hequals, ok_bind, gap, Nat.add_assoc _ (List.length _)]

theorem takeEntry_eq {a' key val rest rest' : Path} {v : Nat}
    (hk : buf.bytes = a ++ (key ++ 0 :: rest))
    (hv : buf.bytes = a' ++ (val ++ 0 :: rest')) (hka : k = a.length) (hva : v = a'.length)
    (hkey : 0 ∉ key) (hval : 0 ∉ val) (hi : SectIn a i sect) : takeEntry k v buf i =
      .ok (if key.head?.any isAlnum && val != [] then some ⟨sect, key, val⟩ else none) := by
  have hc : buf.get k = .ok (key.headD 0) := by
    cases key with
    | nil => exact Buf.get_at hk hka
    | cons c key => exact Buf.get_at hk hka
  have hd : buf.get v = .ok (val.headD 0) := by
    cases val with
    | nil => exact Buf.get_at hv hva
    | cons d val => exact Buf.get_at hv hva
  have halnum : isAlnum (key.headD 0) = key.head?.any isAlnum := by
    cases key with
    | nil => decide
    | cons c key => rfl
  have hne : (val.headD 0 != 0) = (val != []) := by
    cases val with
    | nil => rfl
    | cons d val =>
      exact bne_iff_ne.mpr fun h => hval (h ▸ mem_cons_self)
  unfold takeEntry
  rw [hc, ok_bind, hd, ok_bind, halnum, hne]
  split
  · rw [sectionText_eq hi hk, ok_bind, Buf.str_at hk hka hkey, ok_bind, Buf.str_at hv hva hval]
    rfl
  · rfl

theorem rdropWhile_append_of_head {d : UInt8} (hd : f d = false) (x z : Path) :
    (x ++ d :: z).rdropWhile f = x ++ (d :: z).rdropWhile f := by
  have hne : ¬ ((d :: z).reverse.dropWhile f).isEmpty = true := by
    rw [List.isEmpty_iff, dropWhile_eq_nil_iff]
    intro h
    have hfd := h d (by simp)
    cases hd.symm.trans hfd
  rw [List.rdropWhile, List.rdropWhile, reverse_append, dropWhile_append, if_neg hne,
    reverse_append, reverse_reverse]

theorem value_at {m r : Path} (hr : r.dropWhile isBlank = r) (post : Path) :
    ∃ a' rest', (m ++ r).rdropWhile isBlank ++
        (List.replicate ((m ++ r).rtakeWhile isBlank).length 0 ++ 0 :: post) =
          a' ++ (r.rdropWhile isBlank ++ 0 :: rest') ∧ a'.length = m.length := by
  have hlen : ((m ++ r).rdropWhile isBlank).length + ((m ++ r).rtakeWhile isBlank).length =
      (m ++ r).length := by
    rw [← length_append, rdropWhile_append_rtakeWhile]
  cases r with
  | nil =>
    refine ⟨(m ++ []).rdropWhile isBlank ++ List.replicate ((m ++ []).rtakeWhile isBlank).length 0,
      post, ?_, ?_⟩
    · simp
    · rw [length_append, length_replicate, hlen, append_nil]
  | cons d z =>
    rw [rdropWhile_append_of_head (dropWhile_head hr)]
    refine ⟨m, List.replicate ((m ++ d :: z).rtakeWhile isBlank).length 0 ++ post, ?_, rfl⟩
    have hzero : ∀ k, List.replicate k (0 : UInt8) ++ 0 :: post =
        0 :: (List.replicate k 0 ++ post) := by
      intro k
      rw [← cons_append, ← replicate_succ, replicate_succ', append_assoc, singleton_append]
    rw [hzero, append_assoc]

theorem keyAt_bare (hb : buf.bytes = a ++ (w ++ 0 :: post)) (h0 : 0 ∉ w)
    (hpn : pn = a.length + w.length + 1) (hw : keyOf w = w) (hne : w ≠ []) (hi : SectIn a i sect) :
    ∃ buf', keyAt a.length (some pn) buf i = .ok (buf', none) ∧ buf'.bytes = a ++ (w ++ [0]) ++
      post := by
  have hend := keyEnd_eq hb h0
  rw [hw, drop_length] at hend
  have hb₁ : buf.bytes = (a ++ w) ++ 0 :: post := by rw [hb, append_assoc]
  obtain ⟨b₁, hset, hb₂⟩ := Buf.set_at hb₁ length_append.symm 0
  have hscan : b₁.scan (fun c => !isBlank c) (a.length + w.length) = .ok (a.length + w.length) :=
    Buf.scan_at (s := []) hb₂ length_append.symm (by simp) (by decide)
  have hhalts : Buf.Halts isBlank (a ++ w) := by
    refine ⟨a ++ w.dropLast, w.getLast hne, ?_, ?_⟩
    · rw [append_assoc, dropLast_append_getLast]
    · have hlast : w.getLast hne ∈ keyOf w := by
        rw [hw]
        exact getLast_mem hne
      have hends := mem_takeWhile_imp hlast
      simp only [endsKey, Bool.not_eq_true', Bool.or_eq_false_iff] at hends
      exact hends.1
  obtain ⟨b₂, herase, hb₃⟩ :=
    Buf.eraseBack_at (s := []) (i := a.length + w.length) hb₂ (by simp) hhalts (by simp)
  have htake : takeEntry a.length (a.length + w.length) b₂ i =
      .ok (if w.head?.any isAlnum && ([] : Path) != [] then some ⟨sect, w, []⟩ else none) :=
    takeEntry_eq (hb₃.trans (append_assoc ..)) hb₃ rfl length_append.symm h0 (by simp) hi
  refine ⟨b₂, ?_, by rw [hb₃]; simp⟩
  unfold keyAt lineEnd
  rw [hend, ok_bind]
  simp only [gap, takeWhile_nil, dropWhile_nil, length_nil, Nat.add_zero, hset, ok_bind, hscan, hpn,
    Nat.add_sub_cancel, herase]
  rw [htake]
  simp

/-- What is behind a key starts with a blank or '=', so at least one character is skipped there. -/
theorem gap_split {x : UInt8} (hw : w.drop (keyOf w).length = x :: r) :
    ∃ m, r = m ++ ((x :: r).dropWhile isBlank).dropWhile (· == 61) ∧
      gap (x :: r) = m.length + 1 := by
  have hx : endsKey x = true := by
    have hdrop : w.dropWhile (fun c => !endsKey c) = x :: r := by
      have happ : keyOf w ++ w.dropWhile (fun c => !endsKey c) = keyOf w ++ x :: r := by
        rw [← hw, keyOf_append_drop, keyOf, takeWhile_append_dropWhile]
      exact append_cancel_left happ
    simpa using dropWhile_head hdrop
  by_cases hblank : isBlank x = true
  · refine ⟨r.takeWhile isBlank ++ (r.dropWhile isBlank).takeWhile (· == 61), ?_, ?_⟩
    · rw [dropWhile_cons_of_pos hblank, append_assoc, takeWhile_append_dropWhile,
        takeWhile_append_dropWhile]
    · rw [gap, takeWhile_cons_of_pos hblank, dropWhile_cons_of_pos hblank, length_append,
        length_cons]
      omega
  · have heq : (x == 61) = true := by simpa [endsKey, hblank] using hx
    refine ⟨r.takeWhile (· == 61), ?_, ?_⟩
    · rw [dropWhile_cons_of_neg hblank, dropWhile_cons, if_pos heq, takeWhile_append_dropWhile]
    · rw [gap, takeWhile_cons_of_neg hblank, dropWhile_cons_of_neg hblank, takeWhile_cons,
        if_pos heq, length_cons, length_nil, Nat.zero_add]

theorem eraseBlanks_eq {last : Nat} (hb : buf.bytes = a ++ 0 :: (r ++ 0 :: post))
    (hlast : last = a.length + (r.length + 1)) :
    ∃ buf', buf.eraseBack isBlank last = .ok buf' ∧ buf'.bytes =
      a ++ 0 :: (r.rdropWhile isBlank ++
        (List.replicate (r.rtakeWhile isBlank).length 0 ++ 0 :: post)) := by
  have hsplit := @rdropWhile_append_rtakeWhile _ isBlank r
  have hb' : buf.bytes = (a ++ [0] ++ r.rdropWhile isBlank) ++
      (r.rtakeWhile isBlank ++ 0 :: post) := by
    rw [hb]
    nth_rewrite 1 [← hsplit]
    simp only [append_assoc, cons_append, nil_append]
  have hlen : last = (a ++ [0] ++ r.rdropWhile isBlank).length + (r.rtakeWhile isBlank).length := by
    have hparts := congrArg List.length hsplit
    simp only [length_append, length_singleton] at hparts ⊢
    omega
  have hzero : Buf.Halts isBlank (a ++ [0]) := ⟨a, 0, rfl, by decide⟩
  obtain ⟨buf', herase, hbytes⟩ := Buf.eraseBack_at hb' hlen (halts_append_rdropWhile hzero r)
    fun c hc => mem_rtakeWhile_imp hc
  refine ⟨buf', herase, ?_⟩
  rw [hbytes]
  simp only [append_assoc, cons_append, nil_append]

theorem keyAt_value {x : UInt8} (hb : buf.bytes = a ++ (w ++ 0 :: post)) (h0 : 0 ∉ w)
    (hpn : pn = a.length + w.length + 1) (hw : w.drop (keyOf w).length = x :: r)
    (hi : SectIn a i sect) :
    ∃ buf' done, keyAt a.length (some pn) buf i = .ok (buf',
        if (keyOf w).head?.any isAlnum && valueOf w != [] then
          some ⟨sect, keyOf w, valueOf w⟩ else none) ∧
      buf'.bytes = a ++ done ++ post := by
  have hend := keyEnd_eq hb h0
  have hsplit := keyOf_append_drop w
  obtain ⟨m, hm, hgap⟩ := gap_split hw
  rw [hw] at hend hsplit
  have hval : valueOf w =
      ((((x :: r).dropWhile isBlank).dropWhile (· == 61)).dropWhile isBlank).rdropWhile
      isBlank := by rw [valueOf, hw]
  generalize ((x :: r).dropWhile isBlank).dropWhile (· == 61) = r₃ at hm hval
  have hkey0 : 0 ∉ keyOf w := fun h => h0 (hsplit ▸ mem_append_left _ h)
  have hval0 : 0 ∉ valueOf w := fun h => h0 (valueOf_subset h)
  have hlen : (keyOf w).length + (r.length + 1) = w.length := by
    rw [← length_cons (a := x), ← length_append, hsplit]
  -- A NUL is written behind the key.
  have hb₀ : buf.bytes = (a ++ keyOf w) ++ x :: (r ++ 0 :: post) := by
    rw [hb]
    nth_rewrite 1 [← hsplit]
    simp
  obtain ⟨b₁, hset, hb₁⟩ := Buf.set_at hb₀ length_append.symm 0
  -- The value is behind it, and in front of the blanks at the end.
  have hb₂ : b₁.bytes = (a ++ keyOf w ++ 0 :: m) ++ (r₃ ++ 0 :: post) := by
    rw [hb₁, hm]
    simp
  have hv := scan_text (k := a.length + (keyOf w).length + gap (x :: r)) (g := fun c => !isBlank c)
    hb₂ (by rw [hgap]; simp only [length_append, length_cons]) (by decide)
  simp only [Bool.not_not] at hv
  have hlast : a.length + w.length = (a ++ keyOf w).length + (r.length + 1) := by
    rw [length_append, Nat.add_assoc, hlen]
  obtain ⟨b₂, herase, hb₄⟩ := eraseBlanks_eq hb₁ hlast
  obtain ⟨a', rest', hat, hlen'⟩ :=
    @value_at (m ++ r₃.takeWhile isBlank) (r₃.dropWhile isBlank) (dropWhile_idempotent isBlank r₃)
      post
  rw [append_assoc m, takeWhile_append_dropWhile, ← hm, ← hval] at hat
  have hb₅ : b₂.bytes = (a ++ keyOf w ++ 0 :: a') ++ (valueOf w ++ 0 :: rest') := by
    rw [hb₄, hat]
    simp only [append_assoc, cons_append]
  have hb₆ : b₂.bytes = a ++ (keyOf w ++ 0 :: (a' ++ (valueOf w ++ 0 :: rest'))) := by
    rw [hb₅]
    simp only [append_assoc, cons_append]
  have htake := takeEntry_eq hb₆ hb₅ rfl
    (v := a.length + (keyOf w).length + gap (x :: r) + (r₃.takeWhile isBlank).length)
    (by rw [hgap]; simp only [length_append, length_cons] at hlen' ⊢; omega) hkey0 hval0 hi
  refine ⟨b₂, keyOf w ++
    0 :: (r.rdropWhile isBlank ++ (List.replicate (r.rtakeWhile isBlank).length 0 ++ [0])), ?_, ?_⟩
  · unfold keyAt lineEnd
    rw [hend, ok_bind]
    simp only [hset, ok_bind, hv, hpn, Nat.add_sub_cancel, herase, htake]
  · rw [hb₄]
    simp

theorem keyAt_eq (hb : buf.bytes = a ++ (w ++ 0 :: post)) (h0 : 0 ∉ w)
    (hpn : pn = a.length + w.length + 1) (hne : w ≠ []) (hi : SectIn a i sect) :
    ∃ buf' done, keyAt a.length (some pn) buf i = .ok (buf',
        if (keyOf w).head?.any isAlnum && valueOf w != [] then
          some ⟨sect, keyOf w, valueOf w⟩ else none) ∧
      buf'.bytes = a ++ done ++ post := by
  cases hw : w.drop (keyOf w).length with
  | nil =>
    have hkey : keyOf w = w := by
      have := keyOf_append_drop w
      rwa [hw, append_nil] at this
    have hval : valueOf w = [] := by rw [valueOf, hw]; rfl
    obtain ⟨buf', hrun, hb'⟩ := keyAt_bare hb h0 hpn hkey hne hi
    exact ⟨buf', w ++ [0], by rw [hrun, hval]; simp, hb'⟩
  | cons x r => exact keyAt_value hb h0 hpn hw hi

end Line

/-! ## 4. The loop -/

/-- The cursor is behind `pre`, and `section` points into it. -/
structure Scan.At {n : Nat} (st : Scan n) (pre rest sect : Path) : Prop where
  bytes : st.buf.bytes = pre ++ rest
  cursor : st.p = some pre.length
  sect : SectIn pre st.sect sect

section Loop

variable {n : Nat} {st : Scan n} {pre post sect line : Path}

theorem cutLine_eq {buf : Buf n} (hb : buf.bytes = pre ++ (line ++ 10 :: post)) (h0 : 0 ∉ line)
    (h10 : 10 ∉ line) : ∃ buf', cutLine pre.length buf =
      .ok (buf', some (pre.length + line.length + 1)) ∧
      buf'.bytes = pre ++ (line ++ 0 :: post) := by
  have hb' : buf.bytes = (pre ++ line) ++ 10 :: post := by rw [hb, append_assoc]
  obtain ⟨buf', hset, hbytes⟩ := Buf.set_at hb' length_append.symm 0
  refine ⟨buf', ?_, by rw [hbytes, append_assoc]⟩
  simp only [cutLine, Buf.strchr_at hb rfl h0 h10, ok_bind, hset]

theorem Scan.At.next {st' : Scan n} {done sect' : Path} (h : st.At pre (line ++ 10 :: post) sect)
    (hb : st'.buf.bytes = pre ++ done ++ post) (hp : st'.p = some (pre.length + line.length + 1))
    (hs : SectIn (pre ++ done) st'.sect sect') : st'.At (pre ++ done) post sect' := by
  refine ⟨hb, ?_, hs⟩
  have hsize := st.buf.size.trans st'.buf.size.symm
  rw [h.bytes, hb] at hsize
  simp only [length_append, length_cons] at hsize
  rw [hp, length_append]
  congr 1
  omega

/-- **A turn of the loop over a line** does what the line means, and goes on behind it. -/
theorem iter_line (h : st.At pre (line ++ 10 :: post) sect) (h0 : 0 ∉ line) (h10 : 10 ∉ line) :
    ∃ st' done, iter st = .ok st' ∧ st'.At (pre ++ done) post (lineEntry line sect).1 ∧
      st'.out = st.out ++ (lineEntry line sect).2.toList := by
  obtain ⟨b₁, hcut, hb₁⟩ := cutLine_eq h.bytes h0 h10
  have hscan := scan_text (g := fun c => !isBlank c) hb₁ rfl (by decide)
  simp only [Bool.not_not] at hscan
  have hline : line.takeWhile isBlank ++ line.dropWhile isBlank = line := takeWhile_append_dropWhile
  generalize line.takeWhile isBlank = bl at hscan hline
  have hsect : SectIn (pre ++ bl) st.sect sect := h.sect.append bl
  unfold iter
  simp only [h.cursor, hcut, ok_bind, hscan]
  cases hw : line.dropWhile isBlank with
  | nil =>
    rw [hw, append_nil] at hline
    subst hline
    have hget : b₁.get (pre.length + bl.length) = .ok 0 :=
      Buf.get_at (hb₁.trans (append_assoc ..).symm) length_append.symm
    rw [hget, ok_bind, if_neg (by decide), if_neg (by simp), lineEntry_blank hw]
    exact ⟨_, bl ++ [0], rfl, h.next (by rw [hb₁]; simp) rfl (h.sect.append _), by simp⟩
  | cons c p =>
    rw [hw] at hline
    have hb₂ : b₁.bytes = (pre ++ bl) ++ (c :: p ++ 0 :: post) := by rw [hb₁, ← hline]; simp
    have hw0 : 0 ∉ c :: p := fun hmem => h0 (hline ▸ mem_append_right _ hmem)
    have hget : b₁.get (pre.length + bl.length) = .ok c := Buf.get_at hb₂ length_append.symm
    rw [hget, ok_bind]
    by_cases hbracket : c = 91
    · subst hbracket
      have hb₃ : b₁.bytes = (pre ++ (bl ++ [91])) ++ (p ++ 0 :: post) := by rw [hb₂]; simp
      obtain ⟨b₂, i', done, hrun, hb₄, hi'⟩ :=
        sectionAt_eq hb₃ (fun hmem => hw0 (mem_cons_of_mem _ hmem))
        ⟨pre ++ bl, 91, (append_assoc ..).symm, by decide⟩ (h.sect.append _)
      rw [append_assoc pre] at hb₄ hi'
      have hpos : pre.length + bl.length + 1 = (pre ++ (bl ++ [91])).length := by
        simp only [length_append, length_singleton, Nat.add_assoc]
      rw [if_pos rfl, hpos, hrun, ok_bind, lineEntry_section hw]
      exact ⟨_, bl ++ [91] ++ done, rfl, h.next hb₄ rfl hi', by simp⟩
    · by_cases hrem : c = 35 ∨ c = 59
      · rw [if_neg hbracket, if_neg (by tauto), lineEntry_remark hw hbracket hrem]
        exact ⟨_, line ++ [0], rfl, h.next (by rw [hb₁]; simp) rfl (h.sect.append _), by simp⟩
      have hc0 : c ≠ 0 := fun hc => hw0 (hc ▸ mem_cons_self)
      have hpn : pre.length + line.length + 1 = (pre ++ bl).length + (c :: p).length + 1 := by
        rw [← hline]
        simp only [length_append, Nat.add_assoc]
      obtain ⟨b₂, done, hrun, hb₃⟩ := keyAt_eq hb₂ hw0 hpn (by simp) hsect
      rw [if_neg hbracket, if_pos (by tauto), ← length_append, hrun, ok_bind,
        lineEntry_key hw hbracket hrem]
      rw [append_assoc pre] at hb₃
      exact ⟨_, bl ++ done, rfl, h.next hb₃ rfl (h.sect.append _), rfl⟩

end Loop

/-- What the loader can read: no NUL, and nothing behind the last '\n'. -/
def Loadable (text : Path) : Prop := 0 ∉ text ∧ (text = [] ∨ text.getLast? = some 10)

instance (text : Path) : Decidable (Loadable text) := inferInstanceAs (Decidable (_ ∧ _))

section Text

variable {n : Nat} {st : Scan n} {pre post sect line text : Path}

theorem loadable_line (h0 : 0 ∉ line) : Loadable (line ++ 10 :: text) ↔ Loadable text := by
  unfold Loadable
  cases text with
  | nil => simp [h0]
  | cons c text => simp [h0]

theorem line_or_none (text : Path) :
    (∃ line rest, text = line ++ 10 :: rest ∧ 0 ∉ line ∧ 10 ∉ line) ∨
      cchr 10 (text ++ [0]) = .ok none ∧ (text = [] ∨ ¬ Loadable text) := by
  induction text with
  | nil => exact .inr ⟨rfl, .inl rfl⟩
  | cons c text ih =>
    by_cases h10 : c = 10
    · exact .inl ⟨[], text, by rw [h10]; rfl, by simp, by simp⟩
    by_cases h0 : c = 0
    · refine .inr ⟨by simp [cchr, h0], .inr fun h => h.1 ?_⟩
      simp [h0]
    rcases ih with ⟨line, rest, rfl, hl0, hl10⟩ | ⟨hchr, hbad⟩
    · exact .inl ⟨c :: line, rest, rfl, by simp [Ne.symm h0, hl0], by simp [Ne.symm h10, hl10]⟩
    refine .inr ⟨by simp [cchr, h10, h0, hchr, Except.map], .inr fun h => ?_⟩
    rcases hbad with rfl | hbad
    · simp [Loadable, h10] at h
    refine hbad ⟨fun hmem => h.1 (mem_cons_of_mem c hmem), ?_⟩
    cases text with
    | nil => exact .inl rfl
    | cons d text => exact .inr (by simpa using h.2)

theorem iter_lost {p : Nat} (hp : st.p = some p) (hcut : st.buf.strchr p 10 = .ok none)
    {st' : Scan n} (h : iter st = .ok st') : st'.p = none := by
  unfold iter at h
  simp only [hp, cutLine, hcut, ok_bind] at h
  obtain ⟨p', -, h⟩ := bind_eq_ok.mp h
  obtain ⟨c, -, h⟩ := bind_eq_ok.mp h
  split at h
  · obtain ⟨r, -, h⟩ := bind_eq_ok.mp h
    cases h
    rfl
  split at h
  · obtain ⟨r, -, h⟩ := bind_eq_ok.mp h
    cases h
    rfl
  · cases h
    rfl

theorem iter_null (hp : st.p = none) : iter st = .error .outside := by
  unfold iter
  rw [hp]

theorem scanLoop_lost {len turns p : Nat} (hp : st.p = some p) (hlt : p < len)
    (hchr : st.buf.strchr p 10 = .ok none) : scanLoop len (turns + 2) st = .error .outside := by
  have hrun : st.running len = true := by simp [Scan.running, hp, hlt]
  rw [scanLoop, if_pos hrun]
  cases hiter : iter st with
  | error e => cases e; rfl
  | ok st' =>
    have hnull := iter_lost hp hchr hiter
    have hrun' : st'.running len = true := by simp [Scan.running, hnull]
    rw [ok_bind, scanLoop, if_pos hrun', iter_null hnull]
    rfl

/-- **The loop over a text.** It ends behind the last line, or is left at NULL. -/
theorem scanLoop_text {len turns : Nat} (h : st.At pre (text ++ [0]) sect)
    (hlen : len = pre.length + text.length) (hturns : text.length < turns) :
    (Loadable text → ∃ st', scanLoop len turns st = .ok (some st') ∧
      st'.out = st.out ++ entriesOf (lines 10 text).1 sect) ∧
    (¬ Loadable text → scanLoop len turns st = .error .outside) := by
  induction turns generalizing st pre text sect with
  | zero => omega
  | succ turns ih =>
    by_cases hnil : text = []
    · subst hnil
      have hrun : ¬ st.running len = true := by simp [Scan.running, h.cursor, hlen]
      rw [scanLoop, if_neg hrun]
      exact ⟨fun _ => ⟨st, rfl, by simp [lines, entriesOf]⟩, fun hbad =>
        absurd ⟨by simp, .inl rfl⟩ hbad⟩
    have hpos : 0 < text.length := length_pos_iff.mpr hnil
    rcases line_or_none text with ⟨line, rest, rfl, h0, h10⟩ | ⟨hchr, hbad⟩
    · -- a line: one turn, and the loop over the rest
      have hrun : st.running len = true := by
        simp only [Scan.running, h.cursor, decide_eq_true_eq]
        omega
      rw [append_assoc, cons_append] at h
      obtain ⟨st', done, hiter, hat, hout⟩ := iter_line h h0 h10
      have hlen' : len = (pre ++ done).length + rest.length := by
        have hsize := st.buf.size.trans st'.buf.size.symm
        rw [h.bytes, hat.bytes] at hsize
        simp only [length_append, length_cons] at hsize hlen ⊢
        omega
      have hrest : rest.length < turns := by
        simp only [length_append, length_cons] at hturns
        omega
      rw [scanLoop, if_pos hrun, hiter, ok_bind, loadable_line h0, lines_append h10, entriesOf,
        ← append_assoc, ← hout]
      exact ih hat hlen' hrest
    · -- no end of a line in front of the next NUL
      have hbad := hbad.resolve_left hnil
      refine ⟨fun hgood => absurd hgood hbad, fun _ => ?_⟩
      have hstr : st.buf.strchr pre.length 10 = .ok none := by
        rw [Buf.strchr, h.bytes, drop_left, hchr]
        rfl
      obtain ⟨turns, rfl⟩ : ∃ k, turns = k + 1 := ⟨turns - 1, by omega⟩
      exact scanLoop_lost h.cursor (by omega) hstr

end Text

/-! ## 5. Every file -/

theorem start_at (text : Path) : (Scan.start text).At [] (text ++ [0]) [] := ⟨rfl, rfl, .literal⟩

theorem scanText_ok {text : Path} (h : Loadable text) :
    ∃ st, scanText text = .ok (some st) ∧ st.out = entriesOf (lines 10 text).1 [] :=
  (scanLoop_text (start_at text) (by simp) (Nat.lt_succ_self _)).1 h

theorem scanText_outside {text : Path} (h : ¬ Loadable text) : scanText text = .error .outside :=
  (scanLoop_text (start_at text) (by simp) (Nat.lt_succ_self _)).2 h

/-- **The loader of `Config` is refined**: with the entries put into an empty store it is what the
    function does in memory. -/
theorem loadfile_scanText (text : Path) :
    loadfile text = scanText text >>= fun r =>
      (r.elim [] Scan.out).foldlM (putEntry none) Store.empty := by
  unfold loadfile
  by_cases h : Loadable text
  · obtain ⟨st, hst, hout⟩ := scanText_ok h
    have hno : ¬ (0 ∈ text ∨ (lines 10 text).2 ≠ []) := by
      rw [not_or, not_not]
      exact ⟨h.1, lines_rest_eq_nil.mpr h.2⟩
    rw [if_neg hno, loadLines_entries, hst, ok_bind, Option.elim_some, hout]
  · have hyes : 0 ∈ text ∨ (lines 10 text).2 ≠ [] := by
      by_contra hno
      rw [not_or, not_not] at hno
      exact h ⟨hno.1, lines_rest_eq_nil.mp hno.2⟩
    rw [if_pos hyes, scanText_outside h]
    rfl

def turn (len : Nat) {n : Nat} (st : Scan n) (_ : Unit) : Option (Scan n) :=
  if st.running len then (iter st).toOption else none

/-- The cursor is not NULL, and both pointers are within the `len + 1` bytes. -/
structure Scan.Inside (len : Nat) {n : Nat} (st : Scan n) : Prop where
  cursor : ∃ p, st.p = some p ∧ p ≤ len
  sect : ∀ i, st.sect = some i → i ≤ len

section Reached

variable {n len : Nat} {st st' : Scan n} {pre text sect : Path}

theorem Scan.At.inside (h : st.At pre (text ++ [0]) sect) (hn : n = len + 1) : st.Inside len := by
  have hsize := st.buf.size
  rw [h.bytes, hn] at hsize
  simp only [length_append, length_singleton] at hsize
  refine ⟨⟨pre.length, h.cursor, by omega⟩, fun i hi => ?_⟩
  have hsect := h.sect
  rw [hi] at hsect
  cases hsect with
  | @text head _ tail hpre _ =>
    have hlen := congrArg List.length hpre
    rw [length_append] at hlen
    omega

/-- Between two turns the loop is in front of a text that can be loaded. -/
def Scan.Ahead (st : Scan n) : Prop := ∃ pre text sect, st.At pre (text ++ [0]) sect ∧ Loadable text

theorem turn_ahead (h : st.Ahead) (hturn : turn len st () = some st') (hn : n = len + 1) :
    st'.Ahead := by
  obtain ⟨pre, text, sect, hat, hload⟩ := h
  unfold turn at hturn
  split at hturn
  · rename_i hrun
    have hsize := st.buf.size
    rw [hat.bytes, hn] at hsize
    simp only [Scan.running, hat.cursor, decide_eq_true_eq] at hrun
    rcases line_or_none text with ⟨line, rest, rfl, h0, h10⟩ | ⟨-, rfl | hbad⟩
    · rw [append_assoc, cons_append] at hat
      obtain ⟨u, done, hiter, hu, -⟩ := iter_line hat h0 h10
      rw [hiter] at hturn
      cases hturn
      exact ⟨_, rest, _, hu, (loadable_line h0).mp hload⟩
    · simp only [length_append, length_nil, length_singleton] at hsize
      omega
    · exact absurd hload hbad
  · cases hturn

end Reached

/-- **The loader returns** without leaving the buffer **exactly if** what was read can be loaded.
    Then in every turn the cursor and `section` are within the buffer, as all that it reads and
    writes is. -/
theorem load_total (e : LoadEnv) (file : Path) :
    ((∃ r, loadfile0 e file = .ok r ∧ r ≠ .endless) ↔
        ∀ text, e.text file = some text → Loadable text) ∧
      ∀ text, Loadable text → ∀ st, Reach (turn text.length) (Scan.start text) st →
        st.Inside text.length := by
  refine ⟨⟨?_, fun h => ?_⟩, fun text hload st hst => ?_⟩
  · rintro ⟨r, hr, -⟩ text htext
    by_contra hbad
    rw [loadfile0, htext] at hr
    simp only [scanText_outside hbad] at hr
    cases hr
  · unfold loadfile0
    split
    · exact ⟨.failed, rfl, by simp⟩
    rename_i text htext
    obtain ⟨st, hst, -⟩ := scanText_ok (h text htext)
    exact ⟨.done st.out, by rw [hst]; rfl, by simp⟩
  · have hahead : st.Ahead := by
      refine Run.inv ?_ ?_ hst
      · exact ⟨[], text, [], start_at text, hload⟩
      · intro st st' _ hst _ hturn
        exact turn_ahead hst hturn rfl
    obtain ⟨pre, rest, sect, hat, -⟩ := hahead
    exact hat.inside rfl

/-- One `read` gives the whole file. -/
def readAll (file : Path) : LoadEnv := ⟨true, true, some file.length⟩

/-- A section, a remark, an empty line, and a key with blanks around its value. -/
def goodFile : Path := ascii "[ s ]" ++ [10] ++ ascii "#" ++ [10, 10] ++ ascii " k == v " ++ [10]

theorem load_total_goodFile :
    loadfile0 (readAll goodFile) goodFile = .ok (.done [⟨ascii "s-", ascii "k", ascii "v"⟩]) ∧
      ∀ st, Reach (turn goodFile.length) (Scan.start goodFile) st → st.Inside goodFile.length := by
  exact ⟨by decide, (load_total (readAll goodFile) goodFile).2 goodFile (by decide)⟩

/-- A last line without '\n'; a line with a NUL; a file that ends with '\n' and of which one byte
    less is read. Each time the next line is looked for at address 0. -/
theorem load_outside :
    loadfile0 (readAll (ascii "k=v")) (ascii "k=v") = .error .outside ∧
      loadfile0 (readAll (ascii "k=" ++ [0, 10])) (ascii "k=" ++ [0, 10]) = .error .outside ∧
      loadfile0 ⟨true, true, some 3⟩ (ascii "k=v" ++ [10]) = .error .outside := by
  decide

end Pfs.Conf
