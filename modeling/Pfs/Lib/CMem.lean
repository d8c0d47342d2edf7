/-
  Arrays of bytes of a fixed size, and the functions of string.h on them.

  An access outside of the array it addresses ends the computation. Nothing is assumed of the bytes
  behind a terminator. The rules say what an array holds after each function, and when the function
  stays within it.
-/
import Mathlib.Data.List.Basic
import Mathlib.Data.List.Induction

namespace Pfs.Lib

open List

inductive Oob where
  | outside
  deriving DecidableEq

/-- An array of `n` bytes. -/
structure Buf (n : Nat) where
  bytes : List UInt8
  size : bytes.length = n
  deriving DecidableEq

def Within {α : Type} (x : Except Oob α) : Prop := ∃ a, x = .ok a

section Within

variable {α β : Type}

theorem not_within_error (e : Oob) : ¬ Within (.error e : Except Oob α) := fun ⟨_, h⟩ => nomatch h

@[simp]
theorem ok_bind (a : α) (f : α → Except Oob β) : (.ok a >>= f) = f a := rfl

@[simp]
theorem error_bind (e : Oob) (f : α → Except Oob β) : (.error e >>= f) = .error e := rfl

variable {x : Except Oob α} {f : α → Except Oob β} {b : β}

theorem bind_eq_ok : (x >>= f) = .ok b ↔ ∃ a, x = .ok a ∧ f a = .ok b := by
  cases x with
  | error e => simp
  | ok a => simp

theorem within_bind : Within (x >>= f) ↔ ∃ a, x = .ok a ∧ Within (f a) := by
  simp only [Within, bind_eq_ok]
  exact ⟨fun ⟨b, a, h, hb⟩ => ⟨a, h, b, hb⟩, fun ⟨a, h, b, hb⟩ => ⟨b, a, h, hb⟩⟩

theorem map_eq_ok {f : α → β} : x.map f = .ok b ↔ ∃ a, x = .ok a ∧ f a = b := by
  cases x with
  | error e => simp [Except.map]
  | ok a => simp [Except.map]

theorem within_map {f : α → β} : Within (x.map f) ↔ Within x := by
  simp [Within, map_eq_ok]

end Within

/-- The computation stays within the arrays, and ends with a value that meets `Q`. -/
def Ends {α : Type} (x : Except Oob α) (Q : α → Prop) : Prop := ∃ a, x = .ok a ∧ Q a

section Ends

variable {α β : Type} {Q : α → Prop} {R : β → Prop} {x : Except Oob α} {f : α → Except Oob β}

theorem ends_ok {a : α} (h : Q a) : Ends (.ok a) Q := ⟨a, rfl, h⟩

theorem Ends.bind (hx : Ends x Q)
    (hf : ∀ a, Q a → Ends (f a) R) : Ends (x >>= f) R := by
  obtain ⟨a, rfl, ha⟩ := hx
  exact hf a ha

theorem Ends.map {f : α → β} (hx : Ends x Q) (hf : ∀ a, Q a → R (f a)) :
    Ends (x.map f) R := by
  obtain ⟨a, rfl, ha⟩ := hx
  exact ⟨f a, rfl, hf a ha⟩

theorem Ends.mono {Q' : α → Prop} (hx : Ends x Q) (h : ∀ a, Q a → Q' a) :
    Ends x Q' := by
  obtain ⟨a, ha, hQ⟩ := hx
  exact ⟨a, ha, h a hQ⟩

/-- If `C` holds, the computation ends with a value that meets `Q`; and under `P` it ends only
    then. -/
structure EndsIff {α : Type} (P C : Prop) (Q : α → Prop) (x : Except Oob α) : Prop where
  ends : C → Ends x Q
  needs : P → ∀ a, x = .ok a → C

variable {P C D : Prop}

theorem Ends.always (h : Ends x Q) (hC : C) : EndsIff P C Q x := ⟨fun _ => h, fun _ _ _ => hC⟩

theorem EndsIff.congr (h : EndsIff P C Q x) (hC : C ↔ D) : EndsIff P D Q x :=
  ⟨fun hd => h.ends (hC.mpr hd), fun hp a ha => hC.mp (h.needs hp a ha)⟩

theorem EndsIff.of_ok (h : EndsIff P C Q x) (hp : P) {a : α} (ha : x = .ok a) : C ∧ Q a := by
  have hC := h.needs hp a ha
  obtain ⟨a', ha', hQ⟩ := h.ends hC
  cases ha.symm.trans ha'
  exact ⟨hC, hQ⟩

theorem EndsIff.within (h : EndsIff True C Q x) : Within x ↔ C :=
  ⟨fun ⟨a, ha⟩ => h.needs trivial a ha, fun hC => (h.ends hC).imp fun _ ha => ha.1⟩

theorem EndsIff.bind (hx : EndsIff P C Q x) (hf : ∀ a, Q a → EndsIff P D R (f a)) :
    EndsIff P (C ∧ D) R (x >>= f) where
  ends := fun h => (hx.ends h.1).bind fun a ha => (hf a ha).ends h.2
  needs := fun hp b hb => by
    obtain ⟨a, ha, hb⟩ := bind_eq_ok.mp hb
    obtain ⟨hC, hQ⟩ := hx.of_ok hp ha
    exact ⟨hC, (hf a hQ).needs hp b hb⟩

theorem EndsIff.bind_ends (hx : EndsIff P C Q x) (hf : ∀ a, Q a → Ends (f a) R) :
    EndsIff P C R (x >>= f) :=
  (hx.bind fun a ha => (hf a ha).always trivial).congr (iff_of_eq (and_true C))

theorem EndsIff.map {g : α → β} (hx : EndsIff P C Q x) (hg : ∀ a, Q a → R (g a)) :
    EndsIff P C R (x.map g) where
  ends := fun h => (hx.ends h).map hg
  needs := fun hp b hb => by
    obtain ⟨a, ha, -⟩ := map_eq_ok.mp hb
    exact hx.needs hp a ha

end Ends

/-! ## 1. Texts in memory -/

/-- The text at the beginning of `bytes`, read up to its terminator. -/
def cstr : List UInt8 → Except Oob (List UInt8)
  | [] => .error .outside
  | c :: rest => if c = 0 then .ok [] else (cstr rest).map (c :: ·)

/-- `strchr` at the beginning of `bytes`. -/
def cchr (c : UInt8) : List UInt8 → Except Oob (Option Nat)
  | [] => .error .outside
  | d :: rest =>
    if d = c then .ok (some 0)
    else if d = 0 then .ok none
    else (cchr c rest).map fun r => r.map (· + 1)

def lastIdx (c : UInt8) : List UInt8 → Option Nat
  | [] => none
  | d :: s =>
    match lastIdx c s with
    | some i => some (i + 1)
    | none => if d = c then some 0 else none

variable {bytes s : List UInt8} {c : UInt8}

theorem cstr_eq_ok : cstr bytes = .ok s ↔ ∃ tail, bytes = s ++ 0 :: tail ∧ 0 ∉ s := by
  induction bytes generalizing s with
  | nil => simp [cstr]
  | cons c rest ih =>
    by_cases hc : c = 0
    · rw [cstr, if_pos hc, hc]
      constructor
      · intro h
        cases h
        exact ⟨rest, rfl, by simp⟩
      · rintro ⟨tail, h, hs⟩
        cases s with
        | nil => rfl
        | cons d s =>
          rw [cons_append, List.cons.injEq] at h
          exact absurd (h.1 ▸ mem_cons_self) hs
    · rw [cstr, if_neg hc]
      constructor
      · intro h
        cases hrest : cstr rest with
        | error e =>
          rw [hrest] at h
          cases h
        | ok t =>
          rw [hrest] at h
          cases h
          obtain ⟨tail, htail, ht⟩ := ih.mp hrest
          exact ⟨tail, by rw [htail, cons_append], by simp [Ne.symm hc, ht]⟩
      · rintro ⟨tail, h, hs⟩
        cases s with
        | nil =>
          rw [nil_append, List.cons.injEq] at h
          exact absurd h.1 hc
        | cons d s =>
          rw [cons_append, List.cons.injEq] at h
          obtain ⟨rfl, rfl⟩ := h
          rw [ih.mpr ⟨tail, rfl, fun h0 => hs (mem_cons_of_mem _ h0)⟩]
          rfl

theorem exists_cstr_iff : (∃ s, cstr bytes = .ok s) ↔ 0 ∈ bytes := by
  constructor
  · rintro ⟨s, h⟩
    obtain ⟨tail, rfl, -⟩ := cstr_eq_ok.mp h
    simp
  · intro h
    obtain ⟨s, tail, rfl, hs⟩ := eq_append_cons_of_mem h
    exact ⟨s, cstr_eq_ok.mpr ⟨tail, rfl, hs⟩⟩

theorem cchr_text (hc : c ≠ 0) {tail : List UInt8} (h0 : 0 ∉ s) :
    cchr c (s ++ 0 :: tail) = .ok (if c ∈ s then some (s.idxOf c) else none) := by
  induction s with
  | nil => simp [cchr, Ne.symm hc]
  | cons d s ih =>
    have hd : d ≠ 0 := fun h => h0 (h ▸ mem_cons_self)
    rw [cons_append, cchr]
    by_cases hdc : d = c
    · simp [hdc]
    rw [if_neg hdc, if_neg hd, ih fun h => h0 (mem_cons_of_mem _ h)]
    by_cases hmem : c ∈ s
    · simp [Except.map, hmem, idxOf_cons_ne _ hdc]
    · simp [Except.map, hmem, Ne.symm hdc]

theorem cchr_unterminated (h0 : 0 ∉ bytes) (hc : c ∉ bytes) : cchr c bytes = .error .outside := by
  induction bytes with
  | nil => rfl
  | cons d bytes ih =>
    rw [mem_cons, not_or] at h0 hc
    rw [cchr, if_neg (Ne.symm hc.1), if_neg (Ne.symm h0.1), ih h0.2 hc.2]
    rfl

theorem cchr_found {rest : List UInt8} (h0 : 0 ∉ s) (hc : c ∉ s) :
    cchr c (s ++ c :: rest) = .ok (some s.length) := by
  induction s with
  | nil => simp [cchr]
  | cons d s ih =>
    rw [mem_cons, not_or] at h0 hc
    rw [cons_append, cchr, if_neg (Ne.symm hc.1), if_neg (Ne.symm h0.1), ih h0.2 hc.2]
    rfl

/-! ## 2. Arrays -/

namespace Buf

variable {n : Nat}

/-- `{0x0}` -/
def zero (n : Nat) : Buf n := ⟨List.replicate n 0, length_replicate⟩

/-- The text `s`, and zeros behind it. -/
def ofText (n : Nat) (s : List UInt8) (h : s.length < n) : Buf n :=
  ⟨s ++ List.replicate (n - s.length) 0, by rw [length_append, length_replicate]; omega⟩

def get (b : Buf n) (i : Nat) : Except Oob UInt8 :=
  match b.bytes[i]? with
  | some c => .ok c
  | none => .error .outside

def write (b : Buf n) (i : Nat) (s : List UInt8) : Except Oob (Buf n) :=
  if h : i + s.length ≤ n then
    .ok ⟨b.bytes.take i ++ s ++ b.bytes.drop (i + s.length), by
      simp only [length_append, length_take, length_drop, b.size]
      omega⟩
  else .error .outside

def set (b : Buf n) (i : Nat) (c : UInt8) : Except Oob (Buf n) := b.write i [c]

/-- `memset(b, 0, k)` -/
def clear (b : Buf n) (k : Nat) : Except Oob (Buf n) := b.write 0 (List.replicate k 0)

/-- The text at `i`. -/
def str (b : Buf n) (i : Nat) : Except Oob (List UInt8) := cstr (b.bytes.drop i)

/-- `strchr(b + i, c)` -/
def strchr (b : Buf n) (i : Nat) (c : UInt8) : Except Oob (Option Nat) :=
  (cchr c (b.bytes.drop i)).map fun r => r.map (i + ·)

/-- `strrchr(b, c)` -/
def strrchr (b : Buf n) (c : UInt8) : Except Oob (Option Nat) := (b.str 0).map (lastIdx c)

/-- `strcat(b, s)` -/
def strcat (b : Buf n) (s : List UInt8) : Except Oob (Buf n) :=
  b.str 0 >>= fun d => b.write d.length (s ++ [0])

/-- `snprintf(b + i, size, ...)` of a text: what is returned, and the array. -/
def snprintf (b : Buf n) (i size : Nat) (text : List UInt8) : Except Oob (Nat × Buf n) :=
  if size = 0 then .ok (text.length, b)
  else (b.write i (text.take (size - 1) ++ [0])).map fun b' => (text.length, b')

/-- At `i` there is the text `s`, and its terminator. -/
def Holds (b : Buf n) (i : Nat) (s : List UInt8) : Prop :=
  ∃ tail, b.bytes.drop i = s ++ 0 :: tail ∧ 0 ∉ s

/-- The array starts with `d`, which has no terminator. -/
def Starts (b : Buf n) (d : List UInt8) : Prop := d <+: b.bytes ∧ 0 ∉ d

def Terminated (b : Buf n) : Prop := 0 ∈ b.bytes

instance (b : Buf n) : Decidable b.Terminated := inferInstanceAs (Decidable (0 ∈ _))

variable {b b' : Buf n} {i k : Nat} {s d : List UInt8}

theorem str_eq_ok : b.str i = .ok s ↔ b.Holds i s := cstr_eq_ok

theorem Holds.str (h : b.Holds i s) : b.str i = .ok s := str_eq_ok.mpr h

theorem exists_holds : (∃ s, b.Holds 0 s) ↔ b.Terminated := by
  rw [Terminated, ← exists_cstr_iff]
  exact exists_congr fun s => cstr_eq_ok.symm

theorem str_unterminated (h : ¬ b.Terminated) : b.str 0 = .error .outside := by
  cases hs : b.str 0 with
  | error e => rfl
  | ok s => exact absurd (exists_holds.mp ⟨s, str_eq_ok.mp hs⟩) h

theorem Holds.unique (h : b.Holds i s) (h' : b.Holds i d) : s = d := by
  have hs := h.str
  rw [h'.str] at hs
  exact (Except.ok.inj hs).symm

theorem Holds.notMem (h : b.Holds i s) : 0 ∉ s := h.choose_spec.2

theorem Holds.tail (h : b.Holds 0 s) : ∃ tail, b.bytes = s ++ 0 :: tail := h.imp fun _ ht => ht.1

theorem Holds.starts (h : b.Holds 0 s) : b.Starts s := by
  obtain ⟨tail, htail, h0⟩ := h
  exact ⟨⟨0 :: tail, htail.symm⟩, h0⟩

theorem starts_nil : b.Starts [] := ⟨ nil_prefix, by simp⟩

theorem Holds.lt_size (h : b.Holds i s) : i + s.length < n := by
  obtain ⟨tail, htail, -⟩ := h
  have hlen := congrArg List.length htail
  rw [length_drop, b.size, length_append, length_cons] at hlen
  omega

theorem Holds.lt (h : b.Holds 0 s) : s.length < n := by
  have := h.lt_size
  omega

theorem exists_holds_from (h : 0 ∈ b.bytes.drop i) : ∃ s, b.Holds i s := by
  obtain ⟨s, hs⟩ := exists_cstr_iff.mpr h
  exact ⟨s, str_eq_ok.mp hs⟩

theorem Holds.drop (h : b.Holds 0 (d ++ s)) : b.Holds d.length s := by
  obtain ⟨tail, htail, h0⟩ := h
  refine ⟨tail, ?_, fun hs => h0 (mem_append_right _ hs)⟩
  rw [drop_zero] at htail
  rw [htail, append_assoc, drop_left]

theorem Holds.get (h : b.Holds 0 (d ++ s)) {c : UInt8} {s' : List UInt8} (hs : s = c :: s') :
    b.get d.length = .ok c := by
  obtain ⟨tail, htail⟩ := h.tail
  simp [Buf.get, htail, hs]

theorem Holds.get_nul (h : b.Holds 0 d) : b.get d.length = .ok 0 := by
  obtain ⟨tail, htail⟩ := h.tail
  simp [Buf.get, htail]

theorem holds_zero : (zero (n + 1)).Holds 0 [] := ⟨List.replicate n 0, rfl, by simp⟩

theorem holds_ofText (hs : s.length < n) (h0 : 0 ∉ s) : (ofText n s hs).Holds 0 s := by
  refine ⟨List.replicate (n - s.length - 1) 0, ?_, h0⟩
  have hsucc : n - s.length = n - s.length - 1 + 1 := by omega
  show s ++ List.replicate (n - s.length) 0 = _
  rw [← replicate_succ, ← hsucc]

theorem write_eq_ok (h : i + s.length ≤ n) :
    ∃ b', b.write i s = .ok b' ∧ b'.bytes = b.bytes.take i ++ s ++ b.bytes.drop (i + s.length) := by
  rw [write, dif_pos h]
  exact ⟨_, rfl, rfl⟩

theorem write_eq_error (h : n < i + s.length) : b.write i s = .error .outside := by
  rw [write, dif_neg (Nat.not_le.mpr h)]

theorem Starts.write (h : b.Starts d) (h0 : 0 ∉ s) (hlen : d.length + s.length < n) :
    ∃ b', b.write d.length (s ++ [0]) = .ok b' ∧ b'.Holds 0 (d ++ s) := by
  obtain ⟨⟨rest, hrest⟩, hd⟩ := h
  obtain ⟨b', hb', hbytes⟩ := @write_eq_ok n b d.length (s ++ [0]) (by
    rw [length_append, length_singleton]
    omega)
  refine ⟨b', hb', b.bytes.drop (d.length + (s ++ [0]).length), ?_, ?_⟩
  · have htake : b.bytes.take d.length = d := by rw [← hrest, take_left]
    rw [drop_zero, hbytes, htake]
    simp
  · rw [mem_append, not_or]
    exact ⟨hd, h0⟩

theorem write_text (b : Buf n) (h0 : 0 ∉ s) (hlen : s.length < n) :
    ∃ b', b.write 0 (s ++ [0]) = .ok b' ∧ b'.Holds 0 s := by
  simpa using (starts_nil (b := b)).write h0 (by simpa using hlen)

/-- `strcpy` and `sprintf` -/
theorem write_iff {P : Prop} (b : Buf n) (h0 : 0 ∉ s) :
    EndsIff P (s.length < n) (fun b' => b'.Holds 0 s) (b.write 0 (s ++ [0])) where
  ends := write_text b h0
  needs := fun _ b' hb => by
    by_contra hn
    rw [write_eq_error (by rw [length_append, length_singleton]; omega)] at hb
    cases hb

theorem strcat_eq (h : b.Holds 0 d) (h0 : 0 ∉ s) (hlen : d.length + s.length < n) :
    ∃ b', b.strcat s = .ok b' ∧ b'.Holds 0 (d ++ s) := by
  rw [strcat, h.str]
  exact h.starts.write h0 hlen

theorem strcat_overflow (h : b.Holds 0 d) (hlen : n ≤ d.length + s.length) :
    b.strcat s = .error .outside := by
  rw [strcat, h.str]
  apply write_eq_error
  rw [length_append, length_singleton]
  omega

theorem strcat_iff {P : Prop} (h : b.Holds 0 d) (h0 : 0 ∉ s) :
    EndsIff P (d.length + s.length < n) (fun b' => b'.Holds 0 (d ++ s)) (b.strcat s) where
  ends := strcat_eq h h0
  needs := fun _ b' hb => by
    by_contra hn
    rw [strcat_overflow h (Nat.not_lt.mp hn)] at hb
    cases hb

/-- `snprintf` behind `d`, into the `k` bytes that are left for it. -/
theorem snprintf_eq (h : b.Starts d) (h0 : 0 ∉ s) (hk : 0 < k) (hkn : d.length + k ≤ n) :
    ∃ b', b.snprintf d.length k s = .ok (s.length, b') ∧ b'.Holds 0 (d ++ s.take (k - 1)) := by
  obtain ⟨b', hb', hholds⟩ := h.write (fun h => h0 (mem_of_mem_take h)) (by
    rw [length_take]
    omega : d.length + (s.take (k - 1)).length < n)
  refine ⟨b', ?_, hholds⟩
  rw [snprintf, if_neg (by omega), hb']
  rfl

/-- `snprintf` into the whole array. -/
theorem snprintf_take (b : Buf n) (h0 : 0 ∉ s) (hn : 0 < n) :
    ∃ b', b.snprintf 0 n s = .ok (s.length, b') ∧ b'.Holds 0 (s.take (n - 1)) :=
  @snprintf_eq n b n s [] starts_nil h0 hn (Nat.le_of_eq (Nat.zero_add n))

theorem snprintf_text (b : Buf n) (h0 : 0 ∉ s) (hs : s.length < n) :
    ∃ b', b.snprintf 0 n s = .ok (s.length, b') ∧ b'.Holds 0 s := by
  obtain ⟨b', hb', hholds⟩ := snprintf_take b h0 (by omega)
  rw [take_of_length_le (by omega)] at hholds
  exact ⟨b', hb', hholds⟩

theorem set_eq (c : UInt8) (h : i < n) :
    ∃ b', b.set i c = .ok b' ∧ b'.bytes = b.bytes.set i c := by
  obtain ⟨b', hb', hbytes⟩ := @write_eq_ok n b i [c] h
  refine ⟨b', hb', ?_⟩
  rw [hbytes, set_eq_take_append_cons_drop, if_pos (by rw [b.size]; exact h)]
  simp

theorem Holds.cut (h : b.Holds i s) (hk : k ≤ s.length) :
    ∃ b', b.set (i + k) 0 = .ok b' ∧ b'.Holds i (s.take k) ∧
      (k < s.length → b'.Holds (i + k + 1) (s.drop (k + 1))) := by
  have hlt := h.lt_size
  obtain ⟨b', hb', hbytes⟩ := @set_eq n b (i + k) 0 (by omega)
  obtain ⟨tail, htail, h0⟩ := h
  refine ⟨b', hb', ⟨(s ++ 0 :: tail).drop (k + 1), ?_, fun hmem => h0 (mem_of_mem_take hmem)⟩,
    fun hk' => ⟨tail, ?_, fun hmem => h0 (mem_of_mem_drop hmem)⟩⟩
  · have hlen : k < (s ++ 0 :: tail).length := by
      rw [length_append, length_cons]
      omega
    rw [hbytes, drop_set, if_neg (by omega), Nat.add_sub_cancel_left, htail,
      set_eq_take_append_cons_drop, if_pos hlen, take_append_of_le_length hk]
  · rw [hbytes, drop_set_of_lt (by omega), Nat.add_assoc, ← drop_drop, htail,
      drop_append_of_le_length hk']

theorem clear_eq (h : k ≤ n) :
    ∃ b', b.clear k = .ok b' ∧ b'.bytes = List.replicate k 0 ++ b.bytes.drop k := by
  obtain ⟨b', hb', hbytes⟩ := @write_eq_ok n b 0 (List.replicate k 0) (by simpa using h)
  exact ⟨b', hb', by simpa using hbytes⟩

theorem strrchr_eq (h : b.Holds 0 s) (c : UInt8) : b.strrchr c = .ok (lastIdx c s) := by
  rw [strrchr, h.str]
  rfl

theorem strchr_eq (h : b.Holds i s) {c : UInt8} (hc : c ≠ 0) :
    b.strchr i c = .ok (if c ∈ s then some (i + s.idxOf c) else none) := by
  obtain ⟨tail, htail, h0⟩ := h
  rw [strchr, htail, cchr_text hc h0]
  by_cases hmem : c ∈ s <;> simp [Except.map, hmem]

end Buf

/-! ## 3. Loops over an array -/

/-- How many bytes there are in front of the first one with `stop`. -/
def cspn (stop : UInt8 → Bool) : List UInt8 → Except Oob Nat
  | [] => .error .outside
  | c :: rest => if stop c then .ok 0 else (cspn stop rest).map (· + 1)

namespace Buf

variable {n : Nat}

/-- `while (!stop(*p)) p++` from `i` on; `strspn` and `strcspn` are such loops. -/
def scan (b : Buf n) (stop : UInt8 → Bool) (i : Nat) : Except Oob Nat :=
  (cspn stop (b.bytes.drop i)).map (i + ·)

/-- `while (f(q[-1])) q--` -/
def back (b : Buf n) (f : UInt8 → Bool) : Nat → Except Oob Nat
  | 0 => .error .outside
  | q + 1 => do
    let c ← b.get q
    if f c then back b f q else .ok (q + 1)

/-- `while (f(*p)) *p-- = 0`, where `p` is in front of the given position. -/
def eraseBack (f : UInt8 → Bool) : Nat → Buf n → Except Oob (Buf n)
  | 0, _ => .error .outside
  | p + 1, b => do
    let c ← b.get p
    if f c then
      let b' ← b.set p 0
      eraseBack f p b'
    else .ok b

/-- Its last byte ends a loop that goes backwards. -/
def Halts (f : UInt8 → Bool) (a : List UInt8) : Prop := ∃ a' c, a = a' ++ [c] ∧ f c = false

section At

variable {b : Buf n} {a s r : List UInt8} {c : UInt8} {f g : UInt8 → Bool} {i : Nat}

theorem get_at (h : b.bytes = a ++ c :: r) (hi : i = a.length) : b.get i = .ok c := by
  simp [get, h, hi]

theorem set_at (h : b.bytes = a ++ c :: r) (hi : i = a.length) (d : UInt8) :
    ∃ b', b.set i d = .ok b' ∧ b'.bytes = a ++ d :: r := by
  have hlt : i < n := by
    rw [hi, ← b.size, h, length_append, length_cons]
    omega
  obtain ⟨b', hb', hbytes⟩ := @set_eq n b i d hlt
  exact ⟨b', hb', by rw [hbytes, h, hi]; simp⟩

theorem str_at (h : b.bytes = a ++ (s ++ 0 :: r)) (hi : i = a.length) (h0 : 0 ∉ s) :
    b.str i = .ok s := by
  rw [str_eq_ok]
  exact ⟨r, by rw [h, hi, drop_left], h0⟩

theorem strchr_at (h : b.bytes = a ++ (s ++ c :: r)) (hi : i = a.length) (h0 : 0 ∉ s) (hc : c ∉ s) :
    b.strchr i c = .ok (some (i + s.length)) := by
  rw [strchr, h, hi, drop_left, cchr_found h0 hc]
  rfl

theorem cspn_eq (hs : ∀ x ∈ s, g x = false) (hc : g c = true) :
    cspn g (s ++ c :: r) = .ok s.length := by
  induction s with
  | nil => rw [nil_append, cspn, if_pos hc]; rfl
  | cons d s ih =>
    rw [forall_mem_cons] at hs
    rw [cons_append, cspn, hs.1, ih hs.2]
    rfl

theorem scan_at (h : b.bytes = a ++ (s ++ c :: r)) (hi : i = a.length) (hs : ∀ x ∈ s, g x = false)
    (hc : g c = true) : b.scan g i = .ok (i + s.length) := by
  rw [scan, h, hi, drop_left, cspn_eq hs hc]
  rfl

section Back

variable (h : b.bytes = a ++ (s ++ r)) (hi : i = a.length + s.length) (ha : Halts f a)
  (hs : ∀ x ∈ s, f x = true)

include h hi ha hs

theorem back_at : b.back f i = .ok a.length := by
  subst hi
  induction s using List.reverseRecOn generalizing r with
  | nil =>
    obtain ⟨a', c, rfl, hc⟩ := ha
    have hget : b.get a'.length = .ok c := get_at (by rw [h, append_assoc]; rfl) rfl
    rw [length_append, length_singleton, length_nil, back, hget, ok_bind, hc]
    rfl
  | append_singleton s x ih =>
    have hx : f x = true := hs x (by simp)
    have hat : b.bytes = (a ++ s) ++ x :: r := by rw [h]; simp
    rw [length_append, length_singleton, ← Nat.add_assoc, back,
      get_at hat length_append.symm, ok_bind, if_pos hx]
    exact ih (by rw [h, append_assoc]) fun y hy => hs y (mem_append_left _ hy)

theorem eraseBack_at :
    ∃ b', b.eraseBack f i = .ok b' ∧ b'.bytes = a ++ (List.replicate s.length 0 ++ r) := by
  subst hi
  induction s using List.reverseRecOn generalizing r b with
  | nil =>
    refine ⟨b, ?_, h⟩
    obtain ⟨a', c, rfl, hc⟩ := ha
    have hget : b.get a'.length = .ok c := get_at (by rw [h, append_assoc]; rfl) rfl
    rw [length_append, length_singleton, length_nil, eraseBack, hget, ok_bind, hc]
    rfl
  | append_singleton s x ih =>
    have hx : f x = true := hs x (by simp)
    have hat : b.bytes = (a ++ s) ++ x :: r := by rw [h]; simp
    obtain ⟨b₁, hset, hbytes⟩ := set_at hat length_append.symm 0
    rw [append_assoc] at hbytes
    obtain ⟨b', hb', hres⟩ := ih hbytes fun y hy => hs y (mem_append_left _ hy)
    refine ⟨b', ?_, ?_⟩
    · rw [length_append, length_singleton, ← Nat.add_assoc, eraseBack,
        get_at hat length_append.symm, ok_bind, if_pos hx, hset, ok_bind, hb']
    · rw [hres, length_append, length_singleton, replicate_succ', append_assoc]
      rfl

end Back

end At

end Buf

end Pfs.Lib
