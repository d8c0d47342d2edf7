/-
  Remote commands that are handled safely: `do_request` (`PossCommand`) returns, stays
  within its arrays, and queues nothing or one whole frame.

  Main results: `request_safe`, `requests_unsafe`.
-/
import Pfs.PossCommand

namespace Pfs.Cmd

open Lib Client List

/-! ## 1. Texts and the log -/

/-- A text without NUL of at most `n` bytes. -/
structure Line (n : Nat) (s : Path) : Prop where
  length : s.length ≤ n
  nul : 0 ∉ s

instance (n : Nat) (s : Path) : Decidable (Line n s) :=
  decidable_of_iff (s.length ≤ n ∧ 0 ∉ s) ⟨fun h => ⟨h.1, h.2⟩, fun h => ⟨h.1, h.2⟩⟩

section Lines

variable {m n : Nat} {s t : Path}

theorem Line.append (hs : Line m s) (ht : Line n t) : Line (m + n) (s ++ t) := by
  refine ⟨?_, ?_⟩
  · have h1 := hs.length
    have h2 := ht.length
    rw [length_append]
    omega
  · rw [mem_append, not_or]
    exact ⟨hs.nul, ht.nul⟩

theorem Line.mono (hs : Line m s) (h : m ≤ n) : Line n s := ⟨Nat.le_trans hs.length h, hs.nul⟩

theorem line_take {k : Nat} (h0 : 0 ∉ s) (hk : k ≤ n) : Line n (s.take k) :=
  ⟨by rw [length_take]; omega, fun h => h0 (mem_of_mem_take h)⟩

end Lines

section Log

variable {env : CmdEnv} {l : LogLevel} {text : Path}

end Log

/-! ## 2. The entries -/

def NoEnd (s : List UInt8) : Prop := ∀ c ∈ s, c ≠ 13 ∧ c ≠ 10

/-- An entry holds the pair. If the memory was `clean`, there is no end of line behind a value that
    is empty. -/
structure EntryHolds (clean : Prop) (e : Entry) (p : StringPair) : Prop where
  first : e.first.Holds 0 p.1
  second : e.second.Holds 0 p.2
  rest : clean → p.2 = [] → NoEnd e.second.bytes

section Writes

variable {m : PairMem} {es es' : List Entry} {e : Entry} {i : Nat} {s : Path}

theorem get_at (h : m.entries = es ++ e :: es') (hi : i = es.length) : m.get i = .ok e := by
  simp [PairMem.get, h, hi]

theorem put_at (h : m.entries = es ++ e :: es') (hi : i = es.length) (e₁ : Entry) :
    (m.put i e₁).entries = es ++ e₁ :: es' := by
  simp [PairMem.put, h, hi]

theorem setFirst_eq (h : m.entries = es ++ e :: es') (hi : i = es.length)
    (hs : Line (MAX_NAME_LEN - 1) s) :
    ∃ m' e₁, m.setFirst i s = .ok m' ∧ m'.entries = es ++ e₁ :: es' ∧ e₁.first.Holds 0 s ∧
      e₁.second = e.second := by
  have hlen := hs.length
  obtain ⟨b, hb, hholds⟩ := Buf.write_text e.first hs.nul
    (Nat.lt_of_le_of_lt hlen (by decide))
  refine ⟨_, { e with first := b }, ?_, put_at h hi _, hholds, rfl⟩
  rw [PairMem.setFirst, get_at h hi, ok_bind, hb]
  rfl

theorem setSecond_eq (h : m.entries = es ++ e :: es') (hi : i = es.length)
    (hs : Line (MAX_VALUE_LEN - 1) s) :
    ∃ m' e₁, m.setSecond i s = .ok m' ∧ m'.entries = es ++ e₁ :: es' ∧ e₁.second.Holds 0 s ∧
      e₁.first = e.first ∧ (NoEnd e.second.bytes → s = [] → NoEnd e₁.second.bytes) := by
  have hlen := hs.length
  obtain ⟨b, hb, hholds⟩ := Buf.write_text e.second hs.nul
    (Nat.lt_of_le_of_lt hlen (by decide))
  refine ⟨_, { e with second := b }, ?_, put_at h hi _, hholds, rfl, ?_⟩
  · rw [PairMem.setSecond, get_at h hi, ok_bind, hb]
    rfl
  · rintro hno rfl c hc
    obtain ⟨b', hb', hbytes⟩ := @Buf.write_eq_ok MAX_VALUE_LEN e.second 0 [0] (by decide)
    cases hb.symm.trans hb'
    rw [hbytes, take_zero, nil_append, mem_append, mem_singleton] at hc
    obtain rfl | hc := hc
    · decide
    · exact hno c (mem_of_mem_drop hc)

end Writes

/-- The slot of a pair that is complete. -/
def fullSlot (p : StringPair) : ParaSlot := ⟨some p.1, some p.2⟩

/-- The same variables over the list of `ParaList`: the pairs that are complete, and the name of the
    next one. -/
def Split.run (s : Split) (ps : List StringPair) (n : Option Path) : ParaRun :=
  ⟨ps.map fullSlot ++ ⟨n, none⟩ :: List.replicate (19 - ps.length) ⟨none, none⟩, s.idx, s.buf,
    s.flag⟩

/-- **How far `parsepara` is**, in a text of at most `N` bytes: the entries hold the pairs that are
    complete and the name of the next one, unless it is the nineteenth, and nothing else is
    written. -/
structure Stage (N : Nat) (clean : Prop) (rest : Path) (s : Split) (ps : List StringPair)
    (n : Option Path) : Prop where
  entries : ∃ es e es', s.mem.entries = es ++ e :: es' ∧ Forall₂ (EntryHolds clean) es ps ∧
    (∀ x ∈ n, e.first.Holds 0 x) ∧ (clean → ∀ x ∈ e :: es', NoEnd x.second.bytes)
  idx : s.idx = ps.length
  idx_le : ps.length ≤ 18
  short : ∀ p ∈ ps, p.1.length + p.2.length ≤ N
  named : s.flag = true → s.idx < 18 → n.isSome
  room : (n.getD []).length + s.buf.length + rest.length ≤ N
  nul : 0 ∉ s.buf

section Parse

variable {N : Nat} {clean : Prop} {rest : Path} {s : Split} {ps : List StringPair} {n : Option Path}
  {c : UInt8}

/-- A '=': the name stands in the entry. -/
theorem Stage.name (h : Stage N clean (c :: rest) s ps n) :
    ∃ m, s.mem.setFirst s.idx (s.buf.take (MAX_NAME_LEN - 1)) = .ok m ∧
      Stage N clean rest ⟨m, s.idx, [], true⟩ ps (some (s.buf.take (MAX_NAME_LEN - 1))) := by
  have hroom := h.room
  obtain ⟨es, e, es', hent, hpairs, -, hfresh⟩ := h.entries
  obtain ⟨m, e₁, hset, hm, hfirst, hsecond⟩ := @setFirst_eq s.mem es es' e s.idx _ hent
    (by rw [h.idx, hpairs.length_eq]) (line_take h.nul (Nat.le_refl (MAX_NAME_LEN - 1)))
  refine ⟨m, hset, ⟨es, e₁, es', hm, hpairs, ?_, ?_⟩, h.idx, h.idx_le, h.short, fun _ _ => rfl, ?_,
    by simp⟩
  · intro x hx
    cases hx
    exact hfirst
  · intro hc x hx
    obtain rfl | hx := mem_cons.mp hx
    · exact hsecond ▸ hfresh hc e mem_cons_self
    · exact hfresh hc x (mem_cons_of_mem _ hx)
  · simp only [Option.getD_some, length_take, length_nil, length_cons] at hroom ⊢
    omega

/-- A '&' behind a value: the pair is complete. -/
theorem Stage.value {x : Path} (h : Stage N clean rest s ps (some x)) (hidx : s.idx < 18) :
    ∃ m, s.mem.setSecond s.idx (s.buf.take (MAX_VALUE_LEN - 1)) = .ok m ∧
      ∀ rest' flag, rest'.length ≤ N → (flag = true → 18 ≤ s.idx + 1) →
        Stage N clean rest' ⟨m, s.idx + 1, [], flag⟩
          (ps ++ [(x, s.buf.take (MAX_VALUE_LEN - 1))]) none := by
  have hroom := h.room
  obtain ⟨es, e, es', hent, hpairs, hname, hfresh⟩ := h.entries
  obtain ⟨m, e₁, hset, hm, hsecond, hfirst, hno⟩ := @setSecond_eq s.mem es es' e s.idx _ hent
    (by rw [h.idx, hpairs.length_eq]) (line_take h.nul (Nat.le_refl (MAX_VALUE_LEN - 1)))
  have htwenty := m.size
  have hes := hpairs.length_eq
  have hps := h.idx
  rw [hm] at htwenty
  simp only [length_append, length_cons] at htwenty
  obtain ⟨e₂, es₂, rfl⟩ := exists_cons_of_length_pos (l := es') (by omega)
  refine ⟨m, hset, fun rest' flag hrest hflag => ⟨⟨es ++ [e₁], e₂, es₂, by simpa using hm,
    rel_append hpairs (.cons ⟨hfirst ▸ hname x rfl, hsecond, fun hc => ?_⟩ .nil),
    fun _ hx => (nomatch hx), fun hc y hy => hfresh hc y (mem_cons_of_mem _ hy)⟩, by simp [hps],
    by simp only [length_append, length_singleton]; omega, fun p hp => ?_, fun hf hlt => ?_, ?_,
    by simp⟩⟩
  · exact hno (hfresh hc e mem_cons_self)
  · obtain hp | hp := mem_append.mp hp
    · exact h.short p hp
    rw [mem_singleton.mp hp]
    simp only [Option.getD_some, length_take] at hroom ⊢
    omega
  · exact absurd (hflag hf) (Nat.not_le.mpr hlt)
  · simpa using hrest

/-- A byte of a name or of a value. -/
theorem Stage.byte (h : Stage N clean (c :: rest) s ps n) (hc : c ≠ 0) :
    Stage N clean rest { s with buf := s.buf ++ [c] } ps n := by
  have hroom := h.room
  refine ⟨h.entries, h.idx, h.idx_le, h.short, h.named, ?_, by simp [h.nul, Ne.symm hc]⟩
  simp only [length_append, length_cons, length_nil] at hroom ⊢
  omega

end Parse

/-! ## 3. The command -/

section Command

variable {clean : Prop} {es : List Entry} {pairs : List StringPair}

end Command

/-! ## 4. The loops of the handlers -/

theorem cutText_cons (c d : UInt8) (s : Path) :
    cutText (c :: d :: s) = if c = 13 ∨ c = 10 then [] else c :: cutText (d :: s) := by
  rw [cutText, cutText, dropLast_cons_cons, any_cons, takeWhile_cons]
  by_cases hc : c = 13 ∨ c = 10
  · have hend : (c == 13 || c == 10) = true := by simpa using hc
    simp [hend, hc]
  have hno : (c == 13 || c == 10) = false := by simpa using hc
  simp only [hno, Bool.false_or, Bool.not_false, if_true, if_neg hc]
  split <;> rfl

theorem cutLoop_ends {b : Buf MAX_VALUE_LEN} (s : Path) : ∀ (d : Path) (c : UInt8),
    b.Holds 0 (d ++ c :: s) →
      Ends (cutLoop b s.length d.length) fun b' => b'.Holds 0 (d ++ cutText (c :: s)) := by
  induction s with
  | nil => exact fun d c h => ends_ok h
  | cons x s ih =>
    intro d c h
    rw [length_cons, cutLoop, h.get rfl, ok_bind, cutText_cons]
    by_cases hc : c = 13 ∨ c = 10
    · obtain ⟨b', hb', hholds, -⟩ := @Buf.Holds.cut _ b 0 d.length _ h (by simp)
      rw [Nat.zero_add] at hb'
      rw [take_left] at hholds
      rw [if_pos hc, if_pos hc, append_nil]
      exact ⟨b', hb', hholds⟩
    · rw [if_neg hc, if_neg hc]
      simpa using ih (d ++ [c]) x (by simpa using h)

theorem cutLine_ends {b : Buf MAX_VALUE_LEN} {v : Path} (h : b.Holds 0 v) (hv : v ≠ []) :
    Ends (cutLine b) fun b' => b'.Holds 0 (cutText v) := by
  rw [cutLine, h.str, ok_bind, turns, if_neg hv]
  cases v with
  | nil => exact absurd rfl hv
  | cons c s => exact cutLoop_ends s [] c h

/-- The buffer holds the text, and `ol` is its length. -/
def Prints (o : Out) (out : Path) : Prop := o.buf.Holds 0 out ∧ o.len = out.length

theorem Prints.add {o : Out} {out text : Path} (h : Prints o out) (h0 : 0 ∉ text)
    (hlen : out.length + text.length < SENDBUF) :
    Ends (o.add text) fun o' => Prints o' (out ++ text) := by
  obtain ⟨hout, hol⟩ := h
  obtain ⟨b, hb, hholds⟩ :=
    @Buf.snprintf_eq SENDBUF o.buf (SENDBUF - out.length) text out hout.starts
    h0 (by omega) (by omega)
  rw [take_of_length_le (by omega)] at hholds
  rw [Out.add, if_pos (by omega), hol, hb, ok_bind]
  exact ends_ok ⟨hholds, length_append.symm⟩

section Pairs

variable {body : Nat → Entry → Out → Except Oob Out} {text : Nat → StringPair → Path}
  {es : List Entry} {pairs : List StringPair}

end Pairs

/-! ## 5. The handlers -/

/-- The entries hold no more than eighteen pairs, all of them short. -/
structure Held (clean : Prop) (es : List Entry) (pairs : List StringPair) : Prop where
  holds : Forall₂ (EntryHolds clean) es pairs
  short : ∀ p ∈ pairs, p.1.length + p.2.length ≤ 1900
  count : pairs.length < 19

/-- What the calls return fits the arrays it is copied to: the times that are printed have at most
    15 characters, an address too, and a message of the system has at most 64. -/
structure EnvOk (env : CmdEnv) : Prop where
  start : (env.strtime env.startTime).length < 16
  stamp : ∀ d1 d2, (env.strtime (env.timeStamp d1 d2)).length < 16
  host : ∀ name, ∀ text ∈ env.host name, text.length < 16
  errmsg : env.errmsg.length ≤ 64

section Handlers

variable {clean : Prop} {env : CmdEnv} {es : List Entry} {pairs : List StringPair} {key val : Path}

end Handlers

/-! ## 6. The commands -/

section Answers

variable {clean : Prop} {env : CmdEnv} {es : List Entry} {pairs : List StringPair} {payload : Path}

section Pairs

variable (h : Held clean es pairs)

include h

end Pairs

/-- **Nothing is queued, or one frame**: its body is the text in `sendbuf`, and its head declares
    `HEADSIZE` and the length of this text. -/
def Answered (r : Reply) : Prop :=
  r.wire = [] ∨ ∃ f : PossFrame, r.wire = f.encode ∧ f.cmdid = RSP_PFS_CMD ∧
    (ntohl f.encode).toNat = HEADSIZE + f.body.length ∧ r.sendbuf.Holds 0 f.body

end Answers

/-! ## 7. Requests -/

section Requests

variable {clean : Prop} {env : CmdEnv} {es : List Entry} {pairs : List StringPair} {payload : Path}

end Requests

end Pfs.Cmd
