/-
  The configuration store (lib/myconfig.c): the loader, the lookups, the update from a
  remote command (`do_confupda`, network/pfs_maintain.c) and the dump to a file.

  An entry is in two lists: that of its hash (`myhash`) and that of its section's prefix
  (`prelist`). It enters both at the front and leaves both together, so both are parts of one list,
  `mcs`, newest first. An access outside of an array, or through a null pointer, ends the run.

  Main results: `getValue_eq`, `getMultivalue_eq`.
-/
import Pfs.PossCommand

namespace Pfs.Conf

open Lib

/-! ## 1. The store -/

/-- `SEP` -/
def isSep (c : UInt8) : Bool := c == 32 || c == 46 || c == 45 || c == 95

def sepByte (c : UInt8) : UInt8 := if isSep c then 95 else c

def keyByte (c : UInt8) : UInt8 := lower (sepByte c)

/-- `struct myconfig`, with the place in `prelist` that it is in. -/
structure Mc where
  key : Path
  val : Path
  slot : Option Nat
  deriving DecidableEq

/-- The entries, newest first, and the prefixes of the slots of `prelist` that are used. -/
structure Store where
  mcs : List Mc
  slots : List Path
  deriving DecidableEq

namespace Store

/-- After `INIT_LIST_HEAD`. -/
def empty : Store := ⟨[], []⟩

/-- `myhash[hash & 0xff]` -/
def myhash (s : Store) (hash : Nat) : List Mc :=
  s.mcs.filter fun m => r5hash m.key % 256 == hash % 256

/-- `prelist[i].list` -/
def prelist (s : Store) (i : Nat) : List Mc := s.mcs.filter fun m => m.slot == some i

end Store

/-- `pre[20]` of a slot. -/
def PRE_LEN : Nat := 20

/-- `myconfig_put_value`: the entry goes to the first slot whose prefix starts with `pre`, or to a
    new one; with all 256 in use it is in none. -/
def putValue (pre key0 val : Path) (s : Store) : Except Oob Store :=
  if PRE_LEN ≤ pre.length ∨ Cmd.VAL_MAX_LEN ≤ val.length then .error .outside
  else
    let key := (pre ++ key0).map keyByte
    let i := s.slots.findIdx fun q => pre.isPrefixOf q
    .ok (if i < s.slots.length then ⟨⟨key, val, some i⟩ :: s.mcs, s.slots⟩
      else if i < 256 then ⟨⟨key, val, some i⟩ :: s.mcs, s.slots ++ [pre]⟩
      else ⟨⟨key, val, none⟩ :: s.mcs, s.slots⟩)

/-- `myconfig_get_value` -/
def getValue (key : Path) (s : Store) : Option Path :=
  ((s.myhash (r5hash key)).find? fun m => r5hash key == r5hash m.key && key == m.key).map Mc.val

/-- The loop of `myconfig_get_multivalue`. -/
def multiLoop (key : Path) : List Mc → Nat → Option Path
  | [], _ => none
  | m :: ms, index =>
    if r5hash key == r5hash m.key && key == m.key then
      if index = 0 then some m.val else multiLoop key ms (index - 1)
    else multiLoop key ms index

/-- `myconfig_get_multivalue`, from the oldest entry on. -/
def getMultivalue (key : Path) (index : Nat) (s : Store) : Option Path :=
  multiLoop key (s.myhash (r5hash key)).reverse index

/-- `myconfig_delete_value`; an entry that is in no slot cannot be taken out of its list. -/
def deleteValue (pre key : Path) (s : Store) : Except Oob Store :=
  let str := (pre ++ key).map sepByte
  if s.mcs.any fun m => m.key == str && m.slot == none then .error .outside
  else .ok { s with mcs := s.mcs.filter fun m => m.key != str }

/-- The first entry with the key gets the value. -/
def setVal (key value : Path) : List Mc → List Mc
  | [] => []
  | m :: ms => if m.key = key then { m with val := value } :: ms else m :: setVal key value ms

/-- `myconfig_update_value`: a new key is divided at its first '_', into `pre[20]` and
    `key0[30]`. -/
def updateValue (key value : Path) (s : Store) : Except Oob Store :=
  if s.mcs.any fun m => m.key == key then
    if value.length < Cmd.VAL_MAX_LEN then .ok { s with mcs := setVal key value s.mcs }
    else .error .outside
  else if 95 ∈ key then
    let pre := key.takeWhile (· != 95)
    let key0 := (key.dropWhile (· != 95)).drop 1
    if PRE_LEN ≤ pre.length + 1 ∨ 30 ≤ key0.length then .error .outside
    else putValue (pre ++ [45]) key0 value s
  else putValue [] key value s

/-! ## 2. The loader -/

/-- " \t\r" -/
def isBlank (c : UInt8) : Bool := c == 32 || c == 9 || c == 13

/-- " \t\r=" -/
def endsKey (c : UInt8) : Bool := isBlank c || c == 61

/-- What the text behind '[' sets `section` to: up to the first ']', without the separators at both
    ends, and with '-' at the end; nothing if there is no ']'. -/
def sectionOf (p : Path) : Option Path :=
  if 93 ∈ p then
    let name := ((p.takeWhile (· != 93)).rdropWhile isSep).dropWhile isSep
    some (if name = [] then [] else name ++ [45])
  else none

/-- The key of a line without the blanks in front. -/
def keyOf (p : Path) : Path := p.takeWhile fun c => !endsKey c

/-- The value of such a line: behind blanks, any number of '=' and blanks, up to the blanks at the
    end. -/
def valueOf (p : Path) : Path :=
  ((((p.drop (keyOf p).length).dropWhile isBlank).dropWhile (· == 61)).dropWhile isBlank).rdropWhile
    isBlank

/-- The variables of `myconfig_loadfile0`, before `inited`. -/
structure Loader where
  sect : Path
  store : Store

/-- A line, from which '\n' has been taken. -/
def loadLine (line : Path) (l : Loader) : Except Oob Loader :=
  match line.dropWhile isBlank with
  | [] => .ok l
  | c :: p =>
    if c = 91 then .ok { l with sect := (sectionOf p).getD l.sect }
    else if c = 35 ∨ c = 59 then .ok l
    else if (keyOf (c :: p)).head?.any isAlnum && valueOf (c :: p) != [] then
      (putValue l.sect (keyOf (c :: p)) (valueOf (c :: p)) l.store).map
        fun s => { l with store := s }
    else .ok l

def loadLines : List Path → Loader → Except Oob Loader
  | [], l => .ok l
  | line :: lines, l => loadLine line l >>= loadLines lines

/-- `myconfig_loadfile0` into an empty store. Where `strchr` finds no '\n', because there is none or
    a NUL is in front of it, the next line is looked for at address 0. -/
def loadfile (text : Path) : Except Oob Store :=
  if 0 ∈ text ∨ (lines 10 text).2 ≠ [] then .error .outside
  else (loadLines (lines 10 text).1 ⟨[], Store.empty⟩).map Loader.store

/-! ## 3. The dump -/

/-- The lines in front: an empty one, a remark and an empty one. -/
def remark : Path :=
  [35, 35, 197, 228, 214, 195, 206, 196, 188, 254, 178, 187, 199, 248, 183, 214, 180, 243, 208, 161,
    208, 180, 33]

def dashes : Path := List.replicate 61 45

/-- An entry: its key is printed from `strlen(pre)` on, and is followed in memory by its value. -/
def dumpMc (pre : Path) (m : Mc) : Except Oob Path := do
  let k ← if pre = ascii "nopre" then .ok m.key
    else cstr ((m.key ++ 0 :: (m.val ++ [0])).drop pre.length)
  .ok (9 :: (k ++ ascii " = " ++ m.val) ++ [10])

def dumpMcs (pre : Path) : List Mc → Except Oob Path
  | [] => .ok []
  | m :: ms => do
    let line ← dumpMc pre m
    let rest ← dumpMcs pre ms
    .ok (line ++ rest)

/-- The slots from `i` on; the first one has no head. -/
def dumpSlots (s : Store) : Nat → List Path → Except Oob Path
  | _, [] => .ok []
  | i, pre :: slots => do
    let body ← dumpMcs pre (s.prelist i)
    let rest ← dumpSlots s (i + 1) slots
    .ok ((if 0 < i then ascii "[ " ++ pre.dropLast ++ ascii " ]" ++ [10] else []) ++ body ++
      (dashes ++ [10]) ++ rest)

/-- `myconfig_dump_to_file`: what is in the file. -/
def dumpToFile (s : Store) : Except Oob Path := do
  let body ← dumpSlots s 0 s.slots
  .ok ([10] ++ (remark ++ [10]) ++ [10] ++ body)

/-! ## 4. Remote updates -/

/-- `isvalid(key) == 0` -/
def isValid (key : Path) : Bool := Cmd.validcmd.any fun c => key.map lower == c.map lower

/-- A pair of `do_confupda`. -/
def confupdaOne (p : StringPair) (s : Store) : Except Oob Store :=
  if p.1.map lower = ascii "pfs_cmd" ∨ isValid p.1 = false then .ok s
  else if p.2 = [] then .error .outside
  else deleteValue [] p.1 s >>= updateValue p.1 (Cmd.cutText p.2)

/-- `do_confupda` up to the dump. -/
def doConfupda : List StringPair → Store → Except Oob Store
  | [], s => .ok s
  | p :: ps, s => confupdaOne p s >>= doConfupda ps

/-- A store that was loaded, and updated any number of times. The pairs are texts of C. -/
inductive Reached : Store → Prop
  | load {text : Path} {s : Store} : loadfile text = .ok s → Reached s
  | confupda {pairs : List StringPair} {s s' : Store} : Reached s →
      (∀ p ∈ pairs, 0 ∉ p.1 ∧ 0 ∉ p.2) → doConfupda pairs s = .ok s' → Reached s'

/-! ## 5. What a lookup depends on -/

def valuesOf (k : Path) (s : Store) : List Path := (s.mcs.filter fun m => m.key == k).map Mc.val

section Lookups

variable {k : Path}

theorem found_iff (m : Mc) : (r5hash k == r5hash m.key && k == m.key) = (m.key == k) := by
  by_cases h : m.key = k
  · simp [h]
  · rw [beq_eq_false_iff_ne.mpr h, beq_eq_false_iff_ne.mpr (Ne.symm h), Bool.and_false]

theorem myhash_found (m : Mc) :
    (r5hash m.key % 256 == r5hash k % 256 && m.key == k) = (m.key == k) := by
  by_cases h : m.key = k
  · simp [h]
  · rw [beq_eq_false_iff_ne.mpr h, Bool.and_false]

theorem filter_myhash (s : Store) :
    (s.myhash (r5hash k)).filter (fun m => m.key == k) = s.mcs.filter fun m => m.key == k := by
  rw [Store.myhash, List.filter_filter]
  refine List.filter_congr fun m _ => ?_
  rw [Bool.and_comm]
  exact myhash_found m

theorem getValue_eq (s : Store) : getValue k s = (valuesOf k s).head? := by
  simp only [getValue, valuesOf, found_iff]
  rw [← List.head?_filter, filter_myhash, List.head?_map]

theorem multiLoop_eq (ms : List Mc) (i : Nat) :
    multiLoop k ms i = ((ms.filter fun m => m.key == k).map Mc.val)[i]? := by
  induction ms generalizing i with
  | nil => rfl
  | cons m ms ih =>
    rw [multiLoop, found_iff]
    by_cases h : m.key = k
    · rw [List.filter_cons_of_pos (by simp [h]), if_pos (by simp [h])]
      cases i with
      | zero => rfl
      | succ i => exact ih i
    · rw [List.filter_cons_of_neg (by simp [h]), if_neg (by simp [h])]
      exact ih i

theorem getMultivalue_eq (s : Store) (i : Nat) :
    getMultivalue k i s = (valuesOf k s).reverse[i]? := by
  rw [getMultivalue, multiLoop_eq, List.filter_reverse, filter_myhash, List.map_reverse]
  rfl

end Lookups

end Pfs.Conf
