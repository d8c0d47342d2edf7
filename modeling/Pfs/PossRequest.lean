/-
  A command from the POSS master as a text: the pairs that `DecodePara` finds in it, the value of
  "pfs_cmd" (`GetParaValue`, `decode_string` of network/parsepara.c), and the command that this
  value names (`get_cmd_position` and the loop in front of it, network/pfs_maintain.c).

  `PossCommand` has the same functions over the arrays, and `PossSafe` says how the two agree.
-/
import Pfs.ParaList

namespace Pfs

/-- `sizeof(t_head_info)` -/
def HEADSIZE : Nat := 12

/-- The size of `sendbuf`. -/
def SENDBUF : Nat := 40960

/-! ## 1. The pairs -/

/-- `tolower` -/
def lower (c : UInt8) : UInt8 := if 65 ≤ c ∧ c ≤ 90 then c + 32 else c

/-- `decode_string` into a buffer of zeros with room for `room` bytes before the last one. An escape
    that is not complete or not hexadecimal ends it. -/
def decodeString : List UInt8 → Nat → List UInt8
  | 37 :: a :: b :: rest, room =>
    if digitValue a < 16 ∧ digitValue b < 16 ∧ 0 < room then
      UInt8.ofNat (16 * digitValue a + digitValue b) :: decodeString rest (room - 1)
    else []
  | c :: rest, room => if c = 37 ∨ room = 0 then [] else c :: decodeString rest (room - 1)
  | [], _ => []

/-- `GetParaValue` of "pfs_cmd" into `cmd_value[32]`. -/
def getParaValue (pairs : List StringPair) : Option (List UInt8) :=
  (pairs.find? fun p => p.1.map lower == ascii "pfs_cmd").map
    fun p => cText (decodeString p.2 31)

/-! ## 2. The command -/

/-- `cmd_type` -/
inductive PfsCmd where
  | online
  | offline
  | getinfo
  | syncdir
  | syncfile
  | confupda
  | setdirtime
  | getdirtime
  | addModGroup
  | delGroup
  deriving DecidableEq

def PfsCmd.names : List (String × PfsCmd) :=
  [("M_ONLINE", .online), ("M_OFFLINE", .offline), ("M_GETINFO", .getinfo),
    ("M_SYNCDIR", .syncdir), ("M_SYNCFILE", .syncfile), ("M_CONFUPDA", .confupda),
    ("M_SETDIRTIME", .setdirtime), ("M_GETDIRTIME", .getdirtime),
    ("M_ADD_MOD_GROUP", .addModGroup), ("M_DEL_GROUP", .delGroup)]

/-- `isalpha` or `isdigit`. -/
def isAlnum (c : UInt8) : Bool := decide (digitValue c < 36)

end Pfs
