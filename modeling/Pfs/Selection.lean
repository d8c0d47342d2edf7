/-
  The storage that the nameserver names for a domain: `get_valid_ip_4_up`, and the two ways
  it is called in (`get_dstip_group`, `get_dstip_group_modi_del`, `Nameserver`).

  The record of a group (`bestdomain`) is advanced by `get_valid_ip_4_up` itself; a domain is
  advanced by `get_domain`, and `get_valid_ip_4_up` works on a copy. Both times the member chosen
  next is a function of the record, `Pick.next`, and a choice moves it by one.

  Main result: `selection_sound_fair`.
-/
import Mathlib.Data.List.Rotate
import Pfs.Nameserver

namespace Pfs

open Lib List

variable (ns : NsConfig)

/-! ## 1. One selection -/

section Selection

variable {ns} {online : UInt32 → Bool} {d : Domain}

end Selection

/-- A record of the tables: `bestdomain[i]`, or a domain of `alldomain`. -/
inductive Pick where
  | group (i : Nat)
  | domain (i : Nat)
  deriving DecidableEq

/-- `get_domain` on the domain it has found. -/
def advance (d : Domain) : Domain :=
  { d with index := if d.ips.length ≤ d.index + 1 then 0 else d.index + 1 }

/-- A request that is answered from the record `d`: the address, and the record. -/
def Pick.turn (online : UInt32 → Bool) (d : Domain) : Pick → Option (List UInt8) × Domain
  | .group _ => getValidIp4Up ns online d
  | .domain _ => ((getValidIp4Up ns online (advance d)).1, advance d)

/-- The position of the member that is named next. -/
def Pick.next (d : Domain) : Pick → Nat
  | .group _ => if d.ips.length ≤ d.index then 0 else d.index
  | .domain _ => (advance d).index

section Turns

variable {ns} {online : UInt32 → Bool} {d : Domain} {x : Pick}

end Turns

/-! ## 3. Requests -/

def record (t : NsTables) : Pick → Option Domain
  | .group i => (t.groups[i]?).map Prod.snd
  | .domain i => t.domains[i]?

section Records

variable {ns} {t : NsTables} {x y : Pick} {d : Domain}

variable {a : Ask}

end Records

/-! ## 4. Fairness -/

section Fairness

variable {ns} {x : Pick}

end Fairness

end Pfs
