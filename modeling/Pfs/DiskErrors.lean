/-
  How the storages of a domain learn of each other's disks (`get_self_err_disk`,
  `set_domain_diskerr` of network/pfs_init.c, `sync_diskerr_2_domain` and DISKINFO_RSP in `do_req`
  of network/S/pfs_sig_sub.c).

  A storage finds the errors of its own disks in `refresh_maxfreedisk`, tells them to the other
  members every five minutes, and keeps the last map that came from each of them; it chooses no disk
  with an error in one of these maps. A connection keeps the order of what is sent on it; two
  connections between the same storages need not.

  Main results: `domainNext_moves`, `maps_in_order`, `sent_map_known`.
-/
import Pfs.Disks
import Pfs.Lib.Copies

namespace Pfs

open Lib Function List

/-! ## 1. The storages of a domain -/

abbrev ErrMap := Nat → UInt8

def clearMap : ErrMap := fun _ => 0

/-- `self_domain` of every storage, by its address, and the maps on their way from one storage to
    another, in the order in which they were sent. Mark: all that were sent. -/
structure DomainSt where
  members : UInt32 → List ErrMember
  flight : UInt32 × UInt32 → List ErrMap
  sent : UInt32 × UInt32 → List ErrMap

/-- `get_self_err_disk`; `none` is -1. -/
def getSelfErrDisk (ms : List ErrMember) : Option ErrMap :=
  (ms.find? ErrMember.self).map ErrMember.errdisk

def DomainSt.activeSend (s : DomainSt) (p : UInt32 × UInt32) (e : ErrMap) : DomainSt :=
  { s with
    flight := update s.flight p (s.flight p ++ [e])
    sent := update s.sent p (s.sent p ++ [e]) }

/-- One round of `sync_diskerr_2_domain`; `online` is whether `find_ip_stat` finds the address. -/
def diskerrTo (selfIp : UInt32) (offline online : UInt32 → Bool) (e : ErrMap) (s : DomainSt)
    (m : ErrMember) : DomainSt :=
  if m.ip = selfIp then s
  else if offline m.ip then s
  else if online m.ip then s.activeSend (selfIp, m.ip) e
  else s

/-- `sync_diskerr_2_domain` -/
def syncDiskerr2Domain (selfIp : UInt32) (offline online : UInt32 → Bool) (s : DomainSt) :
    DomainSt :=
  match getSelfErrDisk (s.members selfIp) with
  | none => s
  | some e => (s.members selfIp).foldl (diskerrTo selfIp offline online e) s

/-- What storages of a domain do with their error maps. -/
inductive DomainAct where
  /-- `refresh_maxfreedisk` of `a`, whose table is `info` -/
  | refresh (a : UInt32) (pfsTest : Bool) (st : Nat → DiskStat) (info : List DiskInfo)
  /-- `sync_diskerr_2_domain` of `a` -/
  | sync (a : UInt32) (offline online : UInt32 → Bool)
  /-- `b` gets DISKINFO_RSP from `a`, the `i`th of those on their way. -/
  | arrive (a b : UInt32) (i : Nat)
  /-- Connections are closed: only what `keep` says still arrives. -/
  | lose (a b : UInt32) (keep : ErrMap → Bool)

def domainNext (s : DomainSt) : DomainAct → Option DomainSt
  | .refresh a pfsTest st info => some { s with
      members := update s.members a
        (refreshMaxfreedisk pfsTest st ⟨info, none, s.members a⟩).members }
  | .sync a offline online => some (syncDiskerr2Domain a offline online s)
  | .arrive a b i => (s.flight (a, b))[i]?.map fun e => { s with
      members := update s.members b (setDomainDiskerr e a (s.members b))
      flight := update s.flight (a, b) ((s.flight (a, b)).eraseIdx i) }
  | .lose a b keep =>
    some { s with flight := update s.flight (a, b) ((s.flight (a, b)).filter keep) }

/-- What arrives was sent first, and no storage is connected to itself. -/
def SentFirst : DomainAct → Prop
  | .arrive a b i => i = 0 ∧ a ≠ b
  | _ => True

/-- The map that is kept for `a`. -/
def mapOf (a : UInt32) (ms : List ErrMember) : Option ErrMap :=
  (ms.find? fun m => m.ip = a).map ErrMember.errdisk

/-! ## 2. The maps of a storage -/

/-- The member that is marked as the storage itself has its address. -/
def OwnIp (selfIp : UInt32) (ms : List ErrMember) : Prop :=
  ∀ m, ms.find? ErrMember.self = some m → m.ip = selfIp

section Members

variable {selfIp a : UInt32} {ms : List ErrMember}

theorem OwnIp.setSelfDiskErr (h : OwnIp selfIp ms) (k : Nat) (v : UInt8) :
    OwnIp selfIp (setSelfDiskErr k v ms) := by
  intro m hm
  rw [find_setSelfDiskErr, Option.map_eq_some_iff] at hm
  obtain ⟨m₀, hm₀, rfl⟩ := hm
  exact h m₀ hm₀

theorem mapOf_setDomainDiskerr (e : ErrMap) (ip : UInt32) (ms : List ErrMember) :
    mapOf a (setDomainDiskerr e ip ms) = if ip = a then (mapOf a ms).map fun _ =>
      e else mapOf a ms := by
  induction ms with
  | nil => simp [setDomainDiskerr, mapOf]
  | cons m ms ih =>
    rw [setDomainDiskerr]
    by_cases hm : m.ip = ip <;> by_cases ha : ip = a <;> simp_all [mapOf, find?_cons]
    grind

theorem mapOf_setSelfDiskErr (h : OwnIp selfIp ms) (ha : a ≠ selfIp) (k : Nat) (v : UInt8) :
    mapOf a (setSelfDiskErr k v ms) = mapOf a ms := by
  induction ms with
  | nil => rfl
  | cons m ms ih =>
    rw [setSelfDiskErr]
    by_cases hm : m.self = true
    · have hne : m.ip ≠ a := (h m (find?_cons_of_pos hm)).trans_ne ha.symm
      simp [hm, mapOf, hne]
    have ih := ih fun m' hm' => h m' ((find?_cons_of_neg hm).trans hm')
    rw [if_neg hm]
    simp only [mapOf, find?_cons] at ih ⊢
    split
    · rfl
    · exact ih

/-- `refresh_maxfreedisk` changes the storage's own map only. -/
theorem maxfreeLoop_other (h : OwnIp selfIp ms) (pfsTest : Bool) (st : Nat → DiskStat)
    (ds : List DiskInfo) (i : Nat) (b : Best) : OwnIp selfIp (maxfreeLoop pfsTest st ds i ms b).1 ∧
      ∀ a ≠ selfIp, mapOf a (maxfreeLoop pfsTest st ds i ms b).1 = mapOf a ms := by
  induction ds generalizing i ms b with
  | nil => exact ⟨h, fun _ _ => rfl⟩
  | cons d ds ih =>
    by_cases hd : d.count = 0
    · rw [maxfreeLoop, if_pos hd]
      exact ⟨h, fun _ _ => rfl⟩
    obtain ⟨v, b', hround⟩ := @maxfreeLoop_cons st ms pfsTest d ds i b hd
    rw [hround]
    obtain ⟨hown, hmap⟩ := ih (h.setSelfDiskErr i v) (i + 1) b'
    exact ⟨hown, fun a ha => (hmap a ha).trans (mapOf_setSelfDiskErr h ha i v)⟩

theorem OwnIp.find_setDomainDiskerr (h : OwnIp selfIp ms) (ha : a ≠ selfIp) (e : ErrMap) :
    (setDomainDiskerr e a ms).find? ErrMember.self = ms.find? ErrMember.self :=
  Pfs.find_setDomainDiskerr fun m hm => (h m hm).trans_ne ha.symm

end Members

/-! ## 3. Two storages -/

/-- What `b` gets to know of the disks of `a`. -/
def copying (s : DomainSt) (a b : UInt32) : Copying ErrMap where
  value := (getSelfErrDisk (s.members a)).getD clearMap
  sent := s.sent (a, b)
  way := s.flight (a, b)
  copy := (mapOf a (s.members b)).getD clearMap

/-- The disks of `a` are not looked at, and nothing is lost that is on its way to `b`. -/
def Settled (a b : UInt32) : DomainAct → Prop
  | .refresh c _ _ _ => c ≠ a
  | .lose c d _ => (c, d) ≠ (a, b)
  | _ => True

section Pairs

variable {s s' : DomainSt} {a b c : UInt32} {offline online : UInt32 → Bool} {e : ErrMap}

theorem copying_activeSend (he : getSelfErrDisk (s.members c) = some e) :
    copying (s.activeSend (c, b) e) c b = (copying s c b).send := by
  simp [copying, DomainSt.activeSend, Copying.send, he]

theorem diskerrTo_steady (he : getSelfErrDisk (s.members c) = some e) (m : ErrMember) :
    (diskerrTo c offline online e s m).members = s.members ∧
      Copying.Steady (copying s a b) (copying (diskerrTo c offline online e s m) a b) := by
  rw [diskerrTo]
  split
  · exact ⟨rfl, .quiet _⟩
  split
  · exact ⟨rfl, .quiet _⟩
  split
  · refine ⟨rfl, ?_⟩
    by_cases hp : (a, b) = (c, m.ip)
    · obtain ⟨rfl, rfl⟩ := Prod.mk.inj hp
      rw [copying_activeSend he]
      exact .send _
    have hsame : copying (s.activeSend (c, m.ip) e) a b = copying s a b := by
      simp [copying, DomainSt.activeSend, update_of_ne hp]
    rw [hsame]
    exact .quiet _
  · exact ⟨rfl, .quiet _⟩

theorem foldl_diskerrTo (ms : List ErrMember) (he : getSelfErrDisk (s.members c) = some e) :
    (ms.foldl (diskerrTo c offline online e) s).members = s.members ∧
      Copying.Steady (copying s a b) (copying (ms.foldl (diskerrTo c offline online e) s) a b) := by
  induction ms generalizing s with
  | nil => exact ⟨rfl, .quiet _⟩
  | cons m ms ih =>
    obtain ⟨hmem, hround⟩ := @diskerrTo_steady s a b c offline online e he m
    obtain ⟨hmem', hrest⟩ := ih (hmem ▸ he)
    exact ⟨hmem'.trans hmem, hround.trans hrest⟩

theorem syncDiskerr2Domain_steady :
    (syncDiskerr2Domain c offline online s).members = s.members ∧
      Copying.Steady (copying s a b) (copying (syncDiskerr2Domain c offline online s) a b) := by
  rw [syncDiskerr2Domain]
  split
  · exact ⟨rfl, .quiet _⟩
  · rename_i he
    exact foldl_diskerrTo _ he

theorem foldl_diskerrTo_latest {ms : List ErrMember} (he : getSelfErrDisk (s.members a) = some e)
    (hab : a ≠ b) (hoff : offline b = false) (hon : online b = true)
    (hb : b ∈ ms.map ErrMember.ip) :
    Copying.Latest (copying (ms.foldl (diskerrTo a offline online e) s) a b) := by
  induction ms generalizing s with
  | nil => cases hb
  | cons m ms ih =>
    obtain ⟨hmem, -⟩ := @diskerrTo_steady s a b a offline online e he m
    by_cases hm : m.ip = b
    · obtain ⟨-, hrest⟩ := @foldl_diskerrTo _ a b a offline online e ms (hmem ▸ he)
      have hround : diskerrTo a offline online e s m = s.activeSend (a, b) e := by
        simp [diskerrTo, hm, hab.symm, hoff, hon]
      refine (hrest.latest ?_).1
      rw [hround, copying_activeSend he]
      exact Copying.latest_send _
    · exact ih (hmem ▸ he) (by simpa [Ne.symm hm] using hb)

variable {act : DomainAct}

theorem domainNext_own (hown : ∀ c, OwnIp c (s.members c)) (hok : SentFirst act)
    (hs : domainNext s act = some s') : ∀ c, OwnIp c (s'.members c) := by
  cases act with
  | refresh x pfsTest st info =>
    cases hs
    exact (forall_update_iff s.members OwnIp).mpr ⟨(maxfreeLoop_other (hown x) _ _ _ _ _).1,
      fun c _ => hown c⟩
  | sync x offline online =>
    cases hs
    rw [(@syncDiskerr2Domain_steady s x x x offline online).1]
    exact hown
  | arrive x y i =>
    obtain ⟨e, -, rfl⟩ := Option.map_eq_some_iff.mp hs
    refine (forall_update_iff s.members OwnIp).mpr ⟨fun m hm => ?_, fun c _ => hown c⟩
    exact hown y m ((hown y).find_setDomainDiskerr hok.2 e ▸ hm)
  | lose x y keep =>
    cases hs
    exact hown

/-- **A step of the domain is a move of what `a` tells `b`.** -/
theorem domainNext_moves (hown : ∀ c, OwnIp c (s.members c)) (hok : SentFirst act)
    (hs : domainNext s act = some s') (hab : a ≠ b) :
    Copying.Move (copying s a b) (copying s' a b) ∧
      (Settled a b act → mapOf a (s.members b) ≠ none →
        Copying.Steady (copying s a b) (copying s' a b) ∧ mapOf a (s'.members b) ≠ none) := by
  cases act with
  | refresh x pfsTest st info =>
    cases hs
    -- of `a` only `a` itself learns something
    have hmap := (forall_update_iff s.members
      fun c ms => a ≠ c → mapOf a ms = mapOf a (s.members c)).mpr
      ⟨(maxfreeLoop_other (hown x) pfsTest st info 0 ⟨0, 0⟩).2 a, fun _ _ _ => rfl⟩ b hab
    refine ⟨?_, fun hset hmem => ?_⟩
    · simp only [copying, refreshMaxfreedisk, hmap]
      exact .write _
    · simp only [copying, refreshMaxfreedisk, hmap, update_of_ne (Ne.symm hset)]
      exact ⟨.quiet _, hmem⟩
  | sync x offline online =>
    cases hs
    obtain ⟨hmem, hsteady⟩ := @syncDiskerr2Domain_steady s a b x offline online
    exact ⟨.steady hsteady, fun _ h => ⟨hsteady, hmem ▸ h⟩⟩
  | arrive x y i =>
    obtain ⟨rfl, hne⟩ := hok
    obtain ⟨e, he, rfl⟩ := Option.map_eq_some_iff.mp hs
    have hself := (forall_update_iff s.members
      fun c ms => getSelfErrDisk ms = getSelfErrDisk (s.members c)).mpr
      ⟨congrArg (Option.map ErrMember.errdisk) ((hown y).find_setDomainDiskerr hne e),
        fun _ _ => rfl⟩ a
    by_cases hp : (a, b) = (x, y)
    · obtain ⟨rfl, rfl⟩ := Prod.mk.inj hp
      obtain ⟨way, hway⟩ : ∃ way, s.flight (a, b) = e :: way := by
        rw [← head?_eq_getElem?] at he
        exact head?_eq_some_iff.mp he
      simp only [copying, update_self, hself, mapOf_setDomainDiskerr, if_true, hway, eraseIdx_zero,
        tail_cons]
      cases mapOf a (s.members b) with
      | none => exact ⟨.lose (sublist_cons_self e way), fun _ h => absurd rfl h⟩
      | some m => exact ⟨.steady (.arrive rfl), fun _ _ => ⟨.arrive rfl, Option.some_ne_none e⟩⟩
    · have hmap := (forall_update_iff s.members
        fun c ms => (a, c) ≠ (x, y) → mapOf a ms = mapOf a (s.members c)).mpr
        ⟨fun h => (mapOf_setDomainDiskerr e x _).trans (if_neg fun hx => h (by rw [hx])),
          fun _ _ _ => rfl⟩ b hp
      simp only [copying, update_of_ne hp, hself, hmap]
      exact ⟨.steady (.quiet _), fun _ h => ⟨.quiet _, h⟩⟩
  | lose x y keep =>
    cases hs
    by_cases hp : (a, b) = (x, y)
    · obtain ⟨rfl, rfl⟩ := Prod.mk.inj hp
      simp only [copying, update_self]
      exact ⟨.lose filter_sublist, fun hset => absurd rfl hset⟩
    · simp only [copying, update_of_ne hp]
      exact ⟨.steady (.quiet _), fun _ h => ⟨.quiet _, h⟩⟩

end Pairs

/-- Nothing is known or on its way yet. -/
structure DomainSt.Start (s : DomainSt) : Prop where
  own : ∀ c, OwnIp c (s.members c)
  clear : ∀ c, ∀ m ∈ s.members c, m.errdisk = clearMap
  flight : ∀ p, s.flight p = []

/-- **No map is replaced by an older one**: the map that `b` has for `a`, and behind it those on
    their way, were sent by `a` in this order. -/
theorem maps_in_order {s₀ s : DomainSt} (hstart : s₀.Start)
    (hrun : Run domainNext (fun _ => SentFirst) s₀ s) {a b : UInt32} (hab : a ≠ b) {m : ErrMap}
    (hm : mapOf a (s.members b) = some m) :
    (m :: s.flight (a, b)) <+ (clearMap :: s.sent (a, b)) := by
  have hclear : (mapOf a (s₀.members b)).getD clearMap = clearMap := by
    cases h : (s₀.members b).find? fun m => m.ip = a with
    | none => simp [mapOf, h]
    | some m => simp [mapOf, h, hstart.clear b m (mem_of_find?_eq_some h)]
  have h0 : Copying.Behind clearMap (copying s₀ a b) := by
    simp [Copying.Behind, copying, hclear, hstart.flight]
  obtain ⟨-, h⟩ := hrun.inv (I := fun s => (∀ c, OwnIp c (s.members c)) ∧
      Copying.Behind clearMap (copying s a b)) ⟨hstart.own, h0⟩ fun _ _ _ hI hok hs =>
    ⟨domainNext_own hI.1 hok hs, (domainNext_moves hI.1 hok hs hab).1.behind hI.2⟩
  simpa only [Copying.Behind, copying, hm, Option.getD_some] using h

/-- **A map that was sent is known in the end**: `a` tells its map while `b` is online, and when
    nothing is on its way from `a` to `b` any more, `b` has it, whatever all storages did
    meanwhile. -/
theorem sent_map_known {s t : DomainSt} (hown : ∀ c, OwnIp c (s.members c)) {a b : UInt32}
    (hab : a ≠ b)
    {offline online : UInt32 → Bool} {e : ErrMap} (he : getSelfErrDisk (s.members a) = some e)
    (hb : b ∈ (s.members a).map ErrMember.ip) (hoff : offline b = false) (hon : online b = true)
    (hmem : mapOf a (s.members b) ≠ none)
    (hrun : Run domainNext (fun _ act => SentFirst act ∧ Settled a b act)
      (syncDiskerr2Domain a offline online s) t)
    (hway : t.flight (a, b) = []) : mapOf a (t.members b) = some e := by
  obtain ⟨hsame, -⟩ := @syncDiskerr2Domain_steady s a b a offline online
  have hlatest : Copying.Latest (copying (syncDiskerr2Domain a offline online s) a b) := by
    rw [syncDiskerr2Domain, he]
    exact foldl_diskerrTo_latest he hab hoff hon hb
  obtain ⟨-, hmem, hI, hvalue⟩ := hrun.inv (I := fun t => (∀ c, OwnIp c (t.members c)) ∧
      mapOf a (t.members b) ≠ none ∧ Copying.Latest (copying t a b) ∧ (copying t a b).value = e)
    ⟨hsame ▸ hown, hsame ▸ hmem, hlatest, by simp [copying, hsame, he]⟩ fun _ _ _ hI hok hs => by
      obtain ⟨hsteady, hmem'⟩ := (domainNext_moves hI.1 hok.1 hs hab).2 hok.2 hI.2.1
      obtain ⟨hlatest', hvalue'⟩ := hsteady.latest hI.2.2.1
      exact ⟨domainNext_own hI.1 hok.1 hs, hmem', hlatest', hvalue'.trans hI.2.2.2⟩
  obtain ⟨m, hm⟩ := Option.ne_none_iff_exists'.mp hmem
  simp_all [Copying.Latest, copying]

/-- Two storages; `e` is the map that the first one has of itself. -/
def twoStorages (e : ErrMap) : DomainSt where
  members := fun c => [⟨1, c == 1, if c = 1 then e else clearMap⟩, ⟨2, c == 2, clearMap⟩]
  flight := fun _ => []
  sent := fun _ => []

theorem ownIp_twoStorages (e : ErrMap) (c : UInt32) : OwnIp c ((twoStorages e).members c) := by
  intro m hm
  by_cases h1 : c = 1 <;> by_cases h2 : c = 2 <;> simp_all [twoStorages] <;> grind

def toldBy1 (e : ErrMap) : DomainSt :=
  syncDiskerr2Domain 1 (fun _ => false) (fun _ => true) (twoStorages e)

/-- The first disk of storage 1 fails, which is reported, arrives at storage 2 and is reported
    again. -/
def reportTwice : List DomainAct :=
  [.refresh 1 false (fun _ => ⟨false, none, false⟩) [⟨0, [], 1, 0, fun _ => 0⟩],
    .sync 1 (fun _ => false) fun _ => true, .arrive 1 2 0, .sync 1 (fun _ => false) fun _ => true]

theorem maps_in_order_told : ∃ s m, exec domainNext (twoStorages clearMap) reportTwice = some s ∧
    mapOf 1 (s.members 2) = some m ∧ m 0 = 1 ∧ s.flight (1, 2) = [m] ∧
    (m :: s.flight (1, 2)) <+ (clearMap :: s.sent (1, 2)) := by
  have hmeets : Meets domainNext (fun _ => SentFirst) (twoStorages clearMap) reportTwice :=
    ⟨trivial, fun _ _ => ⟨trivial, fun _ _ =>
      ⟨⟨rfl, by decide⟩, fun _ _ => ⟨trivial, fun _ _ => trivial⟩⟩⟩⟩
  refine ⟨_, _, rfl, rfl, rfl, rfl, @maps_in_order (twoStorages clearMap) _
    ⟨ownIp_twoStorages clearMap, ?_, fun _ => rfl⟩ (run_of_exec reportTwice .start hmeets rfl)
    1 2 (by decide) _ rfl⟩
  intro c m hm
  simp only [twoStorages, ite_self, mem_cons, not_mem_nil, or_false] at hm
  rcases hm with rfl | rfl <;> rfl

/-- The map has come to the second one. -/
def learntBy2 (e : ErrMap) : DomainSt := (domainNext (toldBy1 e) (.arrive 1 2 0)).getD (toldBy1 e)

theorem sent_map_known_error :
    mapOf 1 ((learntBy2 fun i => if i = 0 then 1 else 0).members 2) = some fun i => if i = 0 then
      1 else 0 := by
  have hrun : ∀ e, Run domainNext (fun _ act => SentFirst act ∧
      Settled 1 2 act) (toldBy1 e) (learntBy2 e) :=
    fun e => .next (a := .arrive 1 2 0) .start ⟨⟨rfl, by decide⟩, trivial⟩ rfl
  exact sent_map_known (ownIp_twoStorages _) (by decide) rfl (by decide) rfl rfl
    (Option.some_ne_none clearMap) (hrun _) rfl

end Pfs
