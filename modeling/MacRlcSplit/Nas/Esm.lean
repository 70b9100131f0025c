-- The EPS bearer contexts of the UE, `esm_ebr_context.c`: the slots that the
-- bearers of a PDN connection stand in, and the two counters kept beside them.
import MacRlcSplit.Lib.Run
import MacRlcSplit.Lib.Table

namespace MacRlcSplit.Nas

open Lib Function List Option

/-! ## The functions -/

def ESM_DATA_EPS_BEARER_TOTAL : Int := 11

def ESM_DATA_PDN_MAX : Nat := 4

def ESM_DATA_EPS_BEARER_MAX : Nat := 4

def ESM_EBI_UNASSIGNED : Nat := 0

def NET_PACKET_FILTER_MAX : Nat := 16

/-- `network_pkf_t`: what the templates are compared by. -/
structure NetworkPkf where
  id : Nat
  precedence : Nat
deriving DecidableEq, Repr

/-- `esm_bearer_t` without the QoS, which is stored and never read. -/
structure EsmBearer where
  bid : Nat
  ebi : Nat
  tft : List NetworkPkf := []
deriving DecidableEq, Repr

/-- `esm_pdn_t`: the fields that the bearers are kept by. -/
structure EsmPdn where
  is_emergency : Bool := false
  n_bearers : Int := 0
  bearer : Nat → Option EsmBearer := fun _ => none

/-- An entry of `_esm_data.pdn`. -/
structure PdnEntry where
  pid : Int := -1
  is_active : Bool := false
  data : Option EsmPdn := none

/-- `_esm_data`. -/
structure EsmData where
  n_ebrs : Int := 0
  n_pdns : Int := 0
  emergency : Bool := false
  pdn : Nat → PdnEntry := fun _ => {}

def esmMainInitialize : EsmData := {}

namespace EsmData

def setPdn (s : EsmData) (pid : Nat) (entry : PdnEntry) : EsmData :=
  { s with pdn := update s.pdn pid entry }

/-- `_pdn_connectivity_create`. An active connection stays as it is. -/
def pdnConnectivityCreate (s : EsmData) (pid : Nat) (is_emergency : Bool) : EsmData :=
  if pid < ESM_DATA_PDN_MAX then
    let entry := s.pdn pid
    if entry.is_active then s
    else
      match entry.data with
      | some pdn =>
          s.setPdn pid { entry with data := some { pdn with is_emergency := is_emergency } }
      | none =>
        { s.setPdn pid { pid := pid, is_active := false, data := some { is_emergency :=
          is_emergency } } with
          n_pdns := s.n_pdns + 1 }
  else s

end EsmData

namespace EsmPdn

/-- `pdn->bearer[bid]`, unless this is past the array. -/
def bearerAt (pdn : EsmPdn) (bid : Nat) : Option (Option EsmBearer) :=
  if bid < ESM_DATA_EPS_BEARER_MAX then some (pdn.bearer bid) else none

/-- The slot that a new bearer gets, if there is one left. -/
def freeBid (pdn : EsmPdn) (is_default : Bool) : Option Nat :=
  if is_default then if (pdn.bearer 0).isSome then none else some 0
  else (range' 1 (ESM_DATA_EPS_BEARER_MAX - 1)).find? fun bid => (pdn.bearer bid).isNone

def add (pdn : EsmPdn) (bid : Nat) (ebr : EsmBearer) : EsmPdn :=
  { pdn with n_bearers := pdn.n_bearers + 1, bearer := update pdn.bearer bid (some ebr) }

def remove (pdn : EsmPdn) (bid : Nat) : EsmPdn :=
  { pdn with n_bearers := pdn.n_bearers - 1, bearer := update pdn.bearer bid none }

end EsmPdn

/-- The bearer that is created. A template with too many packet filters is left out. -/
def newBearer (bid ebi : Nat) (tft : Option (List NetworkPkf)) : EsmBearer where
  bid := bid
  ebi := ebi
  tft := (tft.filter fun pkf => pkf.length < NET_PACKET_FILTER_MAX).getD []

def EsmData.addBearer (s : EsmData) (pid : Nat) (pdn : EsmPdn) (is_default : Bool) : EsmData :=
  { s.setPdn pid { s.pdn pid with is_active :=
    (s.pdn pid).is_active || is_default, data := some pdn } with
    n_ebrs := s.n_ebrs + 1
    emergency := s.emergency || (is_default && pdn.is_emergency) }

/-- `esm_ebr_context_create`, with the identity it returns. It stops at `pdn->bearer[0]->ebi` if the
connection has no default bearer. -/
def EsmData.esmEbrContextCreate (s : EsmData) (pid ebi : Nat) (is_default : Bool)
    (tft : Option (List NetworkPkf)) : Option (Nat × EsmData) :=
  if pid < ESM_DATA_PDN_MAX then
    let entry := s.pdn pid
    if pid ≠ entry.pid then some (ESM_EBI_UNASSIGNED, s)
    else
      match entry.data with
      | none => some (ESM_EBI_UNASSIGNED, s)
      | some pdn =>
        if s.n_ebrs > ESM_DATA_EPS_BEARER_TOTAL then some (ESM_EBI_UNASSIGNED, s)
        else
          match pdn.freeBid is_default with
          | none => some (ESM_EBI_UNASSIGNED, s)
          | some bid =>
            let pdn := pdn.add bid (newBearer bid ebi tft)
            (pdn.bearer 0).map fun ebr => (ebr.ebi, s.addBearer pid pdn is_default)
  else some (ESM_EBI_UNASSIGNED, s)

/-- The loop over the slots of a connection, for the bearer with an identity. -/
def EsmPdn.findBearer (pdn : EsmPdn) (ebi : Nat) : List Nat → Option (Option Nat)
  | [] => some none
  | bid :: bids =>
    (pdn.bearerAt bid).bind fun ebr =>
      if ebr.any (·.ebi == ebi) then some (some bid) else pdn.findBearer ebi bids

/-- The loop over the active connections. -/
def EsmData.findEbi (s : EsmData) (ebi : Nat) : List Nat → Option (Option (Nat × Nat))
  | [] => some none
  | pid :: pids =>
    match if (s.pdn pid).is_active then (s.pdn pid).data else none with
    | none => s.findEbi ebi pids
    | some pdn =>
      (pdn.findBearer ebi (List.range pdn.n_bearers.toNat)).bind fun found =>
        match found with
        | some bid => some (some (pid, bid))
        | none => s.findEbi ebi pids

/-- The slot to release: the one of a bearer identity or, without an identity, the given one. -/
def EsmData.toRelease (s : EsmData) (ebi pid bid : Nat) : Option (Option (Nat × Nat)) :=
  if ebi ≠ ESM_EBI_UNASSIGNED then s.findEbi ebi (List.range ESM_DATA_PDN_MAX)
  else if pid < ESM_DATA_PDN_MAX then
    if pid ≠ (s.pdn pid).pid ∨ (s.pdn pid).is_active = false then some none
    else
      match (s.pdn pid).data with
      | none => some none
      | some pdn => (pdn.bearerAt bid).map fun ebr => ebr.map fun _ => (pid, bid)
  else some none

/-- The loop that releases what is left of a connection, with the identities of the bearers that it
hands to `esm_ebr_set_status` and `esm_ebr_release`. Only the counter ends it, so it can leave the
array. -/
def EsmPdn.releaseDedicated : List Nat → EsmPdn → Option (EsmPdn × List Nat)
  | [], pdn => if pdn.n_bearers > 0 then none else some (pdn, [])
  | i :: is, pdn =>
    if pdn.n_bearers > 0 then
      match pdn.bearer i with
      | some ebr => (releaseDedicated is (pdn.remove i)).map fun r => (r.1, ebr.ebi :: r.2)
      | none => releaseDedicated is pdn
    else some (pdn, [])

/-- `EMMESM_ESTABLISH_CNF`, as a release sends it. -/
inductive EstablishCnf where
  | detached
  | emergencyOnly
deriving DecidableEq, Repr

/-- What `esm_ebr_context_release` returns and calls. -/
structure Released where
  ebi : Nat
  pid : Nat
  bid : Nat
  inactive : List Nat
  cnf : Option EstablishCnf
deriving DecidableEq, Repr

/-- The connection and the number of bearers after a slot is released. -/
def EsmData.releaseSlot (s : EsmData) (pdn : EsmPdn)
    (pid bid : Nat) : Option (EsmData × List Nat) :=
  let entry := s.pdn pid
  if bid = 0 then
    ((pdn.remove bid).releaseDedicated (range' 1 (ESM_DATA_EPS_BEARER_MAX - 1))).map fun r =>
      ({ s.setPdn pid { entry with is_active := false, data := some r.1 } with
          n_ebrs := s.n_ebrs - 1 - r.2.length
          emergency := s.emergency && !pdn.is_emergency }, r.2)
  else
    some ({ s.setPdn pid { entry with data := some (pdn.remove bid) } with n_ebrs := s.n_ebrs - 1 },
      [])

def EsmData.establishCnf (s : EsmData) : Option EstablishCnf :=
  if s.n_ebrs = 0 then some .detached
  else if s.emergency ∧ s.n_ebrs = 1 then some .emergencyOnly
  else none

/-- `esm_ebr_context_release`, with none inside for `ESM_EBI_UNASSIGNED`. -/
def EsmData.esmEbrContextRelease (s : EsmData)
    (ebi pid bid : Nat) : Option (Option Released × EsmData) :=
  (s.toRelease ebi pid bid).bind fun found =>
    match found with
    | none => some (none, s)
    | some (pid, bid) =>
      -- both ways to find a slot find a bearer there
      (s.pdn pid).data.bind fun pdn => (pdn.bearer bid).bind fun ebr =>
        if ebr.bid ≠ bid then some (none, s)
        else (s.releaseSlot pdn pid bid).map fun r =>
          (some ⟨ebr.ebi, pid, bid, r.2, r.1.establishCnf⟩, r.1)

/-- `esm_ebr_context_get_pid`, with none for -1. -/
def EsmData.esmEbrContextGetPid (s : EsmData) (ebi : Nat) : Option Nat :=
  (List.range ESM_DATA_PDN_MAX).find? fun pid =>
    ((s.pdn pid).data.bind fun pdn => pdn.bearer 0).any (·.ebi == ebi)

/-! ## Slots and counters -/

@[simp] theorem EsmPdn.add_self (pdn : EsmPdn) (bid : Nat) (ebr : EsmBearer) :
    (pdn.add bid ebr).bearer bid = some ebr := by
  simp [add]

theorem EsmPdn.add_of_ne (pdn : EsmPdn) {bid j : Nat} (h : j ≠ bid) (ebr : EsmBearer) :
    (pdn.add bid ebr).bearer j = pdn.bearer j :=
  update_of_ne h _ _

@[simp] theorem EsmPdn.remove_self (pdn : EsmPdn)
    (bid : Nat) : (pdn.remove bid).bearer bid = none := by
  simp [remove]

theorem EsmPdn.remove_of_ne (pdn : EsmPdn) {bid j : Nat}
    (h : j ≠ bid) : (pdn.remove bid).bearer j = pdn.bearer j :=
  update_of_ne h _ _

def EsmPdn.used (pdn : EsmPdn) : Int :=
  total ESM_DATA_EPS_BEARER_MAX (fun ebr => if ebr.isSome then 1 else 0) pdn.bearer

def PdnEntry.used (entry : PdnEntry) : Int :=
  match entry.data with
  | none => 0
  | some pdn => pdn.used

namespace EsmPdn

/-- The counter is right, every bearer knows its slot, and none is left without the default one. -/
structure Counted (pdn : EsmPdn) : Prop where
  count : pdn.n_bearers = pdn.used
  bids : ∀ bid, ∀ ebr ∈ pdn.bearer bid, bid < ESM_DATA_EPS_BEARER_MAX ∧ ebr.bid = bid
  rooted : pdn.bearer 0 = none → ∀ bid, pdn.bearer bid = none

variable {pdn : EsmPdn} {bid : Nat} {ebr : EsmBearer}

theorem used_le (pdn : EsmPdn) : pdn.used ≤ ESM_DATA_EPS_BEARER_MAX :=
  total_le pdn.bearer fun ebr => by split <;> decide

theorem used_add (hbid : bid < ESM_DATA_EPS_BEARER_MAX) (hfree : pdn.bearer bid = none) :
    (pdn.add bid ebr).used = pdn.used + 1 := by
  have h := total_update (fun ebr : Option EsmBearer =>
    if ebr.isSome then 1 else 0) pdn.bearer (some ebr) (.inl hbid)
  rw [hfree] at h
  exact h

theorem used_remove (hbid : bid < ESM_DATA_EPS_BEARER_MAX) (hused : pdn.bearer bid = some ebr) :
    (pdn.remove bid).used = pdn.used - 1 := by
  have h := total_update (fun ebr : Option EsmBearer =>
    if ebr.isSome then 1 else 0) pdn.bearer none (.inl hbid)
  rw [hused] at h
  exact h

theorem Counted.add (h : pdn.Counted) (hbid : bid < ESM_DATA_EPS_BEARER_MAX)
    (hfree : pdn.bearer bid = none) (hroot : ((pdn.add bid ebr).bearer 0).isSome)
    (hebr : ebr.bid = bid) : (pdn.add bid ebr).Counted where
  count := by
    rw [used_add hbid hfree, ← h.count]
    rfl
  bids j ebr' hj := by
    by_cases hjb : j = bid
    · subst hjb
      obtain rfl : ebr = ebr' := by simpa using hj
      exact ⟨hbid, hebr⟩
    · rw [pdn.add_of_ne hjb] at hj
      exact h.bids j ebr' hj
  rooted hnone := by
    rw [hnone] at hroot
    cases hroot

theorem Counted.remove (h : pdn.Counted) (hused : pdn.bearer bid = some ebr) (hded : bid ≠ 0) :
    (pdn.remove bid).Counted where
  count := by
    rw [used_remove (h.bids bid ebr hused).1 hused, ← h.count]
    rfl
  bids j ebr' hj := by
    by_cases hjb : j = bid
    · subst hjb
      simp at hj
    · rw [pdn.remove_of_ne hjb] at hj
      exact h.bids j ebr' hj
  rooted hnone j := by
    rw [pdn.remove_of_ne (Ne.symm hded)] at hnone
    rw [h.rooted hnone bid] at hused
    cases hused

theorem counted_of_empty (hcount : pdn.n_bearers = 0)
    (hempty : ∀ bid, pdn.bearer bid = none) : pdn.Counted where
  count := by
    rw [hcount, used, total_eq_zero]
    intro i _
    rw [hempty]
    rfl
  bids bid ebr hebr := by
    rw [hempty] at hebr
    cases hebr
  rooted _ := hempty

theorem Counted.remove_default (h : pdn.Counted)
    (hebr : pdn.bearer 0 = some ebr) : (pdn.remove 0).n_bearers =
      (range' 1 (ESM_DATA_EPS_BEARER_MAX - 1)).countP fun i =>
        ((pdn.remove 0).bearer i).isSome := by
  have hcount := h.count
  simp only [used, total, ESM_DATA_EPS_BEARER_MAX, Finset.sum_range_succ, Finset.sum_range_zero,
    hebr, isSome_some, if_true] at hcount
  simp only [ESM_DATA_EPS_BEARER_MAX, range', countP_cons, countP_nil,
    pdn.remove_of_ne (show 1 ≠ 0 by decide), pdn.remove_of_ne (show 2 ≠ 0 by decide),
    pdn.remove_of_ne (show 3 ≠ 0 by decide)]
  show pdn.n_bearers - 1 = _
  have hcast : ∀ b : Bool, ((if b then 1 else 0 : Nat) : Int) = if b then 1 else 0 := by decide
  simp only [Int.natCast_add, hcast]
  omega

theorem Counted.empty_of_none (h : pdn.Counted) {pdn' : EsmPdn} (hzero : pdn'.bearer 0 = none)
    (hin : ∀ i ∈ range' 1 (ESM_DATA_EPS_BEARER_MAX - 1), pdn'.bearer i = none)
    (hout : ∀ i ∉ range' 1 (ESM_DATA_EPS_BEARER_MAX - 1), i ≠ 0 → pdn'.bearer i = pdn.bearer i)
    (i : Nat) : pdn'.bearer i = none := by
  by_cases hi : i ∈ range' 1 (ESM_DATA_EPS_BEARER_MAX - 1)
  · exact hin i hi
  by_cases hi0 : i = 0
  · rw [hi0, hzero]
  · rw [hout i hi hi0, eq_none_iff_forall_not_mem]
    intro ebr hebr
    have hlt := (h.bids i ebr hebr).1
    rw [mem_range'_1] at hi
    omega

theorem freeBid_spec {is_default : Bool} (h : pdn.freeBid is_default = some bid) :
    bid < ESM_DATA_EPS_BEARER_MAX ∧ pdn.bearer bid = none ∧
      if is_default then bid = 0 else 1 ≤ bid ∧ ∀ j, 1 ≤ j → j < bid → (pdn.bearer j).isSome := by
  unfold freeBid at h
  cases is_default with
  | true =>
    simp only [if_true] at h ⊢
    split at h
    · cases h
    · cases h
      simp_all [ESM_DATA_EPS_BEARER_MAX]
  | false =>
    have hfree := find?_some h
    have hmem := mem_of_find?_eq_some h
    simp only [mem_range'_1, ESM_DATA_EPS_BEARER_MAX] at hmem
    refine ⟨by simp only [ESM_DATA_EPS_BEARER_MAX]; omega, by simpa using hfree, hmem.1,
      fun j hj hlt => ?_⟩
    have := find?_range'_eq_some.1 h
    simpa using this.2.2 j hj hlt

theorem findBearer_eq (ebi : Nat) {bids : List Nat}
    (h : ∀ bid ∈ bids, bid < ESM_DATA_EPS_BEARER_MAX) :
    pdn.findBearer ebi bids = some (bids.find? fun bid => (pdn.bearer bid).any (·.ebi == ebi)) := by
  induction bids with
  | nil => rfl
  | cons bid bids ih =>
    rw [forall_mem_cons] at h
    rw [findBearer, bearerAt, if_pos h.1, bind_some, find?_cons, ih h.2]
    cases (pdn.bearer bid).any (·.ebi == ebi) <;> rfl

theorem releaseDedicated_spec {is : List Nat} (hnodup : is.Nodup) (pdn : EsmPdn)
    (hcount : pdn.n_bearers = is.countP fun i => (pdn.bearer i).isSome) :
    ∃ r, pdn.releaseDedicated is = some r ∧ r.1.n_bearers = 0 ∧ (r.2.length : Int) = pdn.n_bearers ∧
      (∀ i ∈ is, r.1.bearer i = none) ∧ ∀ i ∉ is, r.1.bearer i = pdn.bearer i := by
  induction is generalizing pdn with
  | nil =>
    have hzero : pdn.n_bearers = 0 := hcount
    exact ⟨(pdn, []), by simp [releaseDedicated, hzero], hzero, by simp [hzero], nofun,
      fun _ _ => rfl⟩
  | cons i is ih =>
    obtain ⟨hi, hnodup⟩ := nodup_cons.1 hnodup
    rw [countP_cons] at hcount
    rw [releaseDedicated]
    by_cases hpos : pdn.n_bearers > 0
    · rw [if_pos hpos]
      cases hebr : pdn.bearer i with
      | none =>
        obtain ⟨r, hr, hzero, hlen, hin, hout⟩ := ih hnodup pdn (by simpa [hebr] using hcount)
        refine ⟨r, hr, hzero, hlen, ?_, fun j hj => hout j fun h => hj (mem_cons_of_mem i h)⟩
        rw [forall_mem_cons]
        exact ⟨by rw [hout i hi, hebr], hin⟩
      | some ebr =>
        have hrest : is.countP (fun j => ((pdn.remove i).bearer j).isSome) =
            is.countP fun j => (pdn.bearer j).isSome := by
          apply countP_congr
          intro j hj
          rw [pdn.remove_of_ne (ne_of_mem_of_not_mem hj hi)]
        obtain ⟨r, hr, hzero, hlen, hin, hout⟩ := ih hnodup (pdn.remove i) (by
          rw [hrest]
          simp only [remove, hcount, hebr, isSome_some, if_true]
          omega)
        refine ⟨(r.1, ebr.ebi :: r.2), by simp [hr], hzero, ?_, ?_, fun j hj => ?_⟩
        · simp only [remove] at hlen
          simp only [length_cons]
          omega
        · rw [forall_mem_cons]
          exact ⟨by rw [hout i hi, pdn.remove_self], hin⟩
        · rw [mem_cons, not_or] at hj
          rw [hout j hj.2, pdn.remove_of_ne hj.1]
    · rw [if_neg hpos]
      -- nothing is counted, so nothing is there
      rw [← countP_cons] at hcount
      have hzero : pdn.n_bearers = 0 := by omega
      have hnone : ∀ j ∈ i :: is, pdn.bearer j = none := by
        have hnot : (i :: is).countP (fun i => (pdn.bearer i).isSome) = 0 := by omega
        simpa [countP_eq_zero] using hnot
      exact ⟨(pdn, []), rfl, hzero, hzero.symm, hnone, fun _ _ => rfl⟩

end EsmPdn

end MacRlcSplit.Nas
