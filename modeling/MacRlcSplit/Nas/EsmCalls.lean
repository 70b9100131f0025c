-- What a creation and a release of an EPS bearer context do to the bearers of
-- all connections, and what a search that is bounded by the counter finds.
import MacRlcSplit.Nas.Esm

namespace MacRlcSplit.Nas

open Lib Function List Option

namespace EsmData

def bearer (s : EsmData) (pid bid : Nat) : Option EsmBearer :=
  (s.pdn pid).data.bind fun pdn => pdn.bearer bid

/-- The total is right, and every connection is counted and active as long as it has its default
bearer. -/
structure Counted (s : EsmData) : Prop where
  n_ebrs : s.n_ebrs = total ESM_DATA_PDN_MAX PdnEntry.used s.pdn
  entry : ∀ pid, ∀ pdn ∈ (s.pdn pid).data, pid < ESM_DATA_PDN_MAX ∧ (s.pdn pid).pid = pid ∧
    pdn.Counted ∧ (s.pdn pid).is_active = (pdn.bearer 0).isSome

variable {s s' : EsmData} {pid bid ebi : Nat} {pdn : EsmPdn} {ebr : EsmBearer}

theorem bearer_eq (hdata : (s.pdn pid).data = some pdn)
    (bid : Nat) : s.bearer pid bid = pdn.bearer bid := by
  rw [bearer, hdata, bind_some]

theorem bearer_eq_some : s.bearer pid bid = some ebr ↔
    ∃ pdn, (s.pdn pid).data = some pdn ∧ pdn.bearer bid = some ebr :=
  bind_eq_some_iff

theorem counted_init : esmMainInitialize.Counted where
  n_ebrs := (total_eq_zero fun _ _ => rfl).symm
  entry _ _ h := by cases h

theorem Counted.set (h : s.Counted) {entry : PdnEntry} (hset : s'.pdn = update s.pdn pid entry)
    (hpid : pid < ESM_DATA_PDN_MAX) (hid : entry.pid = pid) (hdata : entry.data = some pdn)
    (hpdn : pdn.Counted) (hactive : entry.is_active = (pdn.bearer 0).isSome)
    (hn : s'.n_ebrs = s.n_ebrs + (pdn.used - (s.pdn pid).used)) : s'.Counted where
  n_ebrs := by
    have hused : entry.used = pdn.used := by rw [PdnEntry.used, hdata]
    rw [hset, total_update _ _ _ (.inl hpid), hused, ← h.n_ebrs, hn]
  entry pid' pdn' hpdn' := by
    by_cases heq : pid' = pid
    · subst heq
      rw [hset, update_self] at hpdn' ⊢
      obtain rfl : pdn = pdn' := some.inj (hdata.symm.trans hpdn')
      exact ⟨hpid, hid, hpdn, hactive⟩
    · rw [hset, update_of_ne heq] at hpdn' ⊢
      exact h.entry pid' pdn' hpdn'

theorem used_eq (hdata : (s.pdn pid).data = some pdn) : (s.pdn pid).used = pdn.used := by
  rw [PdnEntry.used, hdata]

theorem bearer_of_set {entry : PdnEntry} (hdata : entry.data = some pdn)
    (hset : s'.pdn = update s.pdn pid entry) (pid' bid' : Nat) :
    s'.bearer pid' bid' = if pid' = pid then pdn.bearer bid' else s.bearer pid' bid' := by
  unfold bearer
  by_cases h : pid' = pid
  · rw [hset, h, update_self, hdata, if_pos rfl, bind_some]
  · rw [hset, update_of_ne h, if_neg h]

/-! ## Connections -/

theorem Counted.define (h : s.Counted) (pid : Nat) (is_emergency : Bool) :
    (s.pdnConnectivityCreate pid is_emergency).Counted ∧
      (s.pdnConnectivityCreate pid is_emergency).n_ebrs = s.n_ebrs ∧
      (s.pdnConnectivityCreate pid is_emergency).bearer = s.bearer := by
  unfold pdnConnectivityCreate
  by_cases hpid : pid < ESM_DATA_PDN_MAX
  · rw [if_pos hpid]
    cases hactive : (s.pdn pid).is_active with
    | true => simpa [hactive] using h
    | false =>
      simp only [hactive, Bool.false_eq_true, if_false]
      cases hdata : (s.pdn pid).data with
      | none =>
        have hempty : EsmPdn.Counted { is_emergency := is_emergency } :=
          EsmPdn.counted_of_empty rfl fun _ => rfl
        have hused : (s.pdn pid).used = 0 := by rw [PdnEntry.used, hdata]
        refine ⟨h.set rfl hpid rfl rfl hempty rfl ?_, rfl, funext fun pid' => funext fun bid' => ?_⟩
        · rw [hused]
          exact (add_zero _).symm
        rw [bearer_of_set rfl rfl]
        split
        · rename_i heq
          rw [heq, bearer, hdata]
          rfl
        · rfl
      | some pdn =>
        obtain ⟨-, hid, hpdn, hact⟩ := h.entry pid pdn hdata
        refine ⟨h.set rfl hpid hid rfl ⟨hpdn.count, hpdn.bids, hpdn.rooted⟩ ?_ ?_, rfl,
          funext fun pid' => funext fun bid' => ?_⟩
        · rw [← hact, hactive]
        · rw [used_eq hdata]
          simp [setPdn, EsmPdn.used]
        · rw [bearer_of_set rfl rfl]
          split
          · rename_i heq
            rw [heq, bearer_eq hdata]
          · rfl
  · rw [if_neg hpid]
    exact ⟨h, rfl, rfl⟩

/-! ## Creation -/

variable {is_default : Bool} {tft : Option (List NetworkPkf)}

theorem create_cases {r : Option (Nat × EsmData)}
    (h : s.esmEbrContextCreate pid ebi is_default tft = r) : r = some (ESM_EBI_UNASSIGNED, s) ∨
      ∃ pdn bid, pid < ESM_DATA_PDN_MAX ∧ (s.pdn pid).pid = pid ∧ (s.pdn pid).data = some pdn ∧
        s.n_ebrs ≤ ESM_DATA_EPS_BEARER_TOTAL ∧ pdn.freeBid is_default = some bid ∧
        r = ((pdn.add bid (newBearer bid ebi tft)).bearer 0).map fun ebr =>
          (ebr.ebi, s.addBearer pid (pdn.add bid (newBearer bid ebi tft)) is_default) := by
  unfold esmEbrContextCreate at h
  split at h
  · rename_i hpid
    simp only at h
    split at h
    · exact .inl h.symm
    rename_i hid
    split at h
    · exact .inl h.symm
    rename_i pdn hdata
    split at h
    · exact .inl h.symm
    · rename_i hn
      split at h
      · exact .inl h.symm
      · rename_i bid hbid
        exact .inr ⟨pdn, bid, hpid, (not_not.1 hid).symm, hdata, not_lt.1 hn, hbid, h.symm⟩
  · exact .inl h.symm

theorem create_survives (h : is_default ∨ ∀ pdn ∈ (s.pdn pid).data, (pdn.bearer 0).isSome) :
    ∃ r, s.esmEbrContextCreate pid ebi is_default tft = some r := by
  generalize hr : s.esmEbrContextCreate pid ebi is_default tft = r
  obtain rfl | ⟨pdn, bid, -, -, hdata, -, hbid, rfl⟩ := create_cases hr
  · exact ⟨_, rfl⟩
  have hroot : ((pdn.add bid (newBearer bid ebi tft)).bearer 0).isSome := by
    by_cases hzero : bid = 0
    · subst hzero
      rfl
    rw [pdn.add_of_ne (Ne.symm hzero)]
    rcases h with hdef | hroot
    · have := (EsmPdn.freeBid_spec hbid).2.2
      rw [if_pos hdef] at this
      exact absurd this hzero
    · exact hroot pdn hdata
  obtain ⟨ebr, hebr⟩ := isSome_iff_exists.1 hroot
  rw [hebr]
  exact ⟨_, rfl⟩

theorem Counted.create (h : s.Counted) {r : Nat}
    (hr : s.esmEbrContextCreate pid ebi is_default tft = some (r, s')) :
    (r = ESM_EBI_UNASSIGNED ∧ s' = s) ∨
        (s'.Counted ∧ s'.n_ebrs = s.n_ebrs + 1 ∧ s.n_ebrs ≤ ESM_DATA_EPS_BEARER_TOTAL ∧
        ∃ bid, s.bearer pid bid = none ∧
          (∀ j < bid, (s.bearer pid j).isSome) ∧ (bid = 0 → ∀ j, s.bearer pid j = none) ∧
          ∀ pid' bid', s'.bearer pid' bid' =
            if pid' = pid ∧ bid' = bid then some (newBearer bid ebi tft) else s.bearer pid'
              bid') := by
  obtain hno | ⟨pdn, bid, hpid, hid, hdata, hn, hbid, hmap⟩ := create_cases hr
  · cases hno
    exact .inl ⟨rfl, rfl⟩
  obtain ⟨first, hfirst, heq⟩ := map_eq_some_iff.1 hmap.symm
  cases heq
  have hroot := isSome_of_eq_some hfirst
  obtain ⟨-, -, hpdn, hactive⟩ := h.entry pid pdn hdata
  obtain ⟨hlt, hfree, hwhich⟩ := EsmPdn.freeBid_spec hbid
  have hadd : (pdn.add bid (newBearer bid ebi tft)).Counted := hpdn.add hlt hfree hroot rfl
  -- a dedicated bearer is not in the slot of the default one
  have hdedicated : is_default = false → 1 ≤ bid ∧ (pdn.bearer 0).isSome := by
    rintro rfl
    have hpos : 1 ≤ bid := hwhich.1
    rw [pdn.add_of_ne (by omega)] at hroot
    exact ⟨hpos, hroot⟩
  refine .inr ⟨h.set rfl hpid hid rfl hadd ?_ ?_, rfl, hn, bid, ?_, ?_, ?_, ?_⟩
  · rw [hroot, hactive]
    cases is_default with
    | true => exact Bool.or_true _
    | false => simp [(hdedicated rfl).2]
  · rw [used_eq hdata, EsmPdn.used_add hlt hfree]
    show s.n_ebrs + 1 = _
    omega
  · rw [bearer_eq hdata, hfree]
  · intro j hj
    rw [bearer_eq hdata]
    cases is_default with
    | true =>
      have hzero : bid = 0 := hwhich
      omega
    | false =>
      by_cases hzero : j = 0
      · rw [hzero]
        exact (hdedicated rfl).2
      · exact hwhich.2 j (by omega) hj
  · intro hzero j
    subst hzero
    rw [bearer_eq hdata, hpdn.rooted hfree]
  · intro pid' bid'
    rw [bearer_of_set rfl rfl]
    by_cases heq : pid' = pid
    · rw [if_pos heq, heq, bearer_eq hdata]
      by_cases hb : bid' = bid
      · rw [if_pos ⟨rfl, hb⟩, hb, pdn.add_self]
      · rw [if_neg fun h => hb h.2, pdn.add_of_ne hb]
    · rw [if_neg heq, if_neg fun h => heq h.1]

/-! ## Release -/

/-- Where the loops over one connection find an identity. -/
def slotOf (s : EsmData) (ebi pid : Nat) : Option (Nat × Nat) :=
  (if (s.pdn pid).is_active then (s.pdn pid).data else none).bind fun pdn =>
    ((List.range pdn.n_bearers.toNat).find? fun bid => (pdn.bearer bid).any (·.ebi == ebi)).map
      (pid, ·)

theorem Counted.findEbi_eq (h : s.Counted) (ebi : Nat) (pids : List Nat) :
    s.findEbi ebi pids = some (pids.findSome? (s.slotOf ebi)) := by
  induction pids with
  | nil => rfl
  | cons pid pids ih =>
    rw [findEbi, findSome?_cons, slotOf, ih]
    cases hpdn : if (s.pdn pid).is_active then (s.pdn pid).data else none with
    | none => rfl
    | some pdn =>
      have hdata : (s.pdn pid).data = some pdn := by
        split at hpdn
        · exact hpdn
        · cases hpdn
      -- the counter keeps the loop inside the array
      have hin : ∀ bid ∈ List.range pdn.n_bearers.toNat, bid < ESM_DATA_EPS_BEARER_MAX := by
        intro bid hbid
        have hle := pdn.used_le
        rw [← (h.entry pid pdn hdata).2.2.1.count] at hle
        rw [mem_range] at hbid
        omega
      simp only [EsmPdn.findBearer_eq ebi hin, bind_some]
      cases (List.range pdn.n_bearers.toNat).find? fun bid =>
        (pdn.bearer bid).any (·.ebi == ebi) <;> rfl

theorem slotOf_spec {p : Nat × Nat} (h : s.slotOf ebi pid = some p) :
    p.1 = pid ∧ ∃ ebr, s.bearer p.1 p.2 = some ebr ∧ ebr.ebi = ebi := by
  obtain ⟨pdn, hpdn, h⟩ := bind_eq_some_iff.1 h
  obtain ⟨bid, hbid, rfl⟩ := map_eq_some_iff.1 h
  have hfound := find?_some hbid
  obtain ⟨ebr, hebr, heq⟩ := (Option.any_eq_true _ _).1 hfound
  refine ⟨rfl, ebr, bearer_eq_some.2 ⟨pdn, ?_, hebr⟩, eq_of_beq heq⟩
  split at hpdn
  · exact hpdn
  · cases hpdn

/-- Without an identity, the slot may be past the array. -/
theorem Counted.toRelease_cases (h : s.Counted) {r : Option (Option (Nat × Nat))}
    (hr : s.toRelease ebi pid bid = r) :
    (r = none ∧ ebi = ESM_EBI_UNASSIGNED ∧ ¬ bid < ESM_DATA_EPS_BEARER_MAX) ∨ r = some none ∨
      ∃ p ebr, r = some (some p) ∧ s.bearer p.1 p.2 = some ebr ∧
        if ebi ≠ ESM_EBI_UNASSIGNED then ebr.ebi = ebi else p = (pid, bid) := by
  unfold toRelease at hr
  by_cases hebi : ebi ≠ ESM_EBI_UNASSIGNED
  · rw [if_pos hebi, h.findEbi_eq] at hr
    cases hfound : (List.range ESM_DATA_PDN_MAX).findSome? (s.slotOf ebi) with
    | none => exact .inr (.inl (hr.symm.trans (congrArg some hfound)))
    | some p =>
      obtain ⟨pid', -, hslot⟩ := exists_of_findSome?_eq_some hfound
      obtain ⟨ebr, hebr, heq⟩ := (slotOf_spec hslot).2
      exact .inr (.inr ⟨p, ebr, hr.symm.trans (congrArg some hfound), hebr, by rwa [if_pos hebi]⟩)
  · rw [if_neg hebi] at hr
    split at hr
    · split at hr
      · exact .inr (.inl hr.symm)
      split at hr
      · exact .inr (.inl hr.symm)
      rename_i pdn hdata
      unfold EsmPdn.bearerAt at hr
      split at hr
      · rw [map_some] at hr
        cases hebr : pdn.bearer bid with
        | none => exact .inr (.inl (by rw [← hr, hebr]; rfl))
        | some ebr =>
          exact .inr (.inr ⟨_, ebr, by rw [← hr, hebr]; rfl,
            (bearer_eq hdata bid).trans hebr, by rw [if_neg hebi]⟩)
      · rename_i hout
        exact .inl ⟨hr.symm, not_not.1 hebi, hout⟩
    · exact .inr (.inl hr.symm)

/-- What the release of a slot does: without the default bearer the whole connection goes. -/
theorem Counted.releaseSlot (h : s.Counted) (hdata : (s.pdn pid).data = some pdn)
    (hebr : pdn.bearer bid = some ebr) :
    ∃ r, s.releaseSlot pdn pid bid = some r ∧ r.1.Counted ∧ r.1.n_ebrs < s.n_ebrs ∧
    ∀ pid' bid', r.1.bearer pid' bid' =
        if pid' = pid ∧ (bid = 0 ∨ bid' = bid) then none else s.bearer pid' bid' := by
  obtain ⟨hpid, hid, hpdn, hactive⟩ := h.entry pid pdn hdata
  obtain ⟨hlt, -⟩ := hpdn.bids bid ebr hebr
  unfold EsmData.releaseSlot
  by_cases hzero : bid = 0
  · subst hzero
    obtain ⟨r, hr, hnone, hlen, hin, hout⟩ :=
      EsmPdn.releaseDedicated_spec nodup_range' (pdn.remove 0) (hpdn.remove_default hebr)
    have hempty : ∀ i, r.1.bearer i = none := by
      apply hpdn.empty_of_none _ hin
      · intro i hi hne
        rw [hout i hi, pdn.remove_of_ne hne]
      · rw [hout 0 (by simp), pdn.remove_self]
    have hcounted := EsmPdn.counted_of_empty hnone hempty
    have hleft : (pdn.remove 0).n_bearers = pdn.n_bearers - 1 := rfl
    simp only [if_true, hr, map_some]
    refine ⟨_, rfl, h.set rfl hpid hid rfl hcounted ?_ ?_, ?_, fun pid' bid' => ?_⟩
    · rw [hempty 0]
      rfl
    · rw [used_eq hdata, ← hcounted.count, ← hpdn.count]
      show s.n_ebrs - 1 - _ = _
      omega
    · show s.n_ebrs - 1 - _ < _
      omega
    · rw [bearer_of_set rfl rfl]
      by_cases heq : pid' = pid
      · rw [if_pos heq, if_pos ⟨heq, .inl trivial⟩, hempty]
      · rw [if_neg heq, if_neg fun h => heq h.1]
  · simp only [if_neg hzero]
    have hrem := hpdn.remove hebr hzero
    refine ⟨_, rfl, h.set rfl hpid hid rfl hrem ?_ ?_, ?_, fun pid' bid' => ?_⟩
    · rw [pdn.remove_of_ne (Ne.symm hzero)]
      exact hactive
    · rw [used_eq hdata, EsmPdn.used_remove hlt hebr]
      show s.n_ebrs - 1 = _
      omega
    · show s.n_ebrs - 1 < _
      omega
    · rw [bearer_of_set rfl rfl]
      by_cases heq : pid' = pid
      · rw [if_pos heq, heq, bearer_eq hdata]
        by_cases hb : bid' = bid
        · rw [if_pos ⟨rfl, .inr hb⟩, hb, pdn.remove_self]
        · rw [if_neg fun h => h.2.elim hzero hb, pdn.remove_of_ne hb]
      · rw [if_neg heq, if_neg fun h => heq h.1]

theorem Counted.release_cases (h : s.Counted) {r : Option (Option Released × EsmData)}
    (hr : s.esmEbrContextRelease ebi pid bid = r) :
    (r = none ∧ ebi = ESM_EBI_UNASSIGNED ∧ ¬ bid < ESM_DATA_EPS_BEARER_MAX) ∨
      (r = some (none, s) ∧ s.toRelease ebi pid bid = some none) ∨
      ∃ rel ebr s', r = some (some rel, s') ∧ s.bearer rel.pid rel.bid = some ebr ∧
        rel.ebi = ebr.ebi ∧
        (if ebi ≠ ESM_EBI_UNASSIGNED then ebr.ebi = ebi else (rel.pid, rel.bid) = (pid, bid)) ∧
        s'.Counted ∧ s'.n_ebrs < s.n_ebrs ∧
        ∀ pid' bid', s'.bearer pid' bid' =
          if pid' = rel.pid ∧ (rel.bid = 0 ∨ bid' = rel.bid) then none else s.bearer pid' bid' := by
  unfold esmEbrContextRelease at hr
  obtain ⟨hfound, hout⟩ | hfound | ⟨p, ebr, hfound, hebr, hwhich⟩ := h.toRelease_cases rfl
  · rw [hfound] at hr
    exact .inl ⟨hr.symm, hout⟩
  · rw [hfound] at hr
    exact .inr (.inl ⟨hr.symm, hfound⟩)
  · obtain ⟨pdn, hdata, hslot⟩ := bearer_eq_some.1 hebr
    have hbid := ((h.entry p.1 pdn hdata).2.2.1.bids p.2 ebr hslot).2
    obtain ⟨t, ht, hcounted, hn, hbearer⟩ := h.releaseSlot hdata hslot
    simp only [hfound, hdata, bind_some, hslot, hbid, ne_eq, not_true_eq_false, if_false, ht,
      map_some] at hr
    exact .inr (.inr ⟨_, ebr, _, hr.symm, hebr, rfl, hwhich, hcounted, hn, hbearer⟩)

theorem Counted.getPid_found (h : s.Counted) (hebr : s.bearer pid 0 = some ebr) :
    ∃ pid', s.esmEbrContextGetPid ebr.ebi = some pid' ∧
    (s.bearer pid' 0).any (·.ebi == ebr.ebi) = true := by
  obtain ⟨pdn, hdata, -⟩ := bearer_eq_some.1 hebr
  have hfound : (s.esmEbrContextGetPid ebr.ebi).isSome := by
    rw [esmEbrContextGetPid, find?_isSome]
    refine ⟨pid, mem_range.2 (h.entry pid pdn hdata).1, ?_⟩
    show (s.bearer pid 0).any _
    simp [hebr]
  obtain ⟨pid', hpid'⟩ := isSome_iff_exists.1 hfound
  have hfirst := find?_some hpid'
  exact ⟨pid', hpid', hfirst⟩

/-! ## Slots in front -/

/-- The slots in use come before the free ones. -/
def Packed (s : EsmData) : Prop := ∀ pid bid, (s.bearer pid (bid + 1)).isSome = true →
    (s.bearer pid bid).isSome = true

theorem Counted.slotOf_isSome (h : s.Counted) (hpacked : s.Packed)
    (hebr : s.bearer pid bid = some ebr) : (s.slotOf ebr.ebi pid).isSome := by
  obtain ⟨pdn, hdata, hslot⟩ := bearer_eq_some.1 hebr
  obtain ⟨-, -, hpdn, hactive⟩ := h.entry pid pdn hdata
  have hroot : (pdn.bearer 0).isSome := by
    by_contra hnone
    rw [hpdn.rooted (by simpa using hnone)] at hslot
    cases hslot
  have hfront : ∀ i, i + 1 < ESM_DATA_EPS_BEARER_MAX → (pdn.bearer (i + 1)).isSome →
      (pdn.bearer i).isSome := by
    intro i _ hi
    have := hpacked pid i
    rw [bearer_eq hdata, bearer_eq hdata] at this
    exact this hi
  obtain ⟨k, -, hk, hiff⟩ := total_front ESM_DATA_EPS_BEARER_MAX hfront
  have hlt : bid < k := (hiff bid (hpdn.bids bid ebr hslot).1).1 (by rw [hslot]; rfl)
  have hn : pdn.n_bearers = k := hpdn.count.trans hk
  rw [slotOf, hactive, hroot, if_pos rfl, hdata, bind_some, isSome_map, find?_isSome]
  exact ⟨bid, mem_range.2 (by omega), by simp [hslot]⟩

theorem Counted.release_found (h : s.Counted) (hpacked : s.Packed)
    (hebr : s.bearer pid bid = some ebr) (hebi : ebr.ebi ≠ ESM_EBI_UNASSIGNED) (pid' bid' : Nat) :
    ∃ rel s', s.esmEbrContextRelease ebr.ebi pid' bid' = some (some rel, s') ∧
    rel.ebi = ebr.ebi := by
  generalize hr : s.esmEbrContextRelease ebr.ebi pid' bid' = r
  rcases h.release_cases hr with ⟨-, hnone, -⟩ | ⟨-, hnone⟩ | ⟨rel, ebr', s', rfl, -, hrel,
    hwhich, -⟩
  · exact absurd hnone hebi
  · rw [toRelease, if_pos hebi, h.findEbi_eq, some.injEq, findSome?_eq_none_iff] at hnone
    obtain ⟨pdn, hdata, -⟩ := bearer_eq_some.1 hebr
    have hslot := h.slotOf_isSome hpacked hebr
    rw [hnone pid (mem_range.2 (h.entry pid pdn hdata).1)] at hslot
    cases hslot
  · rw [if_pos hebi] at hwhich
    exact ⟨rel, s', rfl, hrel.trans hwhich⟩

end EsmData

end MacRlcSplit.Nas
