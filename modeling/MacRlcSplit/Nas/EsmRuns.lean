-- Runs of creations and releases of EPS bearer contexts: the counters agree
-- with the slots, and as long as the slots of a connection are used in order
-- every bearer is found again.
import MacRlcSplit.Nas.EsmCalls

namespace MacRlcSplit.Nas

open Lib

/-! ## Runs -/

inductive EsmEvent where
  | define (pid : Nat) (is_emergency : Bool)
  | create (pid ebi : Nat) (is_default : Bool) (tft : Option (List NetworkPkf))
  | release (ebi pid bid : Nat)

def esmStep (s : EsmData) : EsmEvent → Option EsmData
  | .define pid is_emergency => some (s.pdnConnectivityCreate pid is_emergency)
  | .create pid ebi is_default tft => (s.esmEbrContextCreate pid ebi is_default tft).map Prod.snd
  | .release ebi pid bid => (s.esmEbrContextRelease ebi pid bid).map Prod.snd

/-- A call for a slot, by the identity of its bearer or by its place. -/
def Names (s : EsmData) (ebi pid bid pid' bid' : Nat) : Prop :=
  if ebi = ESM_EBI_UNASSIGNED then pid' = pid ∧ bid' =
    bid else (s.bearer pid' bid').any (·.ebi == ebi) = true

instance (s : EsmData) (ebi pid bid pid' bid' : Nat) :
    Decidable (Names s ebi pid bid pid' bid') := by
  unfold Names
  infer_instance

/-- There is room for one more bearer, a dedicated one comes after the default one, and of the
dedicated bearers of a connection only the last one is released. -/
def Orderly (s : EsmData) : EsmEvent → Prop
  | .define _ _ => True
  | .create pid ebi is_default _ =>
    ebi ≠ ESM_EBI_UNASSIGNED ∧ s.n_ebrs < ESM_DATA_EPS_BEARER_TOTAL ∧
      (is_default = true ∨ ∀ pdn ∈ (s.pdn pid).data, (pdn.bearer 0).isSome = true)
  | .release ebi pid bid =>
    (ebi ≠ ESM_EBI_UNASSIGNED ∨ bid < ESM_DATA_EPS_BEARER_MAX) ∧
      ∀ pid' < ESM_DATA_PDN_MAX, ∀ bid' < ESM_DATA_EPS_BEARER_MAX, Names s ebi pid bid pid' bid' →
        bid' ≠ 0 → (s.bearer pid' (bid' + 1)).isSome = false

instance (s : EsmData) (e : EsmEvent) : Decidable (Orderly s e) := by
  cases e <;> unfold Orderly <;> infer_instance

/-- What the steps of an orderly run keep. -/
structure EsmData.Inv (s : EsmData) : Prop where
  counted : s.Counted
  packed : s.Packed
  named : ∀ pid bid, ∀ ebr ∈ s.bearer pid bid, ebr.ebi ≠ ESM_EBI_UNASSIGNED
  bound : s.n_ebrs ≤ ESM_DATA_EPS_BEARER_TOTAL

variable {s s' : EsmData}

theorem inv_init : esmMainInitialize.Inv where
  counted := EsmData.counted_init
  packed pid bid h := by cases h
  named pid bid ebr h := by cases h
  bound := by decide

theorem EsmData.Inv.create (h : s.Inv) {pid ebi r : Nat} {is_default : Bool}
    {tft : Option (List NetworkPkf)} (hebi : ebi ≠ ESM_EBI_UNASSIGNED)
    (hroom : s.n_ebrs < ESM_DATA_EPS_BEARER_TOTAL)
    (hr : s.esmEbrContextCreate pid ebi is_default tft = some (r, s')) : s'.Inv := by
  rcases h.counted.create hr with ⟨-, rfl⟩ | ⟨hcounted, hn, -, bid, hfree, hbelow, hfirst, hbearer⟩
  · exact h
  refine ⟨hcounted, fun pid' bid' hnext => ?_, fun pid' bid' ebr hebr => ?_, by omega⟩
  · rw [hbearer] at hnext ⊢
    by_cases heq : pid' = pid ∧ bid' = bid
    · rw [if_pos heq]
      rfl
    rw [if_neg heq]
    split at hnext
    · -- the slot before the new one
      rename_i hnew
      rw [hnew.1]
      exact hbelow bid' (by omega)
    · exact h.packed pid' bid' hnext
  · rw [hbearer] at hebr
    split at hebr
    · cases hebr
      exact hebi
    · exact h.named pid' bid' ebr hebr

theorem EsmData.Inv.release (h : s.Inv) {ebi pid bid : Nat} {r : Option Released}
    (hlast : ∀ pid' < ESM_DATA_PDN_MAX, ∀ bid' < ESM_DATA_EPS_BEARER_MAX,
      Names s ebi pid bid pid' bid' → bid' ≠ 0 → (s.bearer pid' (bid' + 1)).isSome = false)
    (hr : s.esmEbrContextRelease ebi pid bid = some (r, s')) : s'.Inv := by
  rcases h.counted.release_cases hr with ⟨hnone, -⟩ | ⟨hsame, -⟩ | ⟨rel, ebr, t, heq, hebr, -,
    hwhich, hcounted, hn, hbearer⟩
  · cases hnone
  · cases hsame
    exact h
  cases heq
  have hbound := h.bound
  obtain ⟨pdn, hdata, hslot⟩ := EsmData.bearer_eq_some.1 hebr
  obtain ⟨hpid, -, hpdn, -⟩ := h.counted.entry rel.pid pdn hdata
  have hnames : Names s ebi pid bid rel.pid rel.bid := by
    unfold Names
    by_cases hebi : ebi = ESM_EBI_UNASSIGNED
    · rw [if_neg (not_not.2 hebi)] at hwhich
      rw [if_pos hebi]
      exact Prod.mk.inj hwhich
    · rw [if_pos hebi] at hwhich
      rw [if_neg hebi, hebr]
      simpa using hwhich
  have hend := hlast rel.pid hpid rel.bid (hpdn.bids rel.bid ebr hslot).1 hnames
  refine ⟨hcounted, fun pid' bid' hnext => ?_, fun pid' bid' ebr' hebr' => ?_, by omega⟩
  · rw [hbearer] at hnext ⊢
    split at hnext
    · cases hnext
    rename_i hkept
    rw [if_neg]
    · exact h.packed pid' bid' hnext
    · -- otherwise the slot after the released one would be in use
      rintro ⟨rfl, hzero | rfl⟩
      · exact hkept ⟨rfl, .inl hzero⟩
      · rw [hend fun hzero => hkept ⟨rfl, .inl hzero⟩] at hnext
        cases hnext
  · rw [hbearer] at hebr'
    split at hebr'
    · cases hebr'
    · exact h.named pid' bid' ebr' hebr'

/-- An orderly call goes through, and the counters still agree with the contexts. -/
theorem EsmData.Inv.step (h : s.Inv) (e : EsmEvent)
    (horderly : Orderly s e) : ∃ t, esmStep s e = some t ∧ t.Inv := by
  cases e with
  | define pid is_emergency =>
    obtain ⟨hcounted, hn, hbearer⟩ := h.counted.define pid is_emergency
    refine ⟨_, rfl, hcounted, ?_, ?_, ?_⟩
    · unfold EsmData.Packed
      rw [hbearer]
      exact h.packed
    · rw [hbearer]
      exact h.named
    · rw [hn]
      exact h.bound
  | create pid ebi is_default tft =>
    obtain ⟨hebi, hroom, hdefault⟩ := horderly
    obtain ⟨r, hr⟩ := EsmData.create_survives hdefault
    exact ⟨r.2, by rw [esmStep, hr]; rfl, h.create hebi hroom hr⟩
  | release ebi pid bid =>
    obtain ⟨hin, hlast⟩ := horderly
    cases hr : s.esmEbrContextRelease ebi pid bid with
    | none =>
      rcases h.counted.release_cases hr with ⟨-, hebi, hbid⟩ | ⟨hsome, -⟩ | ⟨_, _, _, hsome, -⟩
      · exact absurd hin (not_or.2 ⟨not_not.2 hebi, hbid⟩)
      · cases hsome
      · cases hsome
    | some r => exact ⟨r.2, by rw [esmStep, hr]; rfl, h.release hlast hr⟩

/-- The bearer contexts are accounted for: the counters count the slots, the total is bounded, a
bearer that is created is found again by its identity and can be released, and the release of a
default bearer releases the bearers of its connection and no others. -/
structure Accounted (s : EsmData) : Prop where
  n_bearers : ∀ pid pdn, (s.pdn pid).data = some pdn → pdn.n_bearers = pdn.used
  n_ebrs : s.n_ebrs = total ESM_DATA_PDN_MAX PdnEntry.used s.pdn
  bound : s.n_ebrs ≤ ESM_DATA_EPS_BEARER_TOTAL
  created : ∀ pid ebi is_default tft r s', s.esmEbrContextCreate pid ebi is_default tft =
    some (r, s') →
    r ≠ ESM_EBI_UNASSIGNED → ∃ bid, s.bearer pid bid = none ∧
    s'.bearer pid bid = some (newBearer bid ebi tft)
  found : ∀ pid bid ebr, s.bearer pid bid = some ebr → ∀ pid' bid', ∃ rel s',
    s.esmEbrContextRelease ebr.ebi pid' bid' = some (some rel, s') ∧ rel.ebi = ebr.ebi ∧
      (s.bearer rel.pid rel.bid).any (·.ebi == ebr.ebi) = true ∧ s'.bearer rel.pid rel.bid = none
  pid_found : ∀ pid ebr, s.bearer pid 0 = some ebr → ∃ pid',
    s.esmEbrContextGetPid ebr.ebi = some pid' ∧ (s.bearer pid' 0).any (·.ebi == ebr.ebi) = true
  default : ∀ ebi pid bid rel s', s.esmEbrContextRelease ebi pid bid = some (some rel, s') →
    rel.bid = 0 →
    (∀ bid', s'.bearer rel.pid bid' = none) ∧ ∀ pid' ≠ rel.pid, s'.bearer pid' = s.bearer pid'

theorem EsmData.Inv.accounted (h : s.Inv) : Accounted s where
  n_bearers pid pdn hdata := (h.counted.entry pid pdn hdata).2.2.1.count
  n_ebrs := h.counted.n_ebrs
  bound := h.bound
  created pid ebi is_default tft r s' hr hne := by
    rcases h.counted.create hr with ⟨heq, -⟩ | ⟨-, -, -, bid, hfree, -, -, hbearer⟩
    · exact absurd heq hne
    · exact ⟨bid, hfree, by rw [hbearer, if_pos ⟨rfl, rfl⟩]⟩
  found pid bid ebr hebr pid' bid' := by
    have hebi := h.named pid bid ebr hebr
    obtain ⟨rel, s', hr, hrel⟩ := h.counted.release_found h.packed hebr hebi pid' bid'
    refine ⟨rel, s', hr, hrel, ?_⟩
    rcases h.counted.release_cases hr with ⟨hnone, -⟩ | ⟨hnone, -⟩ | ⟨rel', ebr', t, heq, hslot,
      hid, -, -, -, hbearer⟩
    · cases hnone
    · cases hnone
    · cases heq
      rw [hslot, hbearer, if_pos ⟨rfl, .inr rfl⟩]
      exact ⟨by simp [← hid, hrel], rfl⟩
  pid_found _ _ := h.counted.getPid_found
  default ebi pid bid rel s' hr hzero := by
    rcases h.counted.release_cases hr with ⟨hnone, -⟩ | ⟨hnone, -⟩ | ⟨rel', ebr', t,
      heq, -, -, -, -, -, hbearer⟩
    · cases hnone
    · cases hnone
    · cases heq
      refine ⟨fun bid' => ?_, fun pid' hne => funext fun bid' => ?_⟩
      · rw [hbearer, if_pos ⟨rfl, .inl hzero⟩]
      · rw [hbearer, if_neg fun h => hne h.1]

/-- A run of orderly calls goes through, and the counters of the data agree with its contexts. -/
theorem every_bearer_context_is_accounted_for (es : List EsmEvent)
    (h : Meets esmStep Orderly esmMainInitialize es) :
    ∃ t, run esmStep esmMainInitialize es = some t ∧ Accounted t := by
  obtain ⟨t, ht, hinv⟩ := run_survives (fun s e hs he => EsmData.Inv.step hs e he) inv_init h
  exact ⟨t, ht, hinv.accounted⟩

def oneConnection : List EsmEvent :=
  [.define 0 false, .create 0 5 true none, .create 0 6 false none, .create 0 7 false none,
    .release 7 0 0]

theorem oneConnection_accounted : Meets esmStep Orderly esmMainInitialize oneConnection ∧
    ∃ t, run esmStep esmMainInitialize oneConnection = some t ∧ t.n_ebrs = 2 ∧ Accounted t := by
  have hmeets : Meets esmStep Orderly esmMainInitialize oneConnection := by decide +kernel
  obtain ⟨t, ht, haccounted⟩ := every_bearer_context_is_accounted_for oneConnection hmeets
  obtain ⟨u, hu, hcount⟩ : ∃ u, run esmStep esmMainInitialize oneConnection = some u ∧
      u.n_ebrs = 2 :=
    run_decided (by decide +kernel)
  obtain rfl : t = u := Option.some.inj (ht.symm.trans hu)
  exact ⟨hmeets, t, ht, hcount, haccounted⟩

def fullConnection (pid ebi : Nat) : List EsmEvent :=
  [.define pid false, .create pid ebi true none, .create pid (ebi + 1) false none,
    .create pid (ebi + 2) false none, .create pid (ebi + 3) false none]

def gapConnection : List EsmEvent :=
  [.define 0 false, .create 0 5 true none, .create 0 6 false none, .create 0 7 false none,
    .release 6 0 0]

/-- The limit is checked one bearer too late, a dedicated bearer without the default one ends the
process, and after a release that leaves a gap the last bearer of the connection is not found. -/
theorem bearers_lost :
    (∃ t, run esmStep esmMainInitialize (fullConnection 0 5 ++ fullConnection 1 5 ++
      fullConnection 2 5) = some t ∧ t.n_ebrs > ESM_DATA_EPS_BEARER_TOTAL) ∧
    run esmStep esmMainInitialize [.define 0 false, .create 0 5 false none] = none ∧
    ∃ t, run esmStep esmMainInitialize gapConnection = some t ∧
      t.bearer 0 2 = some { bid := 2, ebi := 7 } ∧
      (t.esmEbrContextRelease 7 0 0).map Prod.fst = some none := by
  have hstop :
      (run esmStep esmMainInitialize [.define 0 false, .create 0 5 false none]).isNone := by
    decide +kernel
  exact ⟨run_decided (by decide +kernel), Option.isNone_iff_eq_none.1 hstop,
    run_decided (by decide +kernel)⟩

end MacRlcSplit.Nas
