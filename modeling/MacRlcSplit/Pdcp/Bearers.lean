-- The set of bearers: what `rrc_pdcp_config_asn1_req` and `pdcp_remove_UE`
-- leave in `pdcp_coll_p`, over all histories of any UEs.
import MacRlcSplit.Lib.Keyed
import MacRlcSplit.Lib.Run
import MacRlcSplit.Pdcp.Config
import Mathlib.Data.Set.Image

namespace MacRlcSplit.Pdcp

open Lib Function List Option

/-! ## Bearers -/

/-- A bearer of a UE. -/
structure Bearer where
  ctxt : Ctxt
  rb_id : Fin 256
  is_srb : Bool
deriving DecidableEq

def Bearer.key (b : Bearer) : Nat := collKey b.ctxt b.rb_id b.is_srb

theorem Bearer.key_injective : Injective Bearer.key := by
  rintro ⟨ctxt, rb_id, is_srb⟩ ⟨ctxt', rb_id', is_srb'⟩ h
  obtain ⟨hctxt, hrb, hsrb⟩ := collKey_inj rb_id.isLt rb_id'.isLt h
  simp only [Bearer.mk.injEq]
  exact ⟨hctxt, Fin.ext hrb, hsrb⟩

def srbBearer (ctxt : Ctxt) (id : SrbIdentity) : Bearer := ⟨ctxt, ⟨id.1, by omega⟩, true⟩

def drbBearer (ctxt : Ctxt) (id : DrbIdentity) : Bearer := ⟨ctxt, ⟨id.1, by omega⟩, false⟩

/-- The bearers in the add lists of a call. -/
def ConfigReq.added (ctxt : Ctxt) (req : ConfigReq) : Set Bearer :=
  { b | (∃ x ∈ req.srb2add, srbBearer ctxt x.srb_Identity = b) ∨ ∃ x ∈ req.drb2add,
    drbBearer ctxt x.drb_Identity = b }

/-- The bearers in its release list. -/
def ConfigReq.released (ctxt : Ctxt) (req : ConfigReq) : Set Bearer :=
  { b | ∃ id ∈ req.drb2release, drbBearer ctxt id = b }

/-! ## Histories -/

namespace Bearers

inductive Event where
  | config (ctxt : Ctxt) (req : ConfigReq)
  | removeUe (ctxt : Ctxt)

/-- The collection, and the bearers that were added and not released since. -/
structure State where
  coll : Coll
  live : Set Bearer

def start : State := ⟨fun _ => none, ∅⟩

def step (s : State) : Event → Option State
  | .config ctxt req => (rrcPdcpConfigAsn1Req s.coll ctxt req).map fun coll =>
    ⟨coll, (s.live ∪ req.added ctxt) \ req.released ctxt⟩
  | .removeUe ctxt => some ⟨pdcpRemoveUe s.coll ctxt, { b ∈ s.live | b.ctxt ≠ ctxt }⟩

/-- The bearers that a call is about. -/
def Event.about : Event → Set Bearer
  | .config ctxt req => req.added ctxt ∪ req.released ctxt
  | .removeUe ctxt => { b | b.ctxt = ctxt }

/-- The bearers that are not to be there after a call. -/
def Event.gone : Event → Set Bearer
  | .config ctxt req => req.released ctxt
  | .removeUe ctxt => { b | b.ctxt = ctxt }

/-- What the code needs: a DRB that is released has the id of the last SRB in the same call, or
neither the DRB nor the one with that id is there, and a UE that is removed has no SRB 2. -/
def Spares (s : State) : Event → Prop
  | .config ctxt req => ∀ st ∈ addBearers s.coll ctxt req, ∀ id ∈ req.drb2release,
    id.1 = st.2.srb_id ∨ st.1 (collKey ctxt id.1 false) = none ∧
    st.1 (collKey ctxt st.2.srb_id false) = none
  | .removeUe ctxt => s.coll (collKey ctxt 2 true) = none

instance (s : State) (e : Event) : Decidable (Spares s e) := by
  cases e <;> unfold Spares <;> infer_instance

/-! ## Adding -/

theorem addSrb_inserts (ctxt : Ctxt) (sec : Security) (st : Coll × Locals) (x : SrbToAddMod) :
    ∃ p, (addSrb ctxt sec st x).1 = update st.1 (srbBearer ctxt x.srb_Identity).key (some p) :=
  ⟨_, rfl⟩

variable {ctxt : Ctxt} {st : Coll × Locals} {req : ConfigReq}

theorem addDrb_inserts {sec : Security} {st' : Coll × Locals} {x : DrbToAddMod}
    (h : addDrb ctxt sec st x = some st') :
    x.drb_Identity.1 < maxDRB ∧ ∃ p, st'.1 =
      update st.1 (drbBearer ctxt x.drb_Identity).key (some p) := by
  unfold addDrb at h
  split at h
  · next hlt =>
    refine ⟨hlt, ?_⟩
    split at h <;> cases h
    all_goals exact ⟨_, rfl⟩
  · cases h

theorem addBearers_spec {coll : Coll} (h : addBearers coll ctxt req = some st) :
    domain st.1 = domain coll ∪ Bearer.key '' req.added ctxt ∧
    ∀ b ∉ req.added ctxt, st.1 b.key = coll b.key := by
  have turn : ∀ (st : Coll × Locals) (x : DrbToAddMod) (st' : Coll × Locals),
      addDrb ctxt req.security st x = some st' → ∃ p, st'.1 =
        update st.1 (drbBearer ctxt x.drb_Identity).key (some p) :=
    fun st x st' h => (addDrb_inserts h).2
  obtain ⟨hdom, hframe⟩ := foldlM_inserts Prod.fst _ turn h
  have hsrbs : req.srb2add.foldlM (fun st x => some (addSrb ctxt req.security st x)) (coll, {}) =
      some (req.srb2add.foldl (addSrb ctxt req.security) (coll, {})) := foldlM_pure
  obtain ⟨hdom₁, hframe₁⟩ := foldlM_inserts Prod.fst (fun x => (srbBearer ctxt x.srb_Identity).key)
    (fun st x _ h => some.inj h ▸ addSrb_inserts ctxt req.security st x) hsrbs
  constructor
  · rw [hdom, hdom₁]
    ext k
    constructor
    · rintro ((hk | ⟨x, hx, rfl⟩) | ⟨x, hx, rfl⟩)
      · exact .inl hk
      · exact .inr ⟨_, .inl ⟨x, hx, rfl⟩, rfl⟩
      · exact .inr ⟨_, .inr ⟨x, hx, rfl⟩, rfl⟩
    · rintro (hk | ⟨b, ⟨x, hx, rfl⟩ | ⟨x, hx, rfl⟩, rfl⟩)
      · exact .inl (.inl hk)
      · exact .inl (.inr ⟨x, hx, rfl⟩)
      · exact .inr ⟨x, hx, rfl⟩
  · intro b hb
    simp only [ConfigReq.added, Set.mem_ofPred_eq, not_or, not_exists, not_and] at hb
    rw [hframe b.key fun x hx heq => hb.2 x hx (Bearer.key_injective heq)]
    exact hframe₁ b.key fun x hx heq => hb.1 x hx (Bearer.key_injective heq)

theorem addBearers_drbs {coll : Coll} (h : addBearers coll ctxt req = some st) :
    ∀ x ∈ req.drb2add, x.drb_Identity.1 < maxDRB := by
  exact foldlM_all h fun _ _ _ hs => (addDrb_inserts hs).1

/-! ## Releasing -/

/-- However long the list is, one key is taken out. -/
theorem releaseDrb_erases (ctxt : Ctxt) (l : List DrbIdentity)
    (st : Coll × Locals) : (l.foldl (releaseDrb ctxt) st).1 =
      if l = [] then st.1 else update st.1 (collKey ctxt st.2.srb_id false) none := by
  induction l generalizing st with
  | nil => rfl
  | cons id l ih =>
    rw [foldl_cons, ih]
    simp [releaseDrb]

theorem release_spec (hits : ∀ id ∈ req.drb2release, id.1 = st.2.srb_id ∨
      st.1 (collKey ctxt id.1 false) = none ∧ st.1 (collKey ctxt st.2.srb_id false) = none) :
    domain (req.drb2release.foldl (releaseDrb ctxt) st).1 =
      domain st.1 \ Bearer.key '' req.released ctxt ∧
      ∀ b ∉ req.released ctxt, (req.drb2release.foldl (releaseDrb ctxt) st).1 b.key =
        st.1 b.key := by
  rw [releaseDrb_erases]
  split
  · next hnil => simp [ConfigReq.released, hnil]
  next hne =>
  obtain ⟨id₀, hid₀⟩ := exists_mem_of_ne_nil _ hne
  -- the key that is taken out is in the list, or was not there
  have erased : ∀ k, k = collKey ctxt st.2.srb_id false →
      (∃ id ∈ req.drb2release, (drbBearer ctxt id).key = k) ∨ st.1 k = none := by
    rintro k rfl
    rcases hits id₀ hid₀ with heq | ⟨-, hnone⟩
    · exact .inl ⟨id₀, hid₀, by simp [Bearer.key, drbBearer, heq]⟩
    · exact .inr hnone
  constructor
  · rw [domain_erase]
    ext k
    constructor
    · rintro ⟨hk, hne⟩
      refine ⟨hk, ?_⟩
      rintro ⟨b, ⟨id, hid, rfl⟩, rfl⟩
      rcases hits id hid with heq | ⟨hnone, -⟩
      · exact hne (by simp [Bearer.key, drbBearer, heq])
      · exact not_mem_domain.2 hnone hk
    · rintro ⟨hk, hlisted⟩
      refine ⟨hk, fun heq => ?_⟩
      rcases erased k heq with ⟨id, hid, hkey⟩ | hnone
      · exact hlisted ⟨_, ⟨id, hid, rfl⟩, hkey⟩
      · exact not_mem_domain.2 hnone hk
  · intro b hb
    by_cases heq : b.key = collKey ctxt st.2.srb_id false
    · rcases erased _ heq with ⟨id, hid, hkey⟩ | hnone
      · exact absurd ⟨id, hid, Bearer.key_injective hkey⟩ hb
      · rw [hnone, heq, update_self]
    · exact update_of_ne heq _ _

/-! ## Removing a UE -/

/-- The keys that `pdcp_remove_UE` takes out. -/
def Removed (ctxt : Ctxt) (k : Nat) : Prop :=
  (∃ i < 2, collKey ctxt i true = k) ∨ ∃ i < maxDRB, collKey ctxt i false = k

theorem removeUe_spec (coll : Coll) (ctxt : Ctxt) :
    domain (pdcpRemoveUe coll ctxt) = domain coll \ { k | Removed ctxt k } ∧
      ∀ k, ¬ Removed ctxt k → pdcpRemoveUe coll ctxt k = coll k := by
  obtain ⟨hdom, hframe⟩ := foldl_erases (fun i => collKey ctxt i true) (List.range 2) coll
  obtain ⟨hdom', hframe'⟩ := foldl_erases (fun i => collKey ctxt i false) (List.range maxDRB)
    ((List.range 2).foldl (fun coll i => update coll (collKey ctxt i true) none) coll)
  simp only [mem_range] at hdom hframe hdom' hframe'
  constructor
  · simp only [pdcpRemoveUe, hashtableRemove]
    rw [hdom', hdom]
    ext k
    simp only [Set.mem_sdiff, Set.mem_ofPred_eq, Removed, not_or, and_assoc]
  · intro k hk
    simp only [Removed, not_or, not_exists, not_and] at hk
    simp only [pdcpRemoveUe, hashtableRemove]
    rw [hframe' k hk.2, hframe k hk.1]

/-! ## Runs -/

/-- The ids that bearers have. -/
def InRange (b : Bearer) : Prop := 1 ≤ b.rb_id.val ∧ b.rb_id.val < if b.is_srb then 3 else maxDRB

/-- The collection holds exactly the bearers that are live. -/
structure Exact (s : State) : Prop where
  domain_eq : domain s.coll = Bearer.key '' s.live
  range : ∀ b ∈ s.live, InRange b

theorem exact_start : Exact start := by
  refine ⟨?_, fun b hb => absurd hb (Set.notMem_empty b)⟩
  ext k
  simp [start, domain]

theorem removed_iff {s : State} {b : Bearer} (exact : Exact s) (hb : b ∈ s.live)
    (spares : s.coll (collKey ctxt 2 true) = none) : Removed ctxt b.key ↔ b.ctxt = ctxt := by
  obtain ⟨hlow, hhigh⟩ := exact.range b hb
  constructor
  · rintro (⟨i, hi, heq⟩ | ⟨i, hi, heq⟩)
    · exact (collKey_inj (by omega) b.rb_id.isLt heq).1.symm
    · exact (collKey_inj (by unfold maxDRB at hi; omega) b.rb_id.isLt heq).1.symm
  · rintro rfl
    cases hsrb : b.is_srb with
    | false =>
      rw [hsrb] at hhigh
      exact .inr ⟨b.rb_id, hhigh, by rw [Bearer.key, hsrb]⟩
    | true =>
      rw [hsrb, if_pos rfl] at hhigh
      refine .inl ⟨b.rb_id, ?_, by rw [Bearer.key, hsrb]⟩
      -- it would be SRB 2 otherwise
      by_contra hge
      have htwo : b.rb_id.val = 2 := by omega
      have hthere : b.key ∈ domain s.coll := by
        rw [exact.domain_eq]
        exact ⟨b, hb, rfl⟩
      rw [Bearer.key, hsrb, htwo] at hthere
      exact not_mem_domain.2 spares hthere

theorem step_spec {s t : State} {e : Event} (exact : Exact s) (spares : Spares s e)
    (h : step s e = some t) :
    Exact t ∧ (∀ b ∉ e.about, t.coll b.key = s.coll b.key) ∧ ∀ b ∈ e.gone, b ∉ t.live := by
  cases e with
  | config ctxt req =>
    obtain ⟨coll, hcoll, rfl⟩ := map_eq_some_iff.1 h
    obtain ⟨st, hst, rfl⟩ := map_eq_some_iff.1 hcoll
    obtain ⟨hdom, hframe⟩ := addBearers_spec hst
    obtain ⟨hdom', hframe'⟩ := release_spec (spares st hst)
    refine ⟨⟨?_, ?_⟩, ?_, ?_⟩
    · rw [hdom', hdom, exact.domain_eq, Set.image_sdiff Bearer.key_injective, Set.image_union]
    · rintro b ⟨hb | ⟨x, hx, rfl⟩ | ⟨x, hx, rfl⟩, -⟩
      · exact exact.range b hb
      · have := x.srb_Identity.2
        simp only [InRange, srbBearer, if_true]
        omega
      · have := x.drb_Identity.2
        have := addBearers_drbs hst x hx
        simp only [InRange, drbBearer, Bool.false_eq_true, if_false]
        omega
    · intro b hb
      simp only [Event.about, Set.mem_union, not_or] at hb
      exact (hframe' b hb.2).trans (hframe b hb.1)
    · intro b hb hlive
      exact hlive.2 hb
  | removeUe ctxt =>
    cases h
    obtain ⟨hdom, hframe⟩ := removeUe_spec s.coll ctxt
    refine ⟨⟨?_, fun b hb => exact.range b hb.1⟩, ?_, fun b hb hlive => hlive.2 hb⟩
    · rw [hdom, exact.domain_eq]
      ext k
      constructor
      · rintro ⟨⟨b, hb, rfl⟩, hkept⟩
        exact ⟨b, ⟨hb, fun heq => hkept ((removed_iff exact hb spares).2 heq)⟩, rfl⟩
      · rintro ⟨b, ⟨hb, hne⟩, rfl⟩
        exact ⟨⟨b, hb, rfl⟩, fun hgone => hne ((removed_iff exact hb spares).1 hgone)⟩
    · intro b hb
      apply hframe
      rintro (⟨i, hi, heq⟩ | ⟨i, hi, heq⟩)
      · exact hb (collKey_inj (by omega) b.rb_id.isLt heq).1.symm
      · exact hb (collKey_inj (by unfold maxDRB at hi; omega) b.rb_id.isLt heq).1.symm

theorem gone_of_exact {t : State} {b : Bearer} (exact : Exact t)
    (h : b ∉ t.live) : t.coll b.key = none := by
  rw [← not_mem_domain, exact.domain_eq]
  rintro ⟨b', hb', heq⟩
  exact h (Bearer.key_injective heq ▸ hb')

/-- After every history whose calls the code handles, the collection holds exactly the bearers
added and not released. The next such call leaves every entity alone that it is not about, and
leaves none of the bearers that it releases or whose UE it removes. -/
theorem the_collection_holds_the_bearers_not_released {es : List Event} {s : State}
    (meets : Meets step Spares start es) (h : run step start es = some s) :
    domain s.coll = Bearer.key '' s.live ∧ ∀ e t, Spares s e → step s e = some t →
        (∀ b ∉ e.about, t.coll b.key = s.coll b.key) ∧ ∀ b ∈ e.gone, t.coll b.key = none := by
  have exact : Exact s :=
    run_invariant (fun s e t exact spares hs => (step_spec exact spares hs).1) exact_start meets h
  refine ⟨exact.domain_eq, fun e t spares ht => ?_⟩
  obtain ⟨exact', hframe, hgone⟩ := step_spec exact spares ht
  exact ⟨hframe, fun b hb => gone_of_exact exact' (hgone b hb)⟩

def ue (rnti : UInt16) : Ctxt := ⟨0, rnti, true⟩

def srb1 : SrbToAddMod := { srb_Identity := ⟨1, srb_one⟩ }

def srb2 : SrbToAddMod := { srb_Identity := ⟨2, by decide⟩ }

def drb (id : DrbIdentity) : DrbToAddMod :=
  { drb_Identity := id, pdcp_Config := some { rlc_UM := some .len12bits } }

def twoUes : List Event :=
  [.config (ue 70) { srb2add := [srb1], drb2add := [drb ⟨1, drb_one⟩, drb ⟨2, by decide⟩] },
    .config (ue 71) { srb2add := [srb1], drb2add := [drb ⟨1, drb_one⟩, drb ⟨2, by decide⟩] },
    .config (ue 70) { srb2add := [srb1], drb2release := [⟨1, drb_one⟩] },
    .removeUe (ue 71)]

theorem the_bearers_of_two_ues : ∃ s, run step start twoUes = some s ∧
    domain s.coll = Bearer.key '' s.live ∧
      (s.coll (collKey (ue 70) 2 false)).isSome = true ∧ s.coll (collKey (ue 70) 1 false) = none ∧
      s.coll (collKey (ue 71) 2 false) = none := by
  have meets : Meets step Spares start twoUes := by decide +kernel
  obtain ⟨s, hs, hheld⟩ : ∃ s, run step start twoUes = some s ∧
      (s.coll (collKey (ue 70) 2 false)).isSome ∧
      s.coll (collKey (ue 70) 1 false) = none ∧ s.coll (collKey (ue 71) 2 false) = none :=
        run_decided
      (by decide +kernel)
  exact ⟨s, hs, (the_collection_holds_the_bearers_not_released meets hs).1, hheld⟩

/-- A DRB that is released alone stays, and so does SRB 2 of a UE that is removed. -/
theorem released_bearers_stay :
    (∃ s, run step start [.config (ue 70) { drb2add := [drb ⟨1, by decide⟩] },
          .config (ue 70) { drb2release := [⟨1, by decide⟩] }] = some s ∧
        (s.coll (collKey (ue 70) 1 false)).isSome = true ∧
        drbBearer (ue 70) ⟨1, by decide⟩ ∉ s.live) ∧
      ∃ s, run step start [.config (ue 70) { srb2add := [srb1, srb2] }, .removeUe (ue 70)] =
        some s ∧
        (s.coll (collKey (ue 70) 2 true)).isSome = true ∧
        srbBearer (ue 70) ⟨2, by decide⟩ ∉ s.live := by
  constructor
  · refine ⟨_, rfl, by decide +kernel, ?_⟩
    simp [ConfigReq.released]
  · refine ⟨_, rfl, by decide +kernel, ?_⟩
    simp [srbBearer]

end Bearers

end MacRlcSplit.Pdcp
