-- The set of RLC bearers: what the calls of the RRC leave in `rlc_coll_p`, over
-- all histories of any UEs.
import MacRlcSplit.Pdcp.Bearers
import MacRlcSplit.Rlc.Config

namespace MacRlcSplit.Rlc

open Lib Function List Option
open Pdcp (Ctxt Bearer RlcMode DrbIdentity NB_RB_MAX maxDRB srbBearer drbBearer collKey_inj srb_one
  drb_one)

/-! ## Calls and histories -/

def key (b : Bearer) : Nat := rlcCollKeyValue b.ctxt b.rb_id b.is_srb

theorem key_injective : Injective key := Bearer.key_injective

inductive RlcCall where
  | configAsn1Req (ctxt : Ctxt) (req : ConfigAsn1Req)
  | configReq (ctxt : Ctxt) (srb_flag : Bool) (action : ConfigAction) (rb_id : Nat)
      (rlc_info : RlcInfo)
  | removeUe (ctxt : Ctxt)

/-- The bearer that `rrc_rlc_config_req` names. -/
def Named (ctxt : Ctxt) (srb_flag : Bool) (rb_id : Nat) : Set Bearer :=
  { b | b.ctxt = ctxt ∧ b.rb_id.val = rb_id ∧ b.is_srb = srb_flag }

def RlcCall.added : RlcCall → Set Bearer
  | .configAsn1Req ctxt req =>
    { b | (∃ x ∈ req.srb2add, x.config.mode.isSome = true ∧ srbBearer ctxt x.srb_Identity = b) ∨
      ∃ x ∈ req.drb2add, x.config.mode.isSome = true ∧ drbBearer ctxt x.drb_Identity = b }
  | .configReq ctxt srb_flag .add rb_id _ => Named ctxt srb_flag rb_id
  | _ => ∅

def RlcCall.removed : RlcCall → Set Bearer
  | .configAsn1Req ctxt req => { b | ∃ id ∈ req.drb2release, drbBearer ctxt id = b }
  | .configReq ctxt srb_flag .remove rb_id _ => Named ctxt srb_flag rb_id
  | .configReq _ _ _ _ _ => ∅
  | .removeUe ctxt => { b | b.ctxt = ctxt }

def RlcCall.about : RlcCall → Set Bearer
  | .configReq ctxt srb_flag _ rb_id _ => Named ctxt srb_flag rb_id
  | c => c.added ∪ c.removed

section Histories

variable (pun : Punning)

def call (coll : Coll) : RlcCall → Option (Coll × RlcOpStatus)
  | .configAsn1Req ctxt req => rrcRlcConfigAsn1Req pun coll ctxt req
  | .configReq ctxt srb_flag action rb_id rlc_info =>
    rrcRlcConfigReq pun coll ctxt srb_flag action rb_id rlc_info
  | .removeUe ctxt => (rrcRlcRemoveUe coll ctxt).map fun coll => (coll, .ok)

/-- The collection, and the bearers that were added and not removed since. -/
structure State where
  coll : Coll
  live : Set Bearer

def start : State := ⟨fun _ => none, ∅⟩

def step (s : State) (c : RlcCall) : Option State :=
  (call pun s.coll c).map fun r => ⟨r.1, (s.live ∪ c.added) \ c.removed⟩

/-- The ids that `rrc_rlc_remove_ue` goes through. -/
def Covered (srb_flag : Bool) (rb_id : Nat) : Prop :=
  1 ≤ rb_id ∧ rb_id ≤ if srb_flag then 2 else maxDRB

instance (srb_flag : Bool) (rb_id : Nat) : Decidable (Covered srb_flag rb_id) :=
  inferInstanceAs (Decidable (_ ∧ _))

/-- What the code needs: a UE that is removed has no bearers but SRB 1 and 2 and the DRBs from 1 to
`maxDRB`, and `rrc_rlc_config_req` adds no bearer that is configured already. -/
def Spares (s : State) : RlcCall → Prop
  | .configAsn1Req _ _ => True
  | .configReq ctxt srb_flag .add rb_id _ =>
    (s.coll (rlcCollKeyValue ctxt rb_id srb_flag)).any (·.configured pun) = false
  | .configReq _ _ _ _ _ => True
  | .removeUe ctxt => ∀ rb_id < NB_RB_MAX, ∀ srb_flag, ¬ Covered srb_flag rb_id →
    (s.coll (rlcCollKeyValue ctxt rb_id srb_flag)).isSome = false

instance (s : State) (c : RlcCall) : Decidable (Spares pun s c) := by
  unfold Spares
  split <;> infer_instance

end Histories

/-! ## One bearer -/

variable {pun : Punning} {coll coll' : Coll} {ctxt : Ctxt} {srb_flag : Bool} {rb_id : Nat}

theorem key_eq_iff {b : Bearer} (hrb : rb_id < NB_RB_MAX) :
    key b = rlcCollKeyValue ctxt rb_id srb_flag ↔ b ∈ Named ctxt srb_flag rb_id := by
  constructor
  · intro heq
    exact collKey_inj b.rb_id.isLt (by unfold NB_RB_MAX maxDRB at hrb; omega) heq
  · rintro ⟨rfl, rfl, rfl⟩
    rfl

theorem image_named (hrb : rb_id < NB_RB_MAX) :
    key '' Named ctxt srb_flag rb_id = {rlcCollKeyValue ctxt rb_id srb_flag} := by
  ext k
  constructor
  · rintro ⟨b, hb, rfl⟩
    exact (key_eq_iff hrb).2 hb
  · rintro rfl
    exact ⟨⟨ctxt, ⟨rb_id, by unfold NB_RB_MAX maxDRB at hrb; omega⟩, srb_flag⟩, ⟨rfl, rfl, rfl⟩,
      rfl⟩

theorem modifyRlc_spec (coll : Coll) (k : Nat) (f : Body → Body) :
    domain (modifyRlc coll k f) = domain coll ∧ ∀ k' ≠ k, modifyRlc coll k f k' = coll k' := by
  cases hu : coll k with
  | none => simp [modifyRlc, hu]
  | some u =>
    have hmem : k ∈ domain coll := by simp [mem_domain, hu]
    constructor
    · simp only [modifyRlc, hu]
      rw [domain_insert, Set.insert_eq_of_mem hmem]
    · intro k' hk'
      simp [modifyRlc, hu, hk']

/-- `rrc_rlc_add_rlc` never gives NULL; an entity that is there stays as it is, and a new one is
blank. -/
theorem rrcRlcAddRlc_spec {chan_id : Nat} {rlc_mode : RlcMode} {r : Coll × Bool}
    (h : rrcRlcAddRlc coll ctxt srb_flag rb_id chan_id rlc_mode = some r) :
    rb_id < NB_RB_MAX ∧ r.2 ∧ domain r.1 =
      insert (rlcCollKeyValue ctxt rb_id srb_flag) (domain coll) ∧
      (∀ k ≠ rlcCollKeyValue ctxt rb_id srb_flag, r.1 k = coll k) ∧
      r.1 (rlcCollKeyValue ctxt rb_id srb_flag) =
        some ((coll (rlcCollKeyValue ctxt rb_id srb_flag)).getD ⟨rlc_mode, .blank⟩) := by
  unfold rrcRlcAddRlc at h
  split at h
  · rename_i hids
    split at h
    · rename_i u hu
      split at h
      · cases h
        refine ⟨hids.1, rfl, ?_, fun _ _ => rfl, ?_⟩
        · rw [Set.insert_eq_of_mem]
          rw [mem_domain, hu]
          rfl
        · simp [hu]
      · cases h
    · rename_i hnone
      cases h
      refine ⟨hids.1, rfl, domain_insert _ _ _, fun k hk => update_of_ne hk _ _, ?_⟩
      simp [hnone]
  · cases h

theorem rrcRlcRemoveRlc_eq (h : rrcRlcRemoveRlc coll ctxt srb_flag rb_id = some coll') :
    rb_id < NB_RB_MAX ∧ coll' = update coll (rlcCollKeyValue ctxt rb_id srb_flag) none := by
  unfold rrcRlcRemoveRlc at h
  split at h
  · rename_i hrb
    exact ⟨hrb, (some.inj h).symm⟩
  · cases h

/-! ## The add lists -/

theorem configReqRlcUmAsn1_spec {ul : Option SnFieldLength} {dl : Option DlUmRlc}
    (h : configReqRlcUmAsn1 pun coll ctxt srb_flag ul dl rb_id = some coll') :
    domain coll' = domain coll ∧ ∀ k ≠ rlcCollKeyValue ctxt rb_id srb_flag, coll' k = coll k := by
  unfold configReqRlcUmAsn1 at h
  split at h
  · cases h
    exact modifyRlc_spec _ _ _
  · cases h

theorem configureRlc_spec {config : RlcConfig}
    (h : configureRlc pun coll ctxt srb_flag rb_id config = some coll') :
    domain coll' = domain coll ∧ ∀ k ≠ rlcCollKeyValue ctxt rb_id srb_flag, coll' k = coll k := by
  cases config with
  | nothing | unknown =>
    cases h
    exact ⟨rfl, fun _ _ => rfl⟩
  | am config =>
    cases h
    exact modifyRlc_spec _ _ _
  | umBiDirectional | umUniDirectionalUl | umUniDirectionalDl => exact configReqRlcUmAsn1_spec h

theorem addMod_spec {config : RlcConfig}
    (h : addMod pun ctxt srb_flag coll rb_id config = some coll') :
    (config.mode.isSome → rb_id < NB_RB_MAX) ∧
      domain coll' = domain coll ∪ { k | config.mode.isSome ∧
        rlcCollKeyValue ctxt rb_id srb_flag = k } ∧
      ∀ k ∉ { k | config.mode.isSome ∧ rlcCollKeyValue ctxt rb_id srb_flag = k },
      coll' k = coll k := by
  unfold addMod at h
  split at h
  · rename_i hmode
    cases h
    simp [hmode]
  · rename_i mode hmode
    obtain ⟨r, hadd, h⟩ := bind_eq_some_iff.1 h
    obtain ⟨hrb, hok, hdom, hframe, -⟩ := rrcRlcAddRlc_spec hadd
    rw [hok] at h
    obtain ⟨hdom', hframe'⟩ := configureRlc_spec h
    simp only [hmode, isSome_some, true_and]
    refine ⟨fun _ => hrb, ?_, fun k hk => ?_⟩
    · rw [hdom', hdom, Set.insert_eq, Set.union_comm]
      congr 1
      ext k
      exact eq_comm
    · have hk' : k ≠ rlcCollKeyValue ctxt rb_id srb_flag := fun heq => hk heq.symm
      rw [hframe' k hk', hframe k hk']

variable {r : Coll × RlcOpStatus}

theorem rrcRlcConfigAsn1Req_spec {req : ConfigAsn1Req}
    (h : rrcRlcConfigAsn1Req pun coll ctxt req = some r) :
    domain r.1 = (domain coll ∪ key '' (RlcCall.configAsn1Req ctxt req).added) \
        key '' (RlcCall.configAsn1Req ctxt req).removed ∧
      (∀ b ∉ (RlcCall.configAsn1Req ctxt req).about, r.1 (key b) = coll (key b)) ∧
      ∀ b ∈ (RlcCall.configAsn1Req ctxt req).added, b.rb_id.val < NB_RB_MAX := by
  obtain ⟨coll₁, h₁, h⟩ := bind_eq_some_iff.1 h
  obtain ⟨coll₂, h₂, h⟩ := bind_eq_some_iff.1 h
  obtain ⟨coll₃, h₃, h⟩ := bind_eq_some_iff.1 h
  cases h
  obtain ⟨hdom₁, hframe₁⟩ := foldlM_fills id
    (fun x : SrbToAddMod => { k | x.config.mode.isSome ∧ key (srbBearer ctxt x.srb_Identity) = k })
    (fun _ _ _ hs => (addMod_spec hs).2) h₁
  obtain ⟨hdom₂, hframe₂⟩ := foldlM_fills id
    (fun x : DrbToAddMod => { k | x.config.mode.isSome ∧ key (drbBearer ctxt x.drb_Identity) = k })
    (fun _ _ _ hs => (addMod_spec hs).2) h₂
  obtain ⟨hdom₃, hframe₃⟩ := foldlM_erases (fun x : DrbIdentity => key (drbBearer ctxt x))
    (fun _ _ _ ht => (rrcRlcRemoveRlc_eq ht).2) h₃
  simp only [id_eq] at hdom₁ hframe₁ hdom₂ hframe₂
  refine ⟨?_, ?_, ?_⟩
  · rw [hdom₃, hdom₂, hdom₁]
    ext k
    constructor
    · rintro ⟨(hk | ⟨x, hx, hadds, rfl⟩) | ⟨x, hx, hadds, rfl⟩, hkept⟩
      · exact ⟨.inl hk, fun ⟨b, ⟨x, hx, hb⟩, hkey⟩ => hkept ⟨x, hx, hb ▸ hkey⟩⟩
      · exact ⟨.inr ⟨_, .inl ⟨x, hx, hadds, rfl⟩, rfl⟩, fun ⟨b, ⟨y, hy, hb⟩, hkey⟩ =>
          hkept ⟨y, hy, hb ▸ hkey⟩⟩
      · exact ⟨.inr ⟨_, .inr ⟨x, hx, hadds, rfl⟩, rfl⟩, fun ⟨b, ⟨y, hy, hb⟩, hkey⟩ =>
          hkept ⟨y, hy, hb ▸ hkey⟩⟩
    · rintro ⟨hk, hkept⟩
      refine ⟨?_, fun ⟨x, hx, hkey⟩ => hkept ⟨_, ⟨x, hx, rfl⟩, hkey⟩⟩
      rcases hk with hk | ⟨b, ⟨x, hx, hadds, rfl⟩ | ⟨x, hx, hadds, rfl⟩, rfl⟩
      · exact .inl (.inl hk)
      · exact .inl (.inr ⟨x, hx, hadds, rfl⟩)
      · exact .inr ⟨x, hx, hadds, rfl⟩
  · intro b hb
    simp only [RlcCall.about, RlcCall.added, RlcCall.removed, Set.mem_union, Set.mem_ofPred_eq,
      not_or, not_exists, not_and] at hb
    dsimp only
    rw [hframe₃ _ fun x hx heq => hb.2 x hx (key_injective heq),
      hframe₂ _ fun x hx hk => hb.1.2 x hx hk.1 (key_injective hk.2),
      hframe₁ _ fun x hx hk => hb.1.1 x hx hk.1 (key_injective hk.2)]
  · rintro b (⟨x, hx, hadds, rfl⟩ | ⟨x, hx, hadds, rfl⟩)
    · exact foldlM_all h₁ (fun _ _ _ hs => (addMod_spec hs).1) x hx hadds
    · exact foldlM_all h₂ (fun _ _ _ hs => (addMod_spec hs).1) x hx hadds

/-! ## One bearer at a time -/

theorem modifyRb_spec (pun : Punning) (coll : Coll) (ctxt : Ctxt) (srb : Bool) (rb_id : Nat)
    (rlc_info : RlcInfo) :
    domain (modifyRb pun coll ctxt srb rb_id rlc_info).1 = domain coll ∧
    ∀ k ≠ rlcCollKeyValue ctxt rb_id srb,
        (modifyRb pun coll ctxt srb rb_id rlc_info).1 k = coll k := by
  cases rlc_info with
  | none => exact ⟨rfl, fun _ _ => rfl⟩
  | am | um => exact modifyRlc_spec _ _ _
  | tm is_uplink_downlink =>
    simp only [modifyRb, configReqRlcTm]
    exact modifyRlc_spec _ _ _

theorem rrcRlcConfigReq_spec {action : ConfigAction} {rlc_info : RlcInfo}
    (h : rrcRlcConfigReq pun coll ctxt srb_flag action rb_id rlc_info = some r) :
    rb_id < NB_RB_MAX ∧
      domain r.1 =
        (domain coll ∪ key '' (RlcCall.configReq ctxt srb_flag action rb_id rlc_info).added) \
        key '' (RlcCall.configReq ctxt srb_flag action rb_id rlc_info).removed ∧
      ∀ k ≠ rlcCollKeyValue ctxt rb_id srb_flag, r.1 k = coll k := by
  unfold rrcRlcConfigReq at h
  split at h
  · rename_i hrb
    refine ⟨hrb, ?_⟩
    cases action with
    | add =>
      obtain ⟨r', hadd, rfl⟩ := map_eq_some_iff.1 h
      obtain ⟨-, hok, hdom, hframe, -⟩ := rrcRlcAddRlc_spec hadd
      simp only [hok, if_true, RlcCall.added, RlcCall.removed, image_named hrb, Set.image_empty,
        Set.sdiff_empty, Set.union_singleton]
      exact ⟨hdom, hframe⟩
    | modify =>
      cases h
      simp only [RlcCall.added, RlcCall.removed, Set.image_empty, Set.sdiff_empty, Set.union_empty]
      exact modifyRb_spec pun coll ctxt srb_flag rb_id rlc_info
    | remove =>
      obtain ⟨coll', hremove, rfl⟩ := map_eq_some_iff.1 h
      obtain ⟨-, rfl⟩ := rrcRlcRemoveRlc_eq hremove
      simp only [RlcCall.added, RlcCall.removed, image_named hrb, Set.image_empty, Set.union_empty]
      exact ⟨domain_erase _ _, fun k hk => update_of_ne hk _ _⟩
    | other =>
      cases h
      simp [RlcCall.added, RlcCall.removed]
  · cases h

theorem configured_blank (pun : Punning) (mode : RlcMode) :
    RlcUnion.configured pun ⟨mode, .blank⟩ = false := by
  cases mode <;> rfl

theorem add_status {rlc_info : RlcInfo}
    (h : rrcRlcConfigReq pun coll ctxt srb_flag .add rb_id rlc_info = some r) :
    r.2 = .internalError ∧ (r.1 (rlcCollKeyValue ctxt rb_id srb_flag)).any (·.configured pun) =
        (coll (rlcCollKeyValue ctxt rb_id srb_flag)).any (·.configured pun) := by
  unfold rrcRlcConfigReq at h
  split at h
  · obtain ⟨r', hadd, rfl⟩ := map_eq_some_iff.1 h
    obtain ⟨-, hok, -, -, hthere⟩ := rrcRlcAddRlc_spec hadd
    simp only [hok, if_true, hthere, true_and]
    cases coll (rlcCollKeyValue ctxt rb_id srb_flag) with
    | none => simp [configured_blank]
    | some u => rfl
  · cases h

/-! ## Removing a UE -/

/-- The keys that `rrc_rlc_remove_ue` takes out. -/
def RemovedKey (ctxt : Ctxt) (k : Nat) : Prop :=
  ∃ rb_id srb_flag, Covered srb_flag rb_id ∧ rlcCollKeyValue ctxt rb_id srb_flag = k

theorem Covered.lt (h : Covered srb_flag rb_id) : rb_id < NB_RB_MAX := by
  have := h.2
  unfold NB_RB_MAX maxDRB at *
  split at this <;> omega

theorem removedKey_loops (ctxt : Ctxt) (k : Nat) : RemovedKey ctxt k ↔
    (∃ i ∈ [1, 2], rlcCollKeyValue ctxt i true = k) ∨
      ∃ i ∈ (List.range maxDRB).map (· + 1), rlcCollKeyValue ctxt i false = k := by
  have hsrb : ∀ i, i ∈ [1, 2] ↔ Covered true i := by
    intro i
    simp only [Covered, if_true, mem_cons, not_mem_nil, or_false]
    omega
  have hdrb : ∀ i, i ∈ (List.range maxDRB).map (· + 1) ↔ Covered false i := by
    intro i
    simp only [Covered, Bool.false_eq_true, if_false, List.mem_map, mem_range]
    constructor
    · rintro ⟨j, hj, rfl⟩
      omega
    · intro hi
      exact ⟨i - 1, by omega, by omega⟩
  simp only [hsrb, hdrb, RemovedKey]
  constructor
  · rintro ⟨i, srb_flag, hi, rfl⟩
    cases srb_flag with
    | true => exact .inl ⟨i, hi, rfl⟩
    | false => exact .inr ⟨i, hi, rfl⟩
  · rintro (⟨i, hi, rfl⟩ | ⟨i, hi, rfl⟩)
    · exact ⟨i, true, hi, rfl⟩
    · exact ⟨i, false, hi, rfl⟩

theorem rrcRlcRemoveUe_spec (h : rrcRlcRemoveUe coll ctxt = some coll') :
    domain coll' = domain coll \ { k | RemovedKey ctxt k } ∧ ∀ k, ¬ RemovedKey ctxt k →
    coll' k = coll k := by
  unfold rrcRlcRemoveUe at h
  obtain ⟨coll₁, h₁, h₂⟩ := bind_eq_some_iff.1 h
  obtain ⟨hdom₁, hframe₁⟩ := foldlM_erases (fun i => rlcCollKeyValue ctxt i true)
    (fun _ _ _ ht => (rrcRlcRemoveRlc_eq ht).2) h₁
  obtain ⟨hdom₂, hframe₂⟩ := foldlM_erases (fun i => rlcCollKeyValue ctxt i false)
    (fun _ _ _ ht => (rrcRlcRemoveRlc_eq ht).2) h₂
  constructor
  · rw [hdom₂, hdom₁]
    ext k
    simp only [Set.mem_sdiff, Set.mem_ofPred_eq, removedKey_loops, not_or, and_assoc]
  · intro k hk
    simp only [removedKey_loops, not_or, not_exists, not_and] at hk
    rw [hframe₂ k hk.2, hframe₁ k hk.1]

/-! ## Runs -/

/-- The collection holds exactly the bearers that are live. -/
structure Exact (s : State) : Prop where
  domain_eq : domain s.coll = key '' s.live
  range : ∀ b ∈ s.live, b.rb_id.val < NB_RB_MAX

theorem exact_start : Exact start := by
  refine ⟨?_, nofun⟩
  ext k
  simp [start, domain]

theorem removedKey_iff {s : State} (exact : Exact s) (spares : Spares pun s (.removeUe ctxt))
    {b : Bearer} (hb : b ∈ s.live) : RemovedKey ctxt (key b) ↔ b.ctxt = ctxt := by
  constructor
  · rintro ⟨rb_id, srb_flag, hcovered, heq⟩
    exact ((key_eq_iff hcovered.lt).1 heq.symm).1
  rintro rfl
  refine ⟨b.rb_id, b.is_srb, ?_, rfl⟩
  by_contra hcovered
  have hthere : key b ∈ domain s.coll := by
    rw [exact.domain_eq]
    exact ⟨b, hb, rfl⟩
  have hnone := spares b.rb_id (exact.range b hb) b.is_srb hcovered
  exact absurd hthere (by simp [mem_domain, key, hnone])

theorem call_frame {c : RlcCall} (h : call pun coll c = some r) :
    ∀ b ∉ c.about, r.1 (key b) = coll (key b) := by
  cases c with
  | configAsn1Req ctxt req => exact (rrcRlcConfigAsn1Req_spec h).2.1
  | configReq ctxt srb_flag action rb_id rlc_info =>
    obtain ⟨hrb, -, hframe⟩ := rrcRlcConfigReq_spec h
    exact fun b hb => hframe _ fun heq => hb ((key_eq_iff hrb).1 heq)
  | removeUe ctxt =>
    simp only [call] at h
    obtain ⟨coll', hremove, rfl⟩ := map_eq_some_iff.1 h
    intro b hb
    apply (rrcRlcRemoveUe_spec hremove).2
    rintro ⟨rb_id, srb_flag, hcovered, heq⟩
    exact hb (.inr ((key_eq_iff hcovered.lt).1 heq.symm).1)

/-- The entries stay those of the bearers that were added and not removed. -/
theorem exact_step {s t : State} {c : RlcCall} (exact : Exact s) (spares : Spares pun s c)
    (h : step pun s c = some t) : Exact t := by
  obtain ⟨r, hcall, rfl⟩ := map_eq_some_iff.1 h
  cases c with
  | configAsn1Req ctxt req =>
    obtain ⟨hdom, -, hrange⟩ := rrcRlcConfigAsn1Req_spec hcall
    refine ⟨?_, ?_⟩
    · rw [hdom, exact.domain_eq, Set.image_sdiff key_injective, Set.image_union]
    · rintro b ⟨hb | hb, -⟩
      · exact exact.range b hb
      · exact hrange b hb
  | configReq ctxt srb_flag action rb_id rlc_info =>
    obtain ⟨hrb, hdom, -⟩ := rrcRlcConfigReq_spec hcall
    refine ⟨?_, ?_⟩
    · rw [hdom, exact.domain_eq, Set.image_sdiff key_injective, Set.image_union]
    · rintro b ⟨hb | hb, -⟩
      · exact exact.range b hb
      · cases action with
        | add => exact hb.2.1 ▸ hrb
        | modify | remove | other => cases hb
  | removeUe ctxt =>
    simp only [call] at hcall
    obtain ⟨coll', hremove, rfl⟩ := map_eq_some_iff.1 hcall
    refine ⟨?_, ?_⟩
    · rw [(rrcRlcRemoveUe_spec hremove).1, exact.domain_eq]
      simp only [RlcCall.added, RlcCall.removed, Set.union_empty]
      ext k
      constructor
      · rintro ⟨⟨b, hb, rfl⟩, hkept⟩
        exact ⟨b, ⟨hb, fun heq => hkept ((removedKey_iff exact spares hb).2 heq)⟩, rfl⟩
      · rintro ⟨b, ⟨hb, hne⟩, rfl⟩
        exact ⟨⟨b, hb, rfl⟩, fun hgone => hne ((removedKey_iff exact spares hb).1 hgone)⟩
    · rintro b ⟨hb | hb, -⟩
      · exact exact.range b hb
      · cases hb

/-- After every history whose calls the code handles, the collection holds exactly the bearers added
and not removed, under keys of their own. A call leaves every entity alone that it is not about, and
the next `ADD` that the code handles gives `RLC_OP_STATUS_OK` exactly when its bearer is then there
and configured. -/
theorem the_rlc_collection_holds_the_bearers_not_removed (pun : Punning) (calls : List RlcCall)
    (s : State) (meets : Meets (step pun) (Spares pun) start calls)
    (h : run (step pun) start calls = some s) :
    domain s.coll = key '' s.live ∧ (∀ b b', key b = key b' → b = b') ∧
      (∀ c r, call pun s.coll c = some r → ∀ b ∉ c.about, r.1 (key b) = s.coll (key b)) ∧
      ∀ ctxt srb_flag rb_id rlc_info r,
        Spares pun s (.configReq ctxt srb_flag .add rb_id rlc_info) →
        call pun s.coll (.configReq ctxt srb_flag .add rb_id rlc_info) = some r →
        (r.2 = .ok ↔
          (r.1 (rlcCollKeyValue ctxt rb_id srb_flag)).any (·.configured pun) = true) := by
  have exact : Exact s := run_invariant (fun _ _ _ => exact_step) exact_start meets h
  refine ⟨exact.domain_eq, fun b b' heq => key_injective heq, fun c r => call_frame, ?_⟩
  intro ctxt srb_flag rb_id rlc_info r spares hcall
  obtain ⟨hstatus, hconfigured⟩ := add_status hcall
  rw [hstatus, hconfigured, spares]
  simp

/-- No bytes of one mode mean anything in another one. -/
def noPunning : Punning := ⟨fun _ => none, fun _ => none⟩

def ue (rnti : UInt16) : Ctxt := ⟨0, rnti, true⟩

def twoUes : List RlcCall :=
  [.configAsn1Req (ue 70) { srb2add := [⟨⟨1, srb_one⟩, some .defaultValue⟩] },
    .configReq (ue 70) false .add 1 (.um ⟨35, 10, 0⟩),
    .configReq (ue 70) false .modify 1 (.um ⟨35, 10, 0⟩),
    .configAsn1Req (ue 71) { srb2add := [⟨⟨1, srb_one⟩, some .defaultValue⟩],
                             drb2add := [⟨⟨1, drb_one⟩, some (.umUniDirectionalUl .size5)⟩] },
    .configAsn1Req (ue 70) { drb2release := [⟨1, drb_one⟩] }, .removeUe (ue 71)]

/-- What a history leaves under some keys: whether there is an entity, and whether it is
configured. -/
def found (calls : List RlcCall) (keys : List Nat) : Option (List (Option Bool)) :=
  (run (step noPunning) start calls).map fun s => keys.map fun k =>
    (s.coll k).map (·.configured noPunning)

theorem the_rlc_bearers_of_two_ues : ∃ s, run (step noPunning) start twoUes = some s ∧
      domain s.coll = key '' s.live ∧ (s.coll (rlcCollKeyValue (ue 70) 1 true)).isSome = true ∧
      s.coll (rlcCollKeyValue (ue 70) 1 false) = none ∧
      s.coll (rlcCollKeyValue (ue 71) 1 true) = none := by
  obtain ⟨s, hs, hsrb, hdrb, hremoved⟩ : ∃ s, run (step noPunning) start twoUes = some s ∧
      (s.coll (rlcCollKeyValue
      (ue 70) 1 true)).isSome ∧ (s.coll (rlcCollKeyValue (ue 70) 1 false)).isNone ∧ (s.coll
      (rlcCollKeyValue (ue 71) 1 true)).isNone := run_decided (by decide +kernel)
  exact ⟨s, hs,
    (the_rlc_collection_holds_the_bearers_not_removed noPunning twoUes s (by decide +kernel) hs).1,
    hsrb, isNone_iff_eq_none.1 hdrb, isNone_iff_eq_none.1 hremoved⟩

/-- DRB 12 outlives its UE; an `ADD` gives an error although the bearer is there and configured, and
one for a new bearer leaves it without configuration. -/
theorem a_bearer_outlives_its_ue :
    found [.configAsn1Req (ue 70) { drb2add := [⟨⟨12, by decide⟩, some (.am .default)⟩] },
      .removeUe (ue 70)]
        [rlcCollKeyValue (ue 70) 12 false] = some [some true] ∧
      (run (step noPunning) start
        [.configAsn1Req (ue 70) { srb2add := [⟨⟨1, by decide⟩, some .defaultValue⟩] }]).bind
          (fun s => (call noPunning s.coll
            (.configReq (ue 70) true .add 1 (.am ⟨4, 1024, 10000, 45, 35, 0⟩))).map fun r =>
            (r.2, (r.1 (rlcCollKeyValue (ue 70) 1 true)).map (·.configured noPunning))) =
        some (.internalError, some true) ∧
      found [.configReq (ue 70) true .add 1 (.am ⟨4, 1024, 10000, 45, 35, 0⟩)]
        [rlcCollKeyValue (ue 70) 1 true] = some [some false] := by
  refine ⟨?_, ?_, ?_⟩ <;> decide +kernel

end MacRlcSplit.Rlc
