-- Runs of reconfigurations and completions: the radio bearers of the first
-- completion are set up and marked, while a later one switches them off.
import MacRlcSplit.Rlc.Bearers
import MacRlcSplit.Rrc.Activation

namespace MacRlcSplit.Rrc.Activation

open Lib Function List Option
open Pdcp (Ctxt NB_RB_MAX collKey_inj)
open Rlc (Coll Punning rlcCollKeyValue)

/-! ## The radio bearers of a transaction -/

/-- A radio bearer as the two generators of reconfigurations make it, among the first eight. -/
structure WellFormed (drb : DrbToAddMod) : Prop where
  low : 1 ≤ drb.drb_Identity
  high : drb.drb_Identity ≤ maxActive
  lcid : drb.logicalChannelIdentity = drb.drb_Identity + 2
  group : drb.logicalChannelGroup = 1
  config : drb.rlc_Config = Erabs.umConfig ∨ drb.rlc_Config = Erabs.amConfig

theorem defaultDrb_wellFormed : WellFormed Erabs.defaultDrb :=
  ⟨le_rfl, by decide, rfl, rfl, .inl rfl⟩

theorem rlcConfigOfQci_cases {qci : Nat} {config : Rlc.RlcConfig}
    (h : Erabs.rlcConfigOfQci qci = some config) :
    config = Erabs.umConfig ∨ config = Erabs.amConfig := by
  unfold Erabs.rlcConfigOfQci at h
  split at h
  · cases h
    exact .inl rfl
  · split at h
    · cases h
      exact .inr rfl
    · cases h

/-- The loop over the E-RABs before its turn for the `i`-th one. -/
structure Turning (ue : Erabs) (i : Nat) (x : Erabs.DedicatedLoop) : Prop where
  setup : x.ue.setup_e_rabs = ue.setup_e_rabs
  nb : x.ue.nb_of_e_rabs = ue.nb_of_e_rabs
  some_list : x.ue.DRB_configList ≠ none
  counters : x.drb_identity_index + x.e_rab_done ≤ i
  lists : ∀ xid, ∀ drb ∈ x.ue.DRB_configList2 xid, WellFormed drb

variable {ue : Erabs} {l : List DrbToAddMod}

theorem Turning.turn {i : Nat} {x : Erabs.DedicatedLoop} (h : Turning ue i x) (hi : i < maxActive)
    (xid : Nat) : ∃ y, Erabs.dedicatedTurn xid x i = some y ∧ Turning ue (i + 1) y := by
  obtain ⟨l, hl⟩ := ne_none_iff_exists'.1 h.some_list
  have hcounters := h.counters
  unfold Erabs.dedicatedTurn
  by_cases hnew : (x.ue.e_rab i).status = .new
  · rw [if_pos hnew]
    cases hqci : Erabs.rlcConfigOfQci (x.ue.e_rab i).param.qci with
    | none => exact ⟨_, rfl, h.setup, h.nb, h.some_list, Nat.le_succ_of_le hcounters, h.lists⟩
    | some rlc_Config =>
      simp only [hl, map_some]
      refine ⟨_, rfl, h.setup, h.nb, some_ne_none _, ?_, forall_mem_update h.lists xid ?_⟩
      · dsimp only
        omega
      · refine forall_mem_append.2 ⟨h.lists _, forall_mem_singleton.2 ?_⟩
        refine ⟨?_, ?_, rfl, rfl, rlcConfigOfQci_cases hqci⟩ <;> dsimp only <;> omega
  · rw [if_neg hnew]
    refine ⟨_, rfl, h.setup, h.nb, h.some_list, ?_, h.lists⟩
    dsimp only
    omega

theorem Turning.run {i : Nat} {x : Erabs.DedicatedLoop} (h : Turning ue i x) (xid k : Nat)
    (hk : i + k ≤ maxActive) :
    ∃ y, Lib.run (Erabs.dedicatedTurn xid) x (range' i k) = some y ∧ Turning ue (i + k) y := by
  induction k generalizing i x with
  | zero => exact ⟨x, rfl, h⟩
  | succ k ih =>
    obtain ⟨y, hy, hturn⟩ := h.turn (by omega) xid
    obtain ⟨z, hz, hrest⟩ := ih hturn (by omega)
    exact ⟨z, run_cons.2 ⟨y, hy, hz⟩, by rwa [add_right_comm, add_assoc] at hrest⟩

theorem generateDedicated_lists (ue : Erabs) (xid : Nat) (hsetup : ue.setup_e_rabs ≤ maxActive)
    (hsome : ue.DRB_configList ≠ none)
    (hlists : ∀ xid, ∀ drb ∈ ue.DRB_configList2 xid, WellFormed drb) :
    ∃ ue', ue.generateDedicated xid = some ue' ∧ ue'.setup_e_rabs = ue.setup_e_rabs ∧
      ue'.nb_of_e_rabs = ue.nb_of_e_rabs ∧ ∀ xid, ∀ drb ∈ ue'.DRB_configList2 xid,
      WellFormed drb := by
  have hstart :
      Turning ue 0 { ue := { ue with DRB_configList2 := update ue.DRB_configList2 xid [] } } :=
    ⟨rfl, rfl, hsome, le_rfl, forall_mem_update hlists xid (by simp)⟩
  obtain ⟨y, hy, hturn⟩ := hstart.run xid ue.setup_e_rabs (by omega)
  have hmax : maxActive ≤ NB_RB_MAX := by decide
  refine ⟨y.ue, ?_, hturn.setup, hturn.nb, hturn.lists⟩
  rw [Erabs.generateDedicated, if_pos (le_trans hsetup hmax)]
  show (Lib.run (Erabs.dedicatedTurn xid) _ (List.range ue.setup_e_rabs)).map _ = _
  rw [range_eq_range', hy, map_some]

/-! ## The RLC entities -/

variable {pun : Punning} {ctxt : Ctxt} {coll : Coll}

abbrev drbKey (ctxt : Ctxt) (rb_id : Nat) : Nat := rlcCollKeyValue ctxt rb_id false

theorem drbKey_ne {rb_id rb_id' : Nat} (h : rb_id ≤ maxActive) (h' : rb_id' ≤ maxActive)
    (hne : rb_id ≠ rb_id') : drbKey ctxt rb_id ≠ drbKey ctxt rb_id' := fun heq => by
  have hmax : maxActive < 2 ^ 8 := by decide
  exact hne (collKey_inj (by omega) (by omega) heq).2.1

theorem modifyRlc_at {k : Nat} {u : Rlc.RlcUnion} (hu : coll k = some u) (f : Rlc.Body → Rlc.Body) :
    Rlc.modifyRlc coll k f k = some { u with body := f u.body } := by
  rw [Rlc.modifyRlc, hu]
  exact update_self _ _ _

theorem configureRlc_blank {drb : DrbToAddMod} {mode : Pdcp.RlcMode} (pun : Punning)
    (hwf : WellFormed drb) (hmode : drb.rlc_Config.mode = some mode)
    (hblank : coll (drbKey ctxt drb.drb_Identity) = some ⟨mode, .blank⟩) :
    ∃ coll', Rlc.configureRlc pun coll ctxt false drb.drb_Identity drb.rlc_Config = some coll' ∧
      (coll' (drbKey ctxt drb.drb_Identity)).any (·.configured pun) = true := by
  rcases hwf.config with hum | ham
  · rw [hum] at hmode ⊢
    cases hmode
    refine ⟨_, by rw [Erabs.umConfig, Rlc.configureRlc, Rlc.configReqRlcUmAsn1, hblank]; rfl, ?_⟩
    rw [modifyRlc_at hblank]
    cases ctxt with
    | mk module_id rnti enb_flag => cases enb_flag <;> rfl
  · rw [ham] at hmode ⊢
    cases hmode
    refine ⟨_, rfl, ?_⟩
    rw [Rlc.configReqRlcAmAsn1, modifyRlc_at hblank]
    rfl

theorem addMod_new {drb : DrbToAddMod} (pun : Punning) (hwf : WellFormed drb)
    (hnone : coll (drbKey ctxt drb.drb_Identity) = none) :
    ∃ coll', Rlc.addMod pun ctxt false coll drb.drb_Identity drb.rlc_Config = some coll' ∧
      (coll' (drbKey ctxt drb.drb_Identity)).any (·.configured pun) = true ∧
      ∀ k ≠ drbKey ctxt drb.drb_Identity, coll' k = coll k := by
  obtain ⟨mode, hmode⟩ : ∃ mode, drb.rlc_Config.mode = some mode := by
    rcases hwf.config with hum | ham
    · exact ⟨_, by rw [hum]; rfl⟩
    · exact ⟨_, by rw [ham]; rfl⟩
  have hin : drb.drb_Identity < NB_RB_MAX ∧ drb.drb_Identity + 2 < Rlc.RLC_MAX_LC := by
    have hhigh : drb.drb_Identity ≤ 8 := hwf.high
    exact ⟨show _ < 14 by omega, show _ < 528 by omega⟩
  obtain ⟨coll', hcoll', hconfigured⟩ := configureRlc_blank pun hwf hmode
    (update_self (drbKey ctxt drb.drb_Identity) (some ⟨mode, .blank⟩) coll)
  refine ⟨coll', ?_, hconfigured, fun k hk => ?_⟩
  · simp only [Rlc.addMod, hmode, Rlc.rrcRlcAddRlc, if_pos hin, hnone, bind_some, if_true]
    exact hcoll'
  · rw [(Rlc.configureRlc_spec hcoll').2 k hk, update_of_ne hk]

theorem addDrbs_new (pun : Punning) (hwf : ∀ drb ∈ l, WellFormed drb)
    (hids : (l.map DrbToAddMod.drb_Identity).Nodup)
    (hnone : ∀ drb ∈ l, coll (drbKey ctxt drb.drb_Identity) = none) :
    ∃ drb2add coll', l.mapM DrbToAddMod.toRlc = some drb2add ∧
      drb2add.foldlM (Rlc.addDrb pun ctxt) coll = some coll' ∧
      (∀ drb ∈ l, (coll' (drbKey ctxt drb.drb_Identity)).any (·.configured pun) = true) ∧
      ∀ k, (∀ drb ∈ l, k ≠ drbKey ctxt drb.drb_Identity) → coll' k = coll k := by
  induction l generalizing coll with
  | nil => exact ⟨[], coll, rfl, rfl, by simp, fun _ _ => rfl⟩
  | cons drb l ih =>
    rw [forall_mem_cons] at hwf hnone
    obtain ⟨hnot, hids⟩ := nodup_cons.1 hids
    have hdiff : ∀ x ∈ l, drbKey ctxt x.drb_Identity ≠ drbKey ctxt drb.drb_Identity := fun x hx =>
      drbKey_ne (hwf.2 x hx).high hwf.1.high fun heq => hnot (heq ▸ List.mem_map_of_mem hx)
    obtain ⟨coll₁, hadd, hconfigured, hframe₁⟩ := addMod_new pun hwf.1 hnone.1
    have hnone₁ : ∀ x ∈ l, coll₁ (drbKey ctxt x.drb_Identity) = none := fun x hx => by
      rw [hframe₁ _ (hdiff x hx)]
      exact hnone.2 x hx
    obtain ⟨drb2add, coll', hmap, hfold, hall, hframe⟩ := ih hwf.2 hids hnone₁
    have hrange : 1 ≤ drb.drb_Identity ∧ drb.drb_Identity ≤ 32 :=
      ⟨hwf.1.low, le_trans hwf.1.high (by decide)⟩
    refine ⟨⟨⟨drb.drb_Identity, hrange⟩, some drb.rlc_Config⟩ :: drb2add, coll', ?_, ?_, ?_,
      fun k hk => ?_⟩
    · rw [mapM_cons, DrbToAddMod.toRlc, dif_pos hrange, hmap]
      rfl
    · exact bind_eq_some_iff.2 ⟨coll₁, hadd, hfold⟩
    · rw [forall_mem_cons]
      refine ⟨?_, hall⟩
      rwa [hframe _ fun x hx heq => hdiff x hx heq.symm]
    · rw [forall_mem_cons] at hk
      rw [hframe k hk.2, hframe₁ k hk.1]

abbrev srb2Key (ctxt : Ctxt) : Nat := rlcCollKeyValue ctxt 2 true

theorem drbKey_ne_srb2 {rb_id : Nat} (h : rb_id ≤ maxActive) : drbKey ctxt rb_id ≠ srb2Key ctxt :=
  fun heq => by
  have hmax : maxActive < 2 ^ 8 := by decide
  exact Bool.false_ne_true (collKey_inj (by omega) (by decide) heq).2.2

/-- The signalling bearer 2 is added or configured again, as long as its entity is in its mode. -/
theorem addSrb_srb2 (pun : Punning) (hmode : ∀ u, coll (srb2Key ctxt) = some u → u.mode = .am) :
    ∃ coll', Rlc.addSrb pun ctxt coll srb2 = some coll' ∧
      (∀ u, coll' (srb2Key ctxt) = some u → u.mode = .am) ∧
      ∀ k ≠ srb2Key ctxt, coll' k = coll k := by
  obtain ⟨r, hadd⟩ : ∃ r, Rlc.rrcRlcAddRlc coll ctxt true 2 (2 + 2) .am = some r := by
    rw [Rlc.rrcRlcAddRlc]
    cases hu : coll (srb2Key ctxt) with
    | none => exact ⟨_, rfl⟩
    | some u => exact ⟨_, if_pos (hmode u hu)⟩
  obtain ⟨-, htrue, -, hframe, hat⟩ := Rlc.rrcRlcAddRlc_spec hadd
  refine ⟨_, by
    show (Rlc.rrcRlcAddRlc coll ctxt true 2 (2 + 2) .am).bind _ = _
    rw [hadd, bind_some, htrue]
    rfl, fun u hu => ?_, fun k hk => ?_⟩
  · change Rlc.modifyRlc r.1 (rlcCollKeyValue ctxt 2 true) _ _ = some u at hu
    rw [modifyRlc_at hat] at hu
    cases hu
    cases hold : coll (srb2Key ctxt) with
    | none => rfl
    | some u => exact hmode u hold
  · exact ((Rlc.modifyRlc_spec _ _ _).2 k hk).trans (hframe k hk)

theorem addSrbs (pun : Punning) {l : List Rlc.SrbToAddMod} (hl : ∀ x ∈ l, x = srb2)
    (hmode : ∀ u, coll (srb2Key ctxt) = some u → u.mode = .am) :
    ∃ coll', l.foldlM (Rlc.addSrb pun ctxt) coll = some coll' ∧
      (∀ u, coll' (srb2Key ctxt) = some u → u.mode = .am) ∧ ∀ k ≠ srb2Key ctxt,
      coll' k = coll k := by
  induction l generalizing coll with
  | nil => exact ⟨coll, rfl, hmode, fun _ _ => rfl⟩
  | cons x l ih =>
    rw [forall_mem_cons] at hl
    obtain ⟨coll₁, hadd, hmode₁, hframe₁⟩ := addSrb_srb2 pun hmode
    obtain ⟨coll', hfold, hmode', hframe⟩ := ih hl.2 hmode₁
    refine ⟨coll', ?_, hmode', fun k hk => by rw [hframe k hk, hframe₁ k hk]⟩
    rw [hl.1]
    exact bind_eq_some_iff.2 ⟨coll₁, hadd, hfold⟩

/-! ## The loop of a completion -/

variable {s : State}

theorem completeTurn_run (pun : Punning) (ctxt : Ctxt) (k : Nat) (hwf : ∀ drb ∈ l, WellFormed drb)
    (hk : k + l.length ≤ maxActive) (hfree : ∀ i, k ≤ i → i < k + l.length → s.DRB_active i = 0) :
    ∃ t, run (completeTurn pun ctxt) s (l.zipIdx k) = some t ∧ t.ue = s.ue ∧
      t.SRB_configList2 = s.SRB_configList2 ∧ t.coll = s.coll ∧
      (∀ i, t.DRB_active i = if k ≤ i ∧ i < k + l.length then 1 else s.DRB_active i) ∧
      (∀ drb ∈ l, t.lcgidmap drb.logicalChannelIdentity = 1) ∧ ∀ lcid, s.lcgidmap lcid = 1 →
      t.lcgidmap lcid = 1 := by
  induction l generalizing s k with
  | nil => exact ⟨s, rfl, rfl, rfl, rfl, fun i => (if_neg (by simp)).symm, by simp, fun _ h => h⟩
  | cons drb l ih =>
    rw [forall_mem_cons] at hwf
    rw [length_cons] at hk hfree
    have hlow : k < maxActive := by omega
    have hzero : s.DRB_active k = 0 := hfree k le_rfl (by omega)
    have hlchan : drb.logicalChannelIdentity % 2 ^ 8 = drb.logicalChannelIdentity ∧
        drb.logicalChannelIdentity < maxLcid := by
      have hhigh : drb.drb_Identity ≤ 8 := hwf.1.high
      rw [hwf.1.lcid]
      exact ⟨Nat.mod_eq_of_lt (by omega), show _ < 11 by omega⟩
    have hturn : completeTurn pun ctxt s (drb, k) = some { s with
        DRB_active := update s.DRB_active k 1
        DRB2LCHAN := update s.DRB2LCHAN k drb.logicalChannelIdentity
        lcgidmap := update s.lcgidmap drb.logicalChannelIdentity 1 } := by
      simp only [completeTurn, if_pos hlow, if_pos hzero, rrcMacConfigReq, hlchan.1,
        if_pos hlchan.2, hwf.1.group]
    obtain ⟨t, ht, hue, hsrb, hcoll, hactive, hmac, hkept⟩ :=
      ih (k + 1) hwf.2 (by omega) (s := { s with
        DRB_active := update s.DRB_active k 1
        DRB2LCHAN := update s.DRB2LCHAN k drb.logicalChannelIdentity
        lcgidmap := update s.lcgidmap drb.logicalChannelIdentity 1 }) fun i hle hlt => by
      show update s.DRB_active k 1 i = 0
      rw [update_of_ne (by omega)]
      exact hfree i (by omega) (by omega)
    refine ⟨t, run_cons.2 ⟨_, hturn, ht⟩, hue, hsrb, hcoll, fun i => ?_, ?_, fun lcid hlcid => ?_⟩
    · rw [hactive i, length_cons]
      show (if _ then 1 else update s.DRB_active k 1 i) = _
      rcases lt_trichotomy i k with hi | rfl | hi
      · rw [if_neg (by omega), if_neg (by omega), update_of_ne (by omega)]
      · rw [if_neg (by omega), if_pos (by omega), update_self]
      · rw [update_of_ne (by omega)]
        exact if_congr (by omega) rfl rfl
    · rw [forall_mem_cons]
      exact ⟨hkept _ (update_self _ _ _), hmac⟩
    · refine hkept lcid ?_
      show update s.lcgidmap _ 1 lcid = 1
      by_cases heq : lcid = drb.logicalChannelIdentity
      · rw [heq, update_self]
      · rw [update_of_ne heq]
        exact hlcid

/-! ## What stays true -/

/-- What the UE has in the RLC before its first reconfiguration: no radio bearer, and the signalling
bearer 2 at most in its mode. -/
def NoDrbs (ctxt : Ctxt) (coll : Coll) : Prop :=
  (∀ rb_id ≤ maxActive, coll (drbKey ctxt rb_id) = none) ∧ ∀ u, coll (srb2Key ctxt) = some u →
  u.mode = .am

/-- The radio bearers added so far are configured and marked, and the other ones have no entity. -/
structure Inv (pun : Punning) (ctxt : Ctxt) (s : State) : Prop where
  setup : s.ue.setup_e_rabs ≤ maxActive
  nb : s.ue.nb_of_e_rabs ≤ maxActive
  lists : ∀ xid, ∀ drb ∈ s.ue.DRB_configList2 xid, WellFormed drb
  srbs : ∀ xid, ∀ x ∈ s.SRB_configList2 xid, x = srb2
  srb_mode : ∀ u, s.coll (srb2Key ctxt) = some u → u.mode = .am
  added : ∀ drb ∈ s.added, WellFormed drb
  rlc : ∀ drb ∈ s.added, (s.coll (drbKey ctxt drb.drb_Identity)).any (·.configured pun) = true
  mac : ∀ drb ∈ s.added, s.lcgidmap drb.logicalChannelIdentity = drb.logicalChannelGroup
  free : ∀ rb_id ≤ maxActive, rb_id ∉ s.added.map DrbToAddMod.drb_Identity →
    s.coll (drbKey ctxt rb_id) = none
  active : ∀ i < maxActive, s.DRB_active i = if i + 1 ∈
    s.added.map DrbToAddMod.drb_Identity then 1 else 0

theorem inv_start (pun : Punning) (hcoll : NoDrbs ctxt coll) : Inv pun ctxt { coll := coll } where
  setup := Nat.zero_le _
  nb := Nat.zero_le _
  lists xid drb h := by cases h
  srbs xid x h := by cases h
  srb_mode := hcoll.2
  added drb h := by cases h
  rlc drb h := by cases h
  mac drb h := by cases h
  free rb_id hle _ := hcoll.1 rb_id hle
  active i _ := rfl

/-- Requests for eight E-RABs at most, the default radio bearer before the others. -/
def Proper (s : State) : Event → Prop
  | .request (.initialContextSetup setups) _ _ => s.ue.setup_e_rabs + setups.length ≤ maxActive
  | .request (.eRabSetup setups) _ _ =>
    s.ue.DRB_configList ≠ none ∧ s.ue.setup_e_rabs + setups.length ≤ maxActive
  | .defaultReconfiguration _ => True
  | .complete _ => True
  | .answered _ => True
  | .others _ => True

instance (s : State) (e : Event) : Decidable (Proper s e) := by
  rcases e with (_ | _) | _ | _ | _ | _ <;> unfold Proper <;> infer_instance

/-- A completion finds every radio bearer of its transaction in the place that its number has, and
the place free: it is the first one with radio bearers. -/
def InPlace (s : State) : Event → Prop
  | .complete xid => ∀ x ∈ (s.ue.DRB_configList2 xid).zipIdx, x.1.drb_Identity = x.2 + 1 ∧
  s.DRB_active x.2 = 0
  | _ => True

instance (s : State) (e : Event) : Decidable (InPlace s e) := by
  cases e <;> unfold InPlace <;> infer_instance

theorem Inv.withUe (h : Inv pun ctxt s) (hsetup : ue.setup_e_rabs ≤ maxActive)
    (hnb : ue.nb_of_e_rabs ≤ maxActive)
    (hlists : ∀ xid, ∀ drb ∈ ue.DRB_configList2 xid, WellFormed drb) :
    Inv pun ctxt { s with ue := ue } :=
  ⟨hsetup, hnb, hlists, h.srbs, h.srb_mode, h.added, h.rlc, h.mac, h.free, h.active⟩

theorem Inv.initialContextSetup (h : Inv pun ctxt s) {setups : List Erabs.Setup}
    (enb_addr : List Nat) (xid : Nat) (hproper : s.ue.setup_e_rabs + setups.length ≤ maxActive) :
    ∃ t, step pun ctxt s (.request (.initialContextSetup setups) enb_addr xid) = some t ∧
    Inv pun ctxt t := by
  have hmax : maxActive ≤ S1AP_MAX_E_RAB := by decide
  have hlen : (setups.map Erabs.Setup.param).length = setups.length := length_map _
  obtain ⟨e_rab, enb_gtp, -, hreq⟩ :=
    Erabs.initialContextSetupReq_within s.ue (setups.map Erabs.Setup.param)
    (Erabs.response setups enb_addr) (by omega) (by rw [Erabs.response_length]; omega)
  refine ⟨_, Option.map_eq_some_iff.2 ⟨_, Erabs.requestAndConfigure_initial hreq xid, rfl⟩, ?_⟩
  refine h.withUe ?_ ?_ h.lists
  · dsimp only
    omega
  · dsimp only
    omega

theorem Inv.defaultReconfiguration (h : Inv pun ctxt s) (xid : Nat) :
    ∃ t, step pun ctxt s (.defaultReconfiguration xid) = some t ∧ Inv pun ctxt t := by
  have hmax : maxActive ≤ NB_RB_MAX := by decide
  refine ⟨_, by rw [step, Erabs.generateDefault, if_pos (le_trans h.nb hmax)]; rfl, ?_⟩
  exact { h with
    setup := h.setup
    nb := h.nb
    lists := forall_mem_update h.lists xid (forall_mem_singleton.2 defaultDrb_wellFormed)
    srbs := forall_mem_update h.srbs xid (forall_mem_singleton.2 rfl) }

theorem Inv.eRabSetup (h : Inv pun ctxt s) {setups : List Erabs.Setup} (enb_addr : List Nat)
    (xid : Nat) (hlist : s.ue.DRB_configList ≠ none)
    (hsetup : s.ue.setup_e_rabs + setups.length ≤ maxActive) :
    ∃ t, step pun ctxt s (.request (.eRabSetup setups) enb_addr xid) = some t ∧ Inv pun ctxt t := by
  have hmax : maxActive ≤ S1AP_MAX_E_RAB := by decide
  have hlen : (setups.map Erabs.Setup.param).length = setups.length := length_map _
  obtain ⟨e_rab, enb_gtp, -, hreq⟩ := Erabs.eRabSetupReq_within s.ue (setups.map Erabs.Setup.param)
    (Erabs.response setups enb_addr) (by omega) (Erabs.response_length setups enb_addr)
  rw [hlen] at hreq
  obtain ⟨ue, hdedicated, hue, hnb, hlists⟩ := generateDedicated_lists
    { s.ue with
      setup_e_rabs := s.ue.setup_e_rabs + setups.length, nb_of_e_rabs := setups.length, e_rab :=
        e_rab,
      enb_gtp := enb_gtp } xid hsetup hlist h.lists
  refine ⟨{ s with ue := ue }, ?_, h.withUe (hue ▸ hsetup) ?_ hlists⟩
  · exact Option.map_eq_some_iff.2 ⟨ue, Erabs.requestAndConfigure_eRab hreq hdedicated, rfl⟩
  · rw [hnb]
    exact le_trans (Nat.le_add_left _ _) hsetup

theorem ids_of_inPlace (h : ∀ x ∈ l.zipIdx, x.1.drb_Identity = x.2 + 1) :
    l.map DrbToAddMod.drb_Identity = (List.range l.length).map (· + 1) := by
  refine ext_getElem (by simp) fun i hi hi' => ?_
  rw [length_map] at hi
  have hmem : (l[i], i) ∈ l.zipIdx := mk_mem_zipIdx_iff_getElem?.2 (getElem?_eq_getElem hi)
  simpa using h _ hmem

theorem Inv.configAsn1Req (h : Inv pun ctxt s) (xid : Nat)
    (hids : ((s.ue.DRB_configList2 xid).map DrbToAddMod.drb_Identity).Nodup)
    (hnew : ∀ drb ∈ s.ue.DRB_configList2 xid,
      drb.drb_Identity ∉ s.added.map DrbToAddMod.drb_Identity) :
    ∃ drb2add r, (s.ue.DRB_configList2 xid).mapM DrbToAddMod.toRlc = some drb2add ∧
      Rlc.rrcRlcConfigAsn1Req pun s.coll ctxt { srb2add := s.SRB_configList2 xid, drb2add :=
        drb2add } = some r ∧
      (∀ u, r.1 (srb2Key ctxt) = some u → u.mode = .am) ∧
      (∀ drb ∈ s.ue.DRB_configList2 xid,
        (r.1 (drbKey ctxt drb.drb_Identity)).any (·.configured pun) = true) ∧
      ∀ rb_id ≤ maxActive, rb_id ∉ (s.ue.DRB_configList2 xid).map DrbToAddMod.drb_Identity →
        r.1 (drbKey ctxt rb_id) = s.coll (drbKey ctxt rb_id) := by
  obtain ⟨coll₁, hsrbs, hmode₁, hframe₁⟩ := addSrbs pun (h.srbs xid) h.srb_mode
  have hnone : ∀ drb ∈ s.ue.DRB_configList2 xid, coll₁ (drbKey ctxt drb.drb_Identity) = none :=
    fun drb hdrb => by
    have hhigh := (h.lists xid drb hdrb).high
    rw [hframe₁ _ (drbKey_ne_srb2 hhigh)]
    exact h.free _ hhigh (hnew drb hdrb)
  obtain ⟨drb2add, coll₂, hmap, hdrbs, hconfigured, hframe₂⟩ :=
    addDrbs_new pun (h.lists xid) hids hnone
  refine ⟨drb2add, (coll₂, .ok), hmap, ?_, ?_, hconfigured, fun rb_id hle hnot => ?_⟩
  · simp only [Rlc.rrcRlcConfigAsn1Req, hsrbs, bind_eq_bind, bind_some, hdrbs]
    rfl
  · dsimp only
    rwa [hframe₂ _ fun drb hdrb => (drbKey_ne_srb2 (h.lists xid drb hdrb).high).symm]
  · have hdiff : ∀ drb ∈ s.ue.DRB_configList2 xid, drbKey ctxt rb_id ≠
        drbKey ctxt drb.drb_Identity := fun drb hdrb =>
      drbKey_ne hle (h.lists xid drb hdrb).high fun heq => hnot (heq ▸ List.mem_map_of_mem hdrb)
    dsimp only
    rw [hframe₂ _ hdiff, hframe₁ _ (drbKey_ne_srb2 hle)]

/-- What it means that a transaction is in place: its radio bearers are the first ones, and none was
added before. -/
theorem Inv.first (h : Inv pun ctxt s) {xid : Nat} (hplace : InPlace s (.complete xid)) :
    (s.ue.DRB_configList2 xid).length ≤ maxActive ∧
      (∀ i, i + 1 ∈ (s.ue.DRB_configList2 xid).map DrbToAddMod.drb_Identity ↔
        i < (s.ue.DRB_configList2 xid).length) ∧
      (∀ i < (s.ue.DRB_configList2 xid).length, s.DRB_active i = 0) ∧
      ((s.ue.DRB_configList2 xid).map DrbToAddMod.drb_Identity).Nodup ∧
      ∀ drb ∈ s.ue.DRB_configList2 xid, drb.drb_Identity ∉
        s.added.map DrbToAddMod.drb_Identity := by
  have hids := ids_of_inPlace fun x hx => (hplace x hx).1
  have hmem : ∀ i, i + 1 ∈ (s.ue.DRB_configList2 xid).map DrbToAddMod.drb_Identity ↔
      i < (s.ue.DRB_configList2 xid).length := fun i => by
    rw [hids]
    simp
  have hlength : (s.ue.DRB_configList2 xid).length ≤ maxActive := by
    rcases Nat.eq_zero_or_pos (s.ue.DRB_configList2 xid).length with hzero | hpos
    · omega
    · obtain ⟨drb, hdrb, hlast⟩ :=
        List.mem_map.1 ((hmem ((s.ue.DRB_configList2 xid).length - 1)).2 (by omega))
      have hhigh := (h.lists xid drb hdrb).high
      omega
  have hfree : ∀ i < (s.ue.DRB_configList2 xid).length, s.DRB_active i = 0 := fun i hi =>
    (hplace _ (mk_mem_zipIdx_iff_getElem?.2 (getElem?_eq_getElem hi))).2
  refine ⟨hlength, hmem, hfree, ?_, fun drb hdrb hold => ?_⟩
  · rw [hids]
    exact nodup_range.map (add_left_injective 1)
  · obtain ⟨i, hi⟩ := Nat.exists_eq_add_of_le' (h.lists xid drb hdrb).low
    have hlt : i < (s.ue.DRB_configList2 xid).length := (hmem i).1 (hi ▸ List.mem_map_of_mem hdrb)
    have hactive := h.active i (by omega)
    rw [if_pos (hi ▸ hold), hfree i hlt] at hactive
    cases hactive

theorem Inv.complete (h : Inv pun ctxt s) (xid : Nat) (hplace : InPlace s (.complete xid)) :
    ∃ t, step pun ctxt s (.complete xid) = some t ∧ Inv pun ctxt t := by
  obtain ⟨hlength, hmem, hfree, hnodup, hnew⟩ := h.first hplace
  obtain ⟨drb2add, r, hmap, hasn1, hmode, hconfigured, hframe⟩ := h.configAsn1Req xid hnodup hnew
  obtain ⟨t, ht, hue, hsrbs, hcoll, hactive, hmac, hkept⟩ := completeTurn_run pun ctxt
    (s := { s with coll := r.1 }) 0 (h.lists xid) (by omega) fun i _ hi => hfree i (by omega)
  dsimp only at hue hsrbs hcoll hactive hkept
  refine ⟨{ t with added := s.added ++ s.ue.DRB_configList2 xid }, ?_, ?_⟩
  · simp only [step, processReconfigurationComplete, hmap, bind_eq_bind, bind_some, hasn1, ht,
      map_some]
  have hwf : ∀ drb ∈ s.added ++ s.ue.DRB_configList2 xid, WellFormed drb :=
    forall_mem_append.2 ⟨h.added, h.lists xid⟩
  have hmac' : ∀ drb ∈ s.added ++ s.ue.DRB_configList2 xid,
      t.lcgidmap drb.logicalChannelIdentity = 1 :=
    forall_mem_append.2 ⟨fun drb hdrb => hkept _ ((h.mac drb hdrb).trans (h.added drb hdrb).group),
      hmac⟩
  exact {
    setup := show t.ue.setup_e_rabs ≤ _ from hue ▸ h.setup
    nb := show t.ue.nb_of_e_rabs ≤ _ from hue ▸ h.nb
    lists := show ∀ xid, ∀ drb ∈ t.ue.DRB_configList2 xid, _ from hue ▸ h.lists
    srbs := show ∀ xid, ∀ x ∈ t.SRB_configList2 xid, _ from hsrbs ▸ h.srbs
    srb_mode := show ∀ u, t.coll _ = some u → _ from hcoll ▸ hmode
    added := hwf
    rlc := forall_mem_append.2 ⟨fun drb hdrb => by
      show (t.coll _).any _
      rw [hcoll, hframe _ (h.added drb hdrb).high fun hin => by
        obtain ⟨x, hx, heq⟩ := List.mem_map.1 hin
        exact hnew x hx (heq ▸ List.mem_map_of_mem hdrb)]
      exact h.rlc drb hdrb, show ∀ drb ∈ _, (t.coll _).any _ from hcoll ▸ hconfigured⟩
    mac := fun drb hdrb => (hmac' drb hdrb).trans (hwf drb hdrb).group.symm
    free := fun rb_id hle hnot => by
      rw [map_append, mem_append, not_or] at hnot
      show t.coll _ = none
      rw [hcoll, hframe rb_id hle hnot.2]
      exact h.free rb_id hle hnot.1
    active := fun i hi => by
      show t.DRB_active i = _
      rw [hactive i, map_append]
      simp only [mem_append, hmem i]
      by_cases hlt : i < (s.ue.DRB_configList2 xid).length
      · rw [if_pos ⟨Nat.zero_le i, by omega⟩, if_pos (.inr hlt)]
      · rw [if_neg (by omega), h.active i hi]
        exact if_congr (by simp [hlt]) rfl rfl }

/-- A step in its place goes through, and what was added stays configured. -/
theorem Inv.step (h : Inv pun ctxt s) (e : Event) (hproper : Proper s e) (hplace : InPlace s e) :
    ∃ t, step pun ctxt s e = some t ∧ Inv pun ctxt t := by
  cases e with
  | request req enb_addr xid =>
    cases req with
    | initialContextSetup setups => exact h.initialContextSetup enb_addr xid hproper
    | eRabSetup setups => exact h.eRabSetup enb_addr xid hproper.1 hproper.2
  | defaultReconfiguration xid => exact h.defaultReconfiguration xid
  | complete xid => exact h.complete xid hplace
  | answered mark => exact ⟨_, rfl, h.withUe h.setup h.nb h.lists⟩
  | others DRB2LCHAN => exact ⟨_, rfl, { h with }⟩

/-- The DRBs that the eNB has told a UE to add are configured at RLC and MAC after every run, and
`DRB_active` marks these and no others. -/
theorem added_drbs_stay_configured (pun : Punning) (ctxt : Ctxt) (coll : Coll) (es : List Event)
    (hcoll : NoDrbs ctxt coll) (hproper : Meets (step pun ctxt) Proper { coll := coll } es)
    (hplace : Meets (step pun ctxt) InPlace { coll := coll } es) :
    ∃ t, run (step pun ctxt) { coll := coll } es = some t ∧
      (∀ drb ∈ t.added,
        (t.coll (rlcCollKeyValue ctxt drb.drb_Identity false)).any (·.configured pun) = true ∧
        t.lcgidmap drb.logicalChannelIdentity = drb.logicalChannelGroup) ∧
      ∀ i < maxActive, t.DRB_active i = 1 ↔ ∃ drb ∈ t.added, drb.drb_Identity = i + 1 := by
  obtain ⟨t, ht, hinv⟩ :=
    run_survives (fun s e hs he => Inv.step hs e he.1 he.2) (inv_start pun hcoll)
    (hproper.and hplace)
  refine ⟨t, ht, fun drb hdrb => ⟨hinv.rlc drb hdrb, hinv.mac drb hdrb⟩, fun i hi => ?_⟩
  rw [hinv.active i hi]
  simp

def bestEffort (e_rab_id teid : Nat) : Erabs.Setup := ⟨{ e_rab_id := e_rab_id, qci := 9 }, teid⟩

def defaultOnly : List Event :=
  [.request (.initialContextSetup [bestEffort 5 100]) [] 0, .defaultReconfiguration 0, .complete 0]

def twoDedicated : List Event :=
  defaultOnly ++ [.request (.eRabSetup [bestEffort 6 101, bestEffort 7 102]) [] 1, .complete 1]

theorem noDrbs_empty (ctxt : Ctxt) : NoDrbs ctxt fun _ => none :=
  ⟨fun _ _ => rfl, fun _ h => by cases h⟩

theorem defaultOnly_configured :
    ∃ t, run (step Rlc.noPunning (Rlc.ue 70)) { coll := fun _ => none } defaultOnly = some t ∧
      t.DRB_active 0 = 1 ∧
      (t.coll (rlcCollKeyValue (Rlc.ue 70) 1 false)).any (·.configured Rlc.noPunning) = true ∧
      t.lcgidmap 3 = 1 := by
  obtain ⟨t, ht, hadded⟩ : ∃ t,
      run (step Rlc.noPunning (Rlc.ue 70)) { coll := fun _ => none } defaultOnly = some t ∧
      t.added = [Erabs.defaultDrb] := run_decided (by decide +kernel)
  obtain ⟨u, hu, hconfigured, hactive⟩ :=
    added_drbs_stay_configured Rlc.noPunning (Rlc.ue 70) (fun _ => none) defaultOnly
    (noDrbs_empty _) (by decide +kernel) (by decide +kernel)
  rw [ht] at hu
  cases hu
  have hdefault : Erabs.defaultDrb ∈ t.added := by rw [hadded]; exact mem_singleton_self _
  obtain ⟨hrlc, hmac⟩ := hconfigured _ hdefault
  exact ⟨t, ht, (hactive 0 (by decide)).2 ⟨_, hdefault, rfl⟩, hrlc, hmac⟩

/-- The default radio bearer is completed, then two dedicated ones are. The first of these has the
place of the default one, which is no longer marked; its own channel is not set up, and as the
channel of the default one is 3, the entity of the radio bearer 3 is removed. -/
theorem a_completion_takes_drbs_away :
    ∃ t, run (step Rlc.noPunning (Rlc.ue 70)) { coll := fun _ => none } twoDedicated = some t ∧
      t.added.map (fun drb => (drb.drb_Identity, drb.logicalChannelIdentity)) =
        [(1, 3), (2, 4), (3, 5)] ∧
      t.coll (rlcCollKeyValue (Rlc.ue 70) 3 false) = none ∧ t.lcgidmap 4 = 0 ∧
      [0, 1, 2].map t.DRB_active = [0, 1, 0] := by
  obtain ⟨t, ht, hadded, hnone, hmac, hactive⟩ :
      ∃ t, run (step Rlc.noPunning (Rlc.ue 70)) { coll := fun _ => none } twoDedicated = some t ∧
        t.added.map (fun drb => (drb.drb_Identity, drb.logicalChannelIdentity)) =
          [(1, 3), (2, 4), (3, 5)] ∧
        (t.coll (rlcCollKeyValue (Rlc.ue 70) 3 false)).isNone ∧ t.lcgidmap 4 = 0 ∧
        [0, 1, 2].map t.DRB_active = [0, 1, 0] := run_decided (by decide +kernel)
  exact ⟨t, ht, hadded, isNone_iff_eq_none.1 hnone, hmac, hactive⟩

end MacRlcSplit.Rrc.Activation
