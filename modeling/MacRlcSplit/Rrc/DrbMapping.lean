-- Radio bearers and tunnels: the RRC numbers the radio bearers of a UE in the
-- order of its E-RABs, while GTP-U and PDCP go by the EPS bearer identity.
import MacRlcSplit.Gtp.TunnelRuns
import MacRlcSplit.Rrc.ErabRuns

open MacRlcSplit.Lib Function List Option
open MacRlcSplit.Pdcp (NB_RB_MAX)

namespace MacRlcSplit.Gtp.GtpData

/-! ## The tunnels of a request -/

/-- The two tables lead along a tunnel: down from its TEID to the bearer, and up from the bearer to
the gateway. -/
def Leads (s : GtpData) (rnti : Nat) (tunnel : TunnelReq) : Prop :=
  s.teid_mapping tunnel.s1u_teid = some ⟨rnti, tunnel.eps_bearer_id⟩ ∧
    ∃ ue, s.ue_mapping rnti = some ue ∧ (ue.bearers (tunnel.eps_bearer_id - 3)).teid_sgw =
      tunnel.sgw_S1u_teid

variable {s : GtpData}

theorem createTurn_leads (rnti : Nat) (resp : CreateTunnelResp) {tunnel : TunnelReq}
    (hwf : tunnel.WellFormed) (hnew : s.teid_mapping tunnel.s1u_teid = none) :
    ∃ s' resp', createTurn rnti (s, resp) tunnel = some (s', resp') ∧
      resp'.tunnels = resp.tunnels ++ [(tunnel.s1u_teid, tunnel.eps_bearer_id)] ∧
      s'.Leads rnti tunnel ∧ (∀ other : TunnelReq, s.Leads rnti other → 5 ≤ other.eps_bearer_id →
        other.eps_bearer_id ≠ tunnel.eps_bearer_id → s'.Leads rnti other) ∧
      ∀ teid ≠ tunnel.s1u_teid, s'.teid_mapping teid = s.teid_mapping teid := by
  obtain ⟨b, -, -, hsgw, hturn⟩ := createTurn_new rnti resp hwf hnew
  refine ⟨_, _, hturn, rfl, ⟨update_self _ _ _, _, update_self _ _ _, ?_⟩, ?_, ?_⟩
  · show (update ((s.ue_mapping rnti).getD {}).bearers _ b _).teid_sgw = _
    rw [update_self, hsgw]
  · rintro other ⟨hteid, ue, hue, hother⟩ hlow hne
    have hdiff : other.s1u_teid ≠ tunnel.s1u_teid := fun heq => by
      rw [heq, hnew] at hteid
      cases hteid
    refine ⟨(update_of_ne hdiff _ _).trans hteid, _, update_self _ _ _, ?_⟩
    show (update ((s.ue_mapping rnti).getD {}).bearers _ b _).teid_sgw = _
    rw [hue, update_of_ne (by omega)]
    exact hother
  · intro teid hteid
    exact update_of_ne hteid _ _

/-- A request for new tunnels of different bearers: the answer lists them in their order, and the
tables lead along all of them and along the tunnels of other bearers. -/
theorem create_leads (rnti : Nat) (tunnels : List TunnelReq) (s : GtpData) (resp : CreateTunnelResp)
    (hwf : ∀ tunnel ∈ tunnels, tunnel.WellFormed)
    (hnew : ∀ tunnel ∈ tunnels, s.teid_mapping tunnel.s1u_teid = none)
    (hteids : (tunnels.map TunnelReq.s1u_teid).Nodup)
    (hebis : (tunnels.map TunnelReq.eps_bearer_id).Nodup) :
    ∃ s' resp', run (createTurn rnti) (s, resp) tunnels = some (s', resp') ∧
      resp'.tunnels = resp.tunnels ++ tunnels.map (fun x => (x.s1u_teid, x.eps_bearer_id)) ∧
      (∀ tunnel ∈ tunnels, s'.Leads rnti tunnel) ∧
      ∀ other : TunnelReq, s.Leads rnti other → 5 ≤ other.eps_bearer_id →
        other.eps_bearer_id ∉ tunnels.map TunnelReq.eps_bearer_id → s'.Leads rnti other := by
  induction tunnels generalizing s resp with
  | nil => exact ⟨s, resp, rfl, by simp, by simp, fun other hother _ _ => hother⟩
  | cons tunnel tunnels ih =>
    rw [forall_mem_cons] at hwf hnew
    obtain ⟨hteid, hteids⟩ := nodup_cons.1 hteids
    obtain ⟨hebi, hebis⟩ := nodup_cons.1 hebis
    obtain ⟨s₁, resp₁, hturn, hresp₁, hleads, hothers, hsame⟩ :=
      createTurn_leads rnti resp hwf.1 hnew.1
    have hnew₁ : ∀ x ∈ tunnels, s₁.teid_mapping x.s1u_teid = none := fun x hx => by
      rw [hsame _ fun heq => hteid (heq ▸ List.mem_map_of_mem hx)]
      exact hnew.2 x hx
    obtain ⟨s', resp', hrun, hresp, hall, hkept⟩ := ih s₁ resp₁ hwf.2 hnew₁ hteids hebis
    refine ⟨s', resp', run_cons.2 ⟨_, hturn, hrun⟩, ?_, ?_, fun other hother hlow hnot => ?_⟩
    · rw [hresp, hresp₁, append_assoc]
      rfl
    · refine forall_mem_cons.2 ⟨hkept tunnel hleads hwf.1.1 hebi, hall⟩
    · rw [map_cons, mem_cons, not_or] at hnot
      exact hkept other (hothers other hother hlow hnot.1) hlow hnot.2

end MacRlcSplit.Gtp.GtpData

namespace MacRlcSplit.Rrc.Erabs

/-! ## The radio bearers of a request -/

/-- The radio bearer that an E-RAB gets in place `i`, if it waits for one. -/
def drbOf (e_rab : ERab) (i : Nat) : Option DrbToAddMod :=
  if e_rab.status = .new then
    (rlcConfigOfQci e_rab.param.qci).map fun rlc_Config =>
      ⟨e_rab.param.e_rab_id, 1 + i, 1 + i + 2, rlc_Config, 1⟩
  else none

def configured (xid : Nat) (e_rab : ERab) : ERab :=
  if e_rab.status = .new then { e_rab with status := .done, xid := xid } else e_rab

/-- Its QCI is one of those that there is a mode for. -/
def Supported (e_rab : ERab) : Prop := (rlcConfigOfQci e_rab.param.qci).isSome = true

/-- The radio bearers `drbs` are put behind the others, of the UE and of the transaction, and the
E-RABs are marked. -/
def withDrbs (ue : Erabs) (xid : Nat) (drbs : List DrbToAddMod) (e_rab : Nat → ERab) : Erabs :=
  { ue with
    DRB_configList := ue.DRB_configList.map (· ++ drbs)
    DRB_configList2 := update ue.DRB_configList2 xid (ue.DRB_configList2 xid ++ drbs)
    e_rab := e_rab }

theorem withDrbs_nil (ue : Erabs) (xid : Nat) : ue.withDrbs xid [] ue.e_rab = ue := by
  simp [withDrbs]

theorem withDrbs_append (ue : Erabs) (xid : Nat) (drbs drbs' : List DrbToAddMod)
    (e_rab e_rab' : Nat → ERab) :
    (ue.withDrbs xid drbs e_rab).withDrbs xid drbs' e_rab' =
      ue.withDrbs xid (drbs ++ drbs') e_rab' := by
  simp [withDrbs, comp_def]

variable {i : Nat}

/-- The two counters add up to the place of the E-RAB, so that it is its radio bearer that gets the
next number. -/
theorem dedicatedTurn_eq (xid : Nat) {x : DedicatedLoop}
    (hi : x.drb_identity_index + x.e_rab_done = i) (hlist : x.ue.DRB_configList ≠ none)
    (hqci : Supported (x.ue.e_rab i)) :
    ∃ y, dedicatedTurn xid x i = some y ∧ y.drb_identity_index + y.e_rab_done = i + 1 ∧
      y.ue = x.ue.withDrbs xid (drbOf (x.ue.e_rab i) i).toList
        (update x.ue.e_rab i (configured xid (x.ue.e_rab i))) := by
  unfold dedicatedTurn drbOf configured
  by_cases hnew : (x.ue.e_rab i).status = .new
  · obtain ⟨rlc_Config, hrlc⟩ := isSome_iff_exists.1 hqci
    obtain ⟨l, hl⟩ := ne_none_iff_exists'.1 hlist
    rw [if_pos hnew, if_pos hnew, if_pos hnew]
    simp only [hrlc, hl, map_some]
    refine ⟨_, rfl, by dsimp only; omega, ?_⟩
    rw [withDrbs, hl, show 1 + x.drb_identity_index + x.e_rab_done = 1 + i by omega]
    rfl
  · rw [if_neg hnew, if_neg hnew, if_neg hnew, update_eq_self, toList_none, withDrbs_nil]
    exact ⟨_, rfl, by dsimp only; omega, rfl⟩

theorem dedicated_run (xid k : Nat) {x : DedicatedLoop}
    (hi : x.drb_identity_index + x.e_rab_done = i) (hlist : x.ue.DRB_configList ≠ none)
    (hqci : ∀ j, i ≤ j → j < i + k → Supported (x.ue.e_rab j)) :
    ∃ y, run (dedicatedTurn xid) x (range' i k) = some y ∧
      y.ue = x.ue.withDrbs xid ((range' i k).filterMap fun j => drbOf (x.ue.e_rab j) j)
        fun j => if i ≤ j ∧ j < i + k then configured xid (x.ue.e_rab j) else x.ue.e_rab j := by
  induction k generalizing i x with
  | zero =>
    have hnone : (fun j => if i ≤ j ∧
        j < i + 0 then configured xid (x.ue.e_rab j) else x.ue.e_rab j) = x.ue.e_rab :=
      funext fun j => if_neg (by omega)
    exact ⟨x, rfl, by rw [hnone]; exact (withDrbs_nil x.ue xid).symm⟩
  | succ k ih =>
    obtain ⟨y, hy, hnext, hue⟩ := dedicatedTurn_eq xid hi hlist (hqci i le_rfl (by omega))
    have he_rab : y.ue.e_rab = update x.ue.e_rab i (configured xid (x.ue.e_rab i)) := by
      rw [hue]; rfl
    have hsame : ∀ j, i < j → y.ue.e_rab j = x.ue.e_rab j := fun j hj => by
      rw [he_rab, update_of_ne (by omega)]
    have hlist' : y.ue.DRB_configList ≠ none := by
      rw [hue]
      exact fun hnone => hlist (map_eq_none_iff.1 hnone)
    obtain ⟨z, hz, hzue⟩ := ih hnext hlist' fun j hj hlt => by
      rw [hsame j (by omega)]
      exact hqci j (by omega) (by omega)
    refine ⟨z, run_cons.2 ⟨y, hy, hz⟩, ?_⟩
    have hrest : (range' (i + 1) k).filterMap (fun j => drbOf (y.ue.e_rab j) j) =
        (range' (i + 1) k).filterMap fun j => drbOf (x.ue.e_rab j) j := by
      refine filterMap_congr fun j hj => ?_
      rw [hsame j (by rw [mem_range'_1] at hj; omega)]
    have hcons : (range' i (k + 1)).filterMap (fun j => drbOf (x.ue.e_rab j) j) =
        (drbOf (x.ue.e_rab i) i).toList ++ (range' (i + 1) k).filterMap fun j =>
          drbOf (x.ue.e_rab j) j := by
      rw [range'_succ, filterMap_cons]
      cases drbOf (x.ue.e_rab i) i <;> rfl
    rw [hzue, hrest, hcons, hue, withDrbs_append]
    congr 1
    funext j
    rw [withDrbs]
    dsimp only
    rcases lt_trichotomy j i with hj | rfl | hj
    · rw [if_neg (by omega), if_neg (by omega), update_of_ne (by omega)]
    · rw [if_neg (by omega), if_pos (by omega), update_self]
    · rw [update_of_ne (by omega)]
      by_cases hlt : j < i + 1 + k
      · rw [if_pos ⟨hj, hlt⟩, if_pos (by omega)]
      · rw [if_neg (by omega), if_neg (by omega)]

def clearDrbs (ue : Erabs) (xid : Nat) : Erabs :=
  { ue with DRB_configList2 := update ue.DRB_configList2 xid [] }

theorem generateDedicated_eq (ue : Erabs) (xid : Nat) (hsetup : ue.setup_e_rabs ≤ NB_RB_MAX)
    (hlist : ue.DRB_configList ≠ none) (hqci : ∀ j < ue.setup_e_rabs, Supported (ue.e_rab j)) :
    ue.generateDedicated xid = some ((ue.clearDrbs xid).withDrbs xid
      ((List.range ue.setup_e_rabs).filterMap fun j => drbOf (ue.e_rab j) j)
      fun j => if j < ue.setup_e_rabs then configured xid (ue.e_rab j) else ue.e_rab j) := by
  have hstart : ({ ue := ue.clearDrbs xid } : DedicatedLoop).drb_identity_index + 0 = 0 := rfl
  obtain ⟨y, hy, hue⟩ := dedicated_run xid ue.setup_e_rabs hstart hlist fun j _ hj =>
    hqci j (by omega)
  rw [generateDedicated, if_pos hsetup]
  show (run (dedicatedTurn xid) { ue := ue.clearDrbs xid } (List.range ue.setup_e_rabs)).map _ = _
  rw [range_eq_range', hy, map_some, hue]
  simp only [zero_le, true_and, zero_add]
  rfl

/-! ## Runs -/

/-- An E-RAB of a request, with the TEID and the session that the stack of GTP-U grants. -/
structure Granted where
  param : ERabParam
  s1u_teid : Nat
  hStackSession : Nat
deriving DecidableEq, Repr

def Granted.tunnel (x : Granted) : Gtp.TunnelReq :=
  ⟨x.param.gtp_teid, x.param.e_rab_id, x.param.sgw_addr, x.s1u_teid, x.hStackSession⟩

/-- The E-RABs of a UE in the RRC and in GTP-U, and those that were set up. -/
structure Plane where
  ue : Erabs := {}
  gtp : Gtp.GtpData
  setUp : List Granted := []

inductive PlaneEvent where
  | request (req : Request Granted) (xid : Nat)
  | defaultReconfiguration (xid : Nat)
  /-- The answers to the MME mark E-RABs that have their radio bearer. -/
  | answered (mark : Nat → ERabStatus)

/-- A mark for an E-RAB that is not new. -/
def answer (status mark : ERabStatus) : ERabStatus :=
  if status = .new ∨ mark = .new then status else mark

def planeStep (rnti : Nat) (s : Plane) : PlaneEvent → Option Plane
  | .request req xid => do
    let (gtp, resp) ← s.gtp.gtpv1uCreateS1uTunnel rnti (req.setups.map Granted.tunnel)
    let ue ← s.ue.requestAndConfigure Granted.param req resp xid
    some ⟨ue, gtp, s.setUp ++ req.setups⟩
  | .defaultReconfiguration xid => (s.ue.generateDefault xid).map fun ue => { s with ue := ue }
  | .answered mark => some { s with
      ue.e_rab := fun i => { s.ue.e_rab i with status := answer (s.ue.e_rab i).status (mark i) } }

/-- The E-RABs of a request have identities from 5 to 15 that no other one of the UE has, a QCI that
is supported and an address that is accepted, and the stack grants TEIDs that are not in use. -/
def Fresh (s : Plane) (granted : List Granted) : Prop :=
  (∀ x ∈ granted, x.tunnel.WellFormed ∧ (rlcConfigOfQci x.param.qci).isSome = true ∧
    s.gtp.teid_mapping x.s1u_teid = none) ∧
  (granted.map Granted.s1u_teid).Nodup ∧ ((s.setUp ++ granted).map fun x => x.param.e_rab_id).Nodup

def Proper (s : Plane) : PlaneEvent → Prop
  | .request req _ => Fresh s req.setups
  | .defaultReconfiguration _ => True
  | .answered _ => True

instance (s : Plane) (granted : List Granted) : Decidable (Fresh s granted) :=
  inferInstanceAs (Decidable (_ ∧ _ ∧ _))

instance (s : Plane) (e : PlaneEvent) : Decidable (Proper s e) := by
  cases e <;> unfold Proper <;> infer_instance

/-- The initial setup is for the E-RAB 5 alone, which gets the default radio bearer, and the E-RABs
after it come in the order of their identities, without a gap. -/
def InSequence (s : Plane) : PlaneEvent → Prop
  | .request (.initialContextSetup granted) _ => s.setUp = [] ∧ s.ue.DRB_configList = none ∧
      granted.map (fun x => x.param.e_rab_id) = [5]
  | .request (.eRabSetup granted) _ => s.ue.DRB_configList ≠ none ∧
      granted.map (fun x => x.param.e_rab_id) = range' (5 + s.setUp.length) granted.length
  | .defaultReconfiguration _ => s.setUp.length = 1
  | .answered _ => True

instance (s : Plane) (e : PlaneEvent) : Decidable (InSequence s e) := by
  rcases e with (_ | _) | _ | _ <;> unfold InSequence <;> infer_instance

/-! ## What stays true -/

structure Mapped (rnti : Nat) (s : Plane) : Prop where
  setup : s.ue.setup_e_rabs = s.setUp.length
  small : s.setUp.length ≤ S1AP_MAX_E_RAB
  ids : s.setUp.map (fun x => x.param.e_rab_id) = range' 5 s.setUp.length
  entry : ∀ k x, s.setUp[k]? = some x → (s.ue.e_rab k).param = x.param
  qci : ∀ x ∈ s.setUp, (rlcConfigOfQci x.param.qci).isSome = true
  nb : s.ue.nb_of_e_rabs ≤ S1AP_MAX_E_RAB
  waiting : s.ue.DRB_configList = none → s.setUp.length = 1 → s.ue.nb_of_e_rabs = 1
  drbs : ∀ l, s.ue.DRB_configList = some l → (∀ k < s.setUp.length, (s.ue.e_rab k).status ≠ .new) ∧
    l.map (fun x => (x.eps_BearerIdentity, x.drb_Identity)) =
      (List.range s.setUp.length).map fun k => (5 + k, 1 + k)
  leads : ∀ x ∈ s.setUp, s.gtp.Leads rnti x.tunnel

variable {rnti : Nat} {s : Plane} {granted : List Granted}

theorem mapped_init (rnti : Nat) (enb_addr : List Nat) : Mapped rnti { gtp := .init enb_addr } where
  setup := rfl
  small := Nat.zero_le _
  ids := rfl
  entry k x h := by simp at h
  qci x h := by cases h
  nb := Nat.zero_le _
  waiting _ h := by cases h
  drbs l h := by cases h
  leads x h := by cases h

theorem id_of_place {l : List Granted}
    (hids : l.map (fun x => x.param.e_rab_id) = range' 5 l.length) {k : Nat} {x : Granted}
    (hx : l[k]? = some x) : x.param.e_rab_id = 5 + k := by
  have hlt : k < l.length := (List.getElem?_eq_some_iff.1 hx).1
  have hget := congrArg (·[k]?) hids
  rw [getElem?_map, hx, getElem?_range' hlt] at hget
  simpa using hget

theorem Mapped.created (h : Mapped rnti s) (hfresh : Fresh s granted) :
    ∃ gtp resp, s.gtp.gtpv1uCreateS1uTunnel rnti (granted.map Granted.tunnel) = some (gtp, resp) ∧
      resp.tunnels.length = (granted.map Granted.param).length ∧
      ∀ x ∈ s.setUp ++ granted, gtp.Leads rnti x.tunnel := by
  obtain ⟨hall, hteids, hids⟩ := hfresh
  have hnodup : ((granted.map Granted.tunnel).map Gtp.TunnelReq.eps_bearer_id).Nodup := by
    rw [map_append, nodup_append] at hids
    simpa [Granted.tunnel, comp_def] using hids.2.1
  obtain ⟨gtp, resp, hrun, hresp, hnew, hold⟩ := Gtp.GtpData.create_leads rnti
    (granted.map Granted.tunnel) s.gtp { rnti := rnti }
    (fun tunnel ht => by
      obtain ⟨x, hx, rfl⟩ := List.mem_map.1 ht
      exact (hall x hx).1)
    (fun tunnel ht => by
      obtain ⟨x, hx, rfl⟩ := List.mem_map.1 ht
      exact (hall x hx).2.2)
    (by simpa [Granted.tunnel, comp_def] using hteids) hnodup
  refine ⟨gtp, resp, hrun, by simp [hresp], fun x hx => ?_⟩
  rcases mem_append.1 hx with hx | hx
  · obtain ⟨k, hk⟩ := getElem?_of_mem hx
    have hid := id_of_place h.ids hk
    refine hold x.tunnel (h.leads x hx) (show 5 ≤ x.param.e_rab_id by omega) fun hmem => ?_
    rw [map_append, nodup_append] at hids
    obtain ⟨tunnel, ht, heq⟩ := List.mem_map.1 hmem
    obtain ⟨y, hy, rfl⟩ := List.mem_map.1 ht
    exact hids.2.2 _ (List.mem_map_of_mem hx) _ (List.mem_map_of_mem hy) heq.symm
  · exact hnew x.tunnel (List.mem_map_of_mem hx)

theorem planeStep_request {req : Request Granted} {xid : Nat} {gtp : Gtp.GtpData}
    {resp : Gtp.CreateTunnelResp} {ue : Erabs}
    (hcreate : s.gtp.gtpv1uCreateS1uTunnel rnti (req.setups.map Granted.tunnel) = some (gtp, resp))
    (hue : s.ue.requestAndConfigure Granted.param req resp xid = some ue) :
    planeStep rnti s (.request req xid) = some ⟨ue, gtp, s.setUp ++ req.setups⟩ := by
  simp only [planeStep, hcreate, bind_eq_bind, bind_some, hue]

theorem Mapped.initialContextSetup (h : Mapped rnti s) (hfresh : Fresh s granted) (xid : Nat)
    (hseq : InSequence s (.request (.initialContextSetup granted) xid)) :
    ∃ t, planeStep rnti s (.request (.initialContextSetup granted) xid) = some t ∧
    Mapped rnti t := by
  obtain ⟨hnil, hnone, hids⟩ := hseq
  obtain ⟨gtp, resp, hcreate, hresp, hleads⟩ := h.created hfresh
  have hlen : granted.length = 1 := by simpa using congrArg List.length hids
  have hparams : (granted.map Granted.param).length = 1 := by rw [length_map, hlen]
  have hzero : s.ue.setup_e_rabs = 0 := by rw [h.setup, hnil]; rfl
  obtain ⟨e_rab, enb_gtp, hw, hreq⟩ :=
    initialContextSetupReq_within s.ue (granted.map Granted.param) resp
    (by rw [hparams]; decide) (by rw [hresp, hparams, hzero]; decide)
  rw [hparams] at hreq
  have hsetUp : s.setUp ++ granted = granted := by rw [hnil, nil_append]
  refine ⟨_, planeStep_request hcreate (requestAndConfigure_initial hreq xid), ?_⟩
  show Mapped rnti ⟨_, gtp, s.setUp ++ granted⟩
  rw [hsetUp]
  rw [hsetUp] at hleads
  have hbefore : ∀ k x, ([] : List Granted)[k]? = some x → (s.ue.e_rab k).param = x.param :=
    fun k x hx => by
    simp at hx
  exact {
    setup := hlen.symm
    small := show granted.length ≤ _ by rw [hlen]; decide
    ids := show _ = range' 5 granted.length by rw [hids, hlen]; rfl
    entry := fun k x hx => (Written.param_append hw hbefore rfl k x hx).1
    qci := fun x hx => (hfresh.1 x hx).2.1
    nb := show 1 ≤ S1AP_MAX_E_RAB by decide
    waiting := fun _ _ => rfl
    drbs := fun l (hl : s.ue.DRB_configList = some l) => by rw [hnone] at hl; cases hl
    leads := hleads }

theorem generateDefault_eq (ue : Erabs) (xid : Nat) (hnb : ue.nb_of_e_rabs ≤ S1AP_MAX_E_RAB) :
    ∃ e_rab, ue.generateDefault xid = some { ue with
        DRB_configList := some [defaultDrb]
        DRB_configList2 := update ue.DRB_configList2 xid [defaultDrb]
        e_rab := e_rab } ∧
      (∀ k, (e_rab k).param = (ue.e_rab k).param) ∧
      ∀ k, (e_rab k).status = if k < ue.nb_of_e_rabs then .done else (ue.e_rab k).status := by
  have hmax : S1AP_MAX_E_RAB ≤ NB_RB_MAX := by decide
  refine ⟨_, by rw [generateDefault, if_pos (le_trans hnb hmax)], fun k => ?_, fun k => ?_⟩
  · split <;> rfl
  · split <;> rfl

theorem Mapped.defaultReconfiguration (h : Mapped rnti s) (xid : Nat) (hone : s.setUp.length = 1) :
    ∃ t, planeStep rnti s (.defaultReconfiguration xid) = some t ∧ Mapped rnti t := by
  obtain ⟨e_rab, hdefault, hparam, hstatus⟩ := generateDefault_eq s.ue xid h.nb
  refine ⟨_, by rw [planeStep, hdefault]; rfl, ?_⟩
  exact {
    setup := h.setup
    small := h.small
    ids := h.ids
    entry := fun k x hx => (hparam k).trans (h.entry k x hx)
    qci := h.qci
    nb := h.nb
    waiting := fun hnone => by cases hnone
    drbs := fun l hl => by
      cases hl
      refine ⟨fun k hk => ?_, by dsimp only; rw [hone]; rfl⟩
      rw [hstatus k]
      split
      · decide
      rename_i hnb
      cases hlist : s.ue.DRB_configList with
      | none =>
        -- the only E-RAB is that of the last request
        rw [h.waiting hlist hone] at hnb
        rw [hone] at hk
        exact absurd hk hnb
      | some l => exact (h.drbs l hlist).1 k hk
    leads := h.leads }

theorem Mapped.answered (h : Mapped rnti s) (mark : Nat → ERabStatus) :
    ∃ t, planeStep rnti s (.answered mark) = some t ∧ Mapped rnti t := by
  refine ⟨_, rfl, h.setup, h.small, h.ids, h.entry, h.qci, h.nb, h.waiting, fun l hl => ?_, h.leads⟩
  obtain ⟨hdone, hpairs⟩ := h.drbs l hl
  refine ⟨fun k hk => ?_, hpairs⟩
  have hnot := hdone k hk
  show answer _ _ ≠ _
  unfold answer
  split
  · exact hnot
  · rename_i hor
    exact fun hmark => hor (.inr hmark)

theorem Mapped.ids_append (h : Mapped rnti s) (hfresh : Fresh s granted)
    (hids : granted.map (fun x => x.param.e_rab_id) = range' (5 + s.setUp.length) granted.length) :
    (s.setUp ++ granted).map (fun x => x.param.e_rab_id) = range' 5 (s.setUp ++ granted).length ∧
      s.setUp.length + granted.length ≤ S1AP_MAX_E_RAB := by
  constructor
  · rw [map_append, h.ids, hids, length_append, range'_append_1]
  cases hlast : granted.getLast? with
  | none =>
    rw [getLast?_eq_none_iff.1 hlast]
    exact h.small
  | some x =>
    have hmem := mem_of_getLast? hlast
    have hhigh : x.param.e_rab_id ≤ 15 := (hfresh.1 x hmem).1.2.1
    have hne : granted ≠ [] := ne_nil_of_mem hmem
    have hpos : 0 < granted.length := length_pos_of_ne_nil hne
    have hget := congrArg (·[granted.length - 1]?) hids
    rw [getElem?_map, ← getLast?_eq_getElem?, hlast, getElem?_range' (by omega)] at hget
    have hid : x.param.e_rab_id = 5 + s.setUp.length + (granted.length - 1) := by simpa using hget
    show _ ≤ 11
    omega

theorem drbs_of_request {e_rab : Nat → ERab} {n m : Nat} (hold : ∀ k < n, (e_rab k).status ≠ .new)
    (hnew : ∀ k, n ≤ k → k < n + m → (e_rab k).status = .new ∧ (e_rab k).param.e_rab_id = 5 + k ∧
      Supported (e_rab k)) :
    ((List.range (n + m)).filterMap fun j => drbOf (e_rab j) j).map
      (fun x => (x.eps_BearerIdentity, x.drb_Identity)) = (range' n m).map fun k =>
        (5 + k, 1 + k) := by
  have hfront : (range' 0 n).filterMap (fun j => drbOf (e_rab j) j) = [] := by
    refine filterMap_eq_nil_iff.2 fun j hj => ?_
    rw [mem_range'_1] at hj
    exact if_neg (hold j (by omega))
  have hrest : ((range' n m).filterMap fun j => drbOf (e_rab j) j).map
      (fun x => (x.eps_BearerIdentity, x.drb_Identity)) = (range' n m).map fun k =>
        (5 + k, 1 + k) := by
    rw [map_filterMap, ← filterMap_eq_map]
    refine filterMap_congr fun j hj => ?_
    rw [mem_range'_1] at hj
    obtain ⟨hstatus, hid, hqci⟩ := hnew j hj.1 hj.2
    obtain ⟨rlc_Config, hrlc⟩ := isSome_iff_exists.1 hqci
    simp [drbOf, hstatus, hrlc, hid]
  have hsplit : range' 0 (n + m) = range' 0 n ++ range' n m := by
    have := range'_append_1 (s := 0) (m := n) (n := m)
    rw [zero_add] at this
    exact this.symm
  rw [range_eq_range', hsplit, filterMap_append, hfront, nil_append, hrest]

theorem Mapped.eRabSetup (h : Mapped rnti s) (hfresh : Fresh s granted) (xid : Nat)
    (hseq : InSequence s (.request (.eRabSetup granted) xid)) :
    ∃ t, planeStep rnti s (.request (.eRabSetup granted) xid) = some t ∧ Mapped rnti t := by
  obtain ⟨hsome, hids⟩ := hseq
  obtain ⟨l, hl⟩ := ne_none_iff_exists'.1 hsome
  obtain ⟨hdone, hpairs⟩ := h.drbs l hl
  obtain ⟨gtp, resp, hcreate, hresp, hleads⟩ := h.created hfresh
  obtain ⟨hall, hsmall⟩ := h.ids_append hfresh hids
  have hparams : (granted.map Granted.param).length = granted.length := length_map _
  obtain ⟨e_rab, enb_gtp, hw, hreq⟩ := eRabSetupReq_within s.ue (granted.map Granted.param) resp
    (by rw [h.setup, hparams]; exact hsmall) hresp
  rw [hparams, h.setup] at hreq
  rw [h.setup] at hw
  have hentry := hw.param_append h.entry rfl
  have hqci : ∀ x ∈ s.setUp ++ granted, (rlcConfigOfQci x.param.qci).isSome :=
    forall_mem_append.2 ⟨h.qci, fun x hx => (hfresh.1 x hx).2.1⟩
  have hplace : ∀ k < s.setUp.length + granted.length, ∃ x, (s.setUp ++ granted)[k]? = some x :=
    fun k hk =>
    ⟨_, getElem?_eq_getElem (by rw [length_append]; exact hk)⟩
  have hsupported : ∀ k < s.setUp.length + granted.length, Supported (e_rab k) := fun k hk => by
    obtain ⟨x, hx⟩ := hplace k hk
    rw [Supported, (hentry k x hx).1]
    exact hqci x (mem_of_getElem? hx)
  have hold : ∀ k < s.setUp.length, (e_rab k).status ≠ .new := fun k hk => by
    rw [hw.e_rab_before k hk]
    exact hdone k hk
  have hnewPairs := drbs_of_request hold
    fun k (hle : s.setUp.length ≤ k) (hlt : k < s.setUp.length + granted.length) => by
    obtain ⟨x, hx⟩ := hplace k hlt
    obtain ⟨hparam, hnew⟩ := hentry k x hx
    exact ⟨hnew hle, by rw [hparam, id_of_place hall hx], hsupported k hlt⟩
  have hmax : S1AP_MAX_E_RAB ≤ NB_RB_MAX := by decide
  have hdedicated := generateDedicated_eq
    { s.ue with
      setup_e_rabs := s.setUp.length + granted.length, nb_of_e_rabs := granted.length, e_rab :=
        e_rab,
      enb_gtp := enb_gtp } xid (le_trans hsmall hmax) hsome hsupported
  refine ⟨_, planeStep_request hcreate (requestAndConfigure_eRab hreq hdedicated), ?_⟩
  show Mapped rnti ⟨_, gtp, s.setUp ++ granted⟩
  exact {
    setup := length_append.symm
    small := by rw [length_append]; exact hsmall
    ids := hall
    entry := fun k x hx => by
      rw [← (hentry k x hx).1]
      show (if k < s.setUp.length + granted.length then configured xid (e_rab k) else e_rab
          k).param = _
      rw [configured]
      split
      · split <;> rfl
      · rfl
    qci := hqci
    nb := le_trans (Nat.le_add_left _ _) hsmall
    waiting := fun hnone => absurd (map_eq_none_iff.1 hnone) hsome
    drbs := fun l' hl' => by
      have heq : l ++ _ = l' := some.inj ((congrArg (Option.map (· ++ _)) hl).symm.trans hl')
      refine ⟨fun k hk => ?_, ?_⟩
      · rw [length_append] at hk
        show (if k < s.setUp.length + granted.length then configured xid (e_rab k) else e_rab
            k).status ≠ _
        rw [if_pos hk, configured]
        split
        · exact ERabStatus.noConfusion
        · assumption
      · rw [← heq, map_append, hpairs, hnewPairs, length_append, range_eq_range', range_eq_range',
          ← map_append, ← range'_append_1, zero_add]
    leads := hleads }

/-- A step in sequence keeps each E-RAB on its DRB and its tunnel. -/
theorem Mapped.step (h : Mapped rnti s) (e : PlaneEvent) (hproper : Proper s e)
    (hseq : InSequence s e) : ∃ t, planeStep rnti s e = some t ∧ Mapped rnti t := by
  cases e with
  | request req xid =>
    cases req with
    | initialContextSetup granted => exact h.initialContextSetup hproper xid hseq
    | eRabSetup granted => exact h.eRabSetup hproper xid hseq
  | defaultReconfiguration xid => exact h.defaultReconfiguration xid hseq
  | answered mark => exact h.answered mark

/-- All numbers agree: the radio bearer of an E-RAB is its identity less four. -/
theorem Mapped.drb_of_erab (h : Mapped rnti s) {l : List DrbToAddMod}
    (hl : s.ue.DRB_configList = some l) {x : Granted} (hx : x ∈ s.setUp) :
    (∃ drb ∈ l, drb.eps_BearerIdentity = x.param.e_rab_id) ∧
      ∀ drb ∈ l, drb.eps_BearerIdentity = x.param.e_rab_id →
      drb.drb_Identity + 4 = x.param.e_rab_id := by
  obtain ⟨k, hk⟩ := getElem?_of_mem hx
  have hid := id_of_place h.ids hk
  have hlt := (List.getElem?_eq_some_iff.1 hk).1
  have hpairs := (h.drbs l hl).2
  constructor
  · have hmem : (5 + k, 1 + k) ∈ l.map fun x => (x.eps_BearerIdentity, x.drb_Identity) := by
      rw [hpairs]
      exact List.mem_map.2 ⟨k, mem_range.2 hlt, rfl⟩
    obtain ⟨drb, hdrb, heq⟩ := List.mem_map.1 hmem
    exact ⟨drb, hdrb, by rw [hid]; exact (Prod.mk.inj heq).1⟩
  · intro drb hdrb heq
    have hmem : (drb.eps_BearerIdentity, drb.drb_Identity) ∈ l.map fun x =>
        (x.eps_BearerIdentity, x.drb_Identity) :=
      List.mem_map_of_mem hdrb
    rw [hpairs] at hmem
    obtain ⟨j, -, hj⟩ := List.mem_map.1 hmem
    obtain ⟨heps, hnum⟩ := Prod.mk.inj hj
    omega

/-- Where `pdcp_data_ind` sends the uplink data of a radio bearer. -/
def uplink (gtp : Gtp.GtpData) (rnti rb_id : Nat) : Option (Option (Nat × List Nat)) :=
  gtp.tunnelDataReq rnti (rb_id + 4)

def ipv4Granted (e_rab_id gtp_teid s1u_teid : Nat) : Granted where
  param := { e_rab_id := e_rab_id, qci := 9, gtp_teid := gtp_teid, sgw_addr := ⟨32, [10, 0, 0, 1]⟩ }
  s1u_teid := s1u_teid
  hStackSession := s1u_teid

/-- The first E-RAB and its radio bearer. -/
def firstGranted (x : Granted) : List PlaneEvent :=
  [.request (.initialContextSetup [x]) 0, .defaultReconfiguration 0]

def threeErabs : List PlaneEvent :=
  firstGranted (ipv4Granted 5 1000 100) ++
    [.request (.eRabSetup [ipv4Granted 6 1001 101, ipv4Granted 7 1002 102]) 1]

def gapInErabs : List PlaneEvent :=
  firstGranted (ipv4Granted 5 1000 100) ++ [.request (.eRabSetup [ipv4Granted 7 1002 102]) 1]

/-- The radio bearers of the UE, each with the E-RAB that it is for. -/
def HasDrbs (s : Plane) (pairs : List (Nat × Nat)) : Prop :=
  ∃ l ∈ s.ue.DRB_configList, l.map (fun drb => (drb.eps_BearerIdentity, drb.drb_Identity)) = pairs

instance (s : Plane) (pairs : List (Nat × Nat)) : Decidable (HasDrbs s pairs) :=
  inferInstanceAs (Decidable (∃ l ∈ _, _))

end MacRlcSplit.Rrc.Erabs
