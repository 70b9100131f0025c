-- Runs of setup requests and releases: while a context starts with an initial
-- setup, every E-RAB has its tunnel in the same place, and the release deletes
-- the tunnels of the last request.
import MacRlcSplit.Rrc.Erabs

namespace MacRlcSplit.Rrc.Erabs

open Lib List
open Pdcp (NB_RB_MAX)

/-! ## Runs -/

/-- An E-RAB of a request, and the TEID that GTP-U gives to its tunnel. -/
structure Setup where
  param : ERabParam
  teid : Nat
deriving DecidableEq, Repr

inductive Event where
  | request (req : Request Setup) (enb_addr : List Nat)
  /-- The reconfigurations and the answers to the MME mark the E-RABs. -/
  | marked (mark : Nat → ERabStatus × Nat)
  /-- The UE comes back with its S-TMSI, and has its context again. -/
  | reconnected
  | release

/-- The E-RABs of a UE, and what was set up and not released. -/
structure State where
  ue : Erabs := {}
  setUp : List Setup := []

/-- The answer of GTP-U: one tunnel after the other. -/
def response (setups : List Setup) (enb_addr : List Nat) : Gtp.CreateTunnelResp where
  rnti := 0
  tunnels := setups.map fun x => (x.teid, x.param.e_rab_id)
  enb_addr := enb_addr

def mark (ue : Erabs) (mark : Nat → ERabStatus × Nat) : Erabs :=
  { ue with e_rab := fun i => { ue.e_rab i with status := (mark i).1, xid := (mark i).2 } }

def step (s : State) : Event → Option State
  | .request req enb_addr =>
    (s.ue.request Setup.param req (response req.setups enb_addr)).map fun ue =>
      ⟨ue, s.setUp ++ req.setups⟩
  | .marked mark => some { s with ue := s.ue.mark mark }
  | .reconnected => some s
  | .release => s.ue.ueContextReleaseCommand.map fun r => ⟨r.2, []⟩

def Event.count : Event → Nat
  | .request req _ => req.setups.length
  | .marked _ | .reconnected | .release => 0

/-! ## What a request writes -/

variable {s : State}

/-- The entries after a request that puts its E-RABs from `first` on and its tunnels from
`setup_e_rabs` on. -/
structure Written (ue : Erabs) (first : Nat) (params : List ERabParam) (resp : Gtp.CreateTunnelResp)
    (e_rab : Nat → ERab) (enb_gtp : Nat → EnbGtp) : Prop where
  e_rab_before : ∀ i < first, e_rab i = ue.e_rab i
  e_rab_within : ∀ i param, params[i]? = some param →
    (e_rab (first + i)).param = param ∧ (e_rab (first + i)).status = .new
  gtp_before : ∀ i < ue.setup_e_rabs, enb_gtp i = ue.enb_gtp i
  gtp_within : ∀ i tunnel, resp.tunnels[i]? = some tunnel →
    enb_gtp (ue.setup_e_rabs + i) = ⟨tunnel.1, resp.enb_addr, tunnel.2⟩

theorem saveParams_within (ue : Erabs) (first : Nat) (params : List ERabParam)
    (h : first + params.length ≤ NB_RB_MAX) :
    ∃ e_rab, ue.saveParams first params = some { ue with e_rab := e_rab } ∧
      (∀ i < first, e_rab i = ue.e_rab i) ∧
      ∀ i param, params[i]? = some param → (e_rab (first + i)).param = param ∧
      (e_rab (first + i)).status = .new := by
  obtain ⟨e_rab, he⟩ :=
    modifyFrom_isSome (fun param (e_rab : ERab) => { e_rab with status := .new, param := param })
    ue.e_rab h
  refine ⟨e_rab, by rw [saveParams, he]; rfl, fun i hi => modifyFrom_before he hi,
    fun i param hi => ?_⟩
  rw [modifyFrom_within he hi]
  exact ⟨rfl, rfl⟩

theorem processCreateTunnelResp_within (ue : Erabs) (resp : Gtp.CreateTunnelResp)
    (h : ue.setup_e_rabs + resp.tunnels.length ≤ S1AP_MAX_E_RAB) :
    ∃ enb_gtp, ue.processCreateTunnelResp resp = some { ue with enb_gtp := enb_gtp } ∧
      (∀ i < ue.setup_e_rabs, enb_gtp i = ue.enb_gtp i) ∧
      ∀ i tunnel, resp.tunnels[i]? = some tunnel →
        enb_gtp (ue.setup_e_rabs + i) = ⟨tunnel.1, resp.enb_addr, tunnel.2⟩ := by
  obtain ⟨enb_gtp, he⟩ :=
    modifyFrom_isSome (fun tunnel (_ : EnbGtp) => ⟨tunnel.1, resp.enb_addr, tunnel.2⟩) ue.enb_gtp h
  exact ⟨enb_gtp, by rw [processCreateTunnelResp, he]; rfl, fun i hi => modifyFrom_before he hi,
    fun i tunnel hi => modifyFrom_within he hi⟩

theorem initialContextSetupReq_within (ue : Erabs) (params : List ERabParam)
    (resp : Gtp.CreateTunnelResp) (hparams : params.length ≤ S1AP_MAX_E_RAB)
    (hresp : ue.setup_e_rabs + resp.tunnels.length ≤ S1AP_MAX_E_RAB) :
    ∃ e_rab enb_gtp, Written ue 0 params resp e_rab enb_gtp ∧
    ue.initialContextSetupReq params resp =
      some { ue with setup_e_rabs := params.length, nb_of_e_rabs :=
        params.length, e_rab := e_rab, enb_gtp := enb_gtp } := by
  have hmax : S1AP_MAX_E_RAB ≤ NB_RB_MAX := by decide
  have hmod : params.length % 2 ^ 8 = params.length :=
    Nat.mod_eq_of_lt (lt_of_le_of_lt hparams (by decide))
  obtain ⟨e_rab, hsave, hbefore, hwithin⟩ :=
    saveParams_within { ue with nb_of_e_rabs := params.length } 0 params (by omega)
  obtain ⟨enb_gtp, hcreate, hgtp, hgtp'⟩ :=
    processCreateTunnelResp_within { ue with nb_of_e_rabs := params.length, e_rab := e_rab } resp
      hresp
  refine ⟨e_rab, enb_gtp, ⟨hbefore, hwithin, hgtp, hgtp'⟩, ?_⟩
  rw [initialContextSetupReq, hmod, hsave]
  show (processCreateTunnelResp _ _).bind _ = _
  rw [hcreate]
  rfl

theorem eRabSetupReq_within (ue : Erabs) (params : List ERabParam) (resp : Gtp.CreateTunnelResp)
    (hparams : ue.setup_e_rabs + params.length ≤ S1AP_MAX_E_RAB)
    (hresp : resp.tunnels.length = params.length) :
    ∃ e_rab enb_gtp, Written ue ue.setup_e_rabs params resp e_rab enb_gtp ∧
    ue.eRabSetupReq params resp =
      some { ue with
        setup_e_rabs := ue.setup_e_rabs + params.length, nb_of_e_rabs := params.length,
        e_rab := e_rab, enb_gtp := enb_gtp } := by
  have hmax : S1AP_MAX_E_RAB ≤ NB_RB_MAX := by decide
  have hlt : S1AP_MAX_E_RAB < 2 ^ 8 := by decide
  have hmod : params.length % 2 ^ 8 = params.length := Nat.mod_eq_of_lt (by omega)
  have hmod' : (ue.setup_e_rabs + params.length) % 2 ^ 8 = ue.setup_e_rabs + params.length :=
    Nat.mod_eq_of_lt (by omega)
  obtain ⟨e_rab, hsave, hbefore, hwithin⟩ := saveParams_within ue ue.setup_e_rabs params (by omega)
  obtain ⟨enb_gtp, hcreate, hgtp, hgtp'⟩ :=
    processCreateTunnelResp_within { ue with nb_of_e_rabs := params.length, e_rab := e_rab } resp
      (show ue.setup_e_rabs + resp.tunnels.length ≤ _ by omega)
  refine ⟨e_rab, enb_gtp, ⟨hbefore, hwithin, hgtp, hgtp'⟩, ?_⟩
  rw [eRabSetupReq, hsave, hmod]
  show (processCreateTunnelResp _ _).bind _ = _
  rw [hcreate]
  show some _ = _
  rw [hmod']

section Configured

variable {α : Type} {param : α → ERabParam} {setups : List α} {resp : Gtp.CreateTunnelResp}
  {ue ue' ue'' : Erabs}

theorem requestAndConfigure_initial
    (h : ue.initialContextSetupReq (setups.map param) resp = some ue') (xid : Nat) :
    ue.requestAndConfigure param (.initialContextSetup setups) resp xid = some ue' :=
  Option.bind_eq_some_iff.2 ⟨ue', h, rfl⟩

theorem requestAndConfigure_eRab (h : ue.eRabSetupReq (setups.map param) resp = some ue')
    {xid : Nat} (h' : ue'.generateDedicated xid = some ue'') :
    ue.requestAndConfigure param (.eRabSetup setups) resp xid = some ue'' :=
  Option.bind_eq_some_iff.2 ⟨ue', h, h'⟩

end Configured

theorem getElem?_append_cases {α : Type} {l m : List α} {k : Nat} {x : α}
    (hx : (l ++ m)[k]? = some x) :
    (k < l.length ∧ l[k]? = some x) ∨ ∃ i, k = l.length + i ∧ m[i]? = some x := by
  by_cases hk : k < l.length
  · rw [getElem?_append_left hk] at hx
    exact .inl ⟨hk, hx⟩
  · obtain ⟨i, rfl⟩ := Nat.exists_eq_add_of_le (Nat.le_of_not_lt hk)
    rw [getElem?_append_right (Nat.le_add_right _ i), Nat.add_sub_cancel_left] at hx
    exact .inr ⟨i, rfl, hx⟩

theorem Written.param_append {α : Type} {param : α → ERabParam} {ue : Erabs} {old new : List α}
    {resp : Gtp.CreateTunnelResp} {params : List ERabParam} {e_rab : Nat → ERab}
    {enb_gtp : Nat → EnbGtp} (hw : Written ue old.length params resp e_rab enb_gtp)
    (hold : ∀ k x, old[k]? = some x → (ue.e_rab k).param = param x)
    (hparams : params = new.map param) :
    ∀ k x, (old ++ new)[k]? = some x → (e_rab k).param = param x ∧
    (old.length ≤ k → (e_rab k).status = .new) := by
  intro k x hx
  rcases getElem?_append_cases hx with ⟨hk, hold_x⟩ | ⟨i, rfl, hnew_x⟩
  · rw [hw.e_rab_before k hk]
    exact ⟨hold k x hold_x, fun hle => absurd hk (not_lt.2 hle)⟩
  · obtain ⟨hparam, hnew⟩ :=
      hw.e_rab_within i (param x) (by rw [hparams, getElem?_map, hnew_x]; rfl)
    exact ⟨hparam, fun _ => hnew⟩

/-! ## Places -/

/-- Every E-RAB that is set up has its parameters and its tunnel in one place, in the order of the
requests. -/
structure Inv (s : State) : Prop where
  length : s.setUp.length ≤ s.ue.setup_e_rabs
  entry : ∀ k x, s.setUp[k]? = some x →
    (s.ue.e_rab k).param = x.param ∧ (s.ue.enb_gtp k).teid = x.teid ∧
    (s.ue.enb_gtp k).ebi = x.param.e_rab_id

/-- A context has an initial setup only before any other request, and nothing after a release. A
release comes only when the last request was the only one. -/
def Orderly (s : State) : Event → Prop
  | .request (.initialContextSetup _) _ => s.ue.setup_e_rabs = 0
  | .request (.eRabSetup _) _ => s.ue.setup_e_rabs = s.setUp.length
  | .release => s.ue.setup_e_rabs = s.setUp.length ∧ s.ue.nb_of_e_rabs = s.ue.setup_e_rabs
  | .marked _ => True
  | .reconnected => True

instance (s : State) (e : Event) : Decidable (Orderly s e) := by
  rcases e with (_ | _) | _ | _ | _ <;> unfold Orderly <;> infer_instance

theorem inv_init : Inv {} where
  length := Nat.le_refl 0
  entry k x h := by simp at h

theorem response_length (setups : List Setup) (enb_addr : List Nat) :
    (response setups enb_addr).tunnels.length = (setups.map Setup.param).length := by
  simp [response]

theorem Inv.written (h : Inv s) {setups : List Setup} {enb_addr : List Nat} {e_rab : Nat → ERab}
    {enb_gtp : Nat → EnbGtp} (hsetup : s.ue.setup_e_rabs = s.setUp.length)
    (hw : Written s.ue s.setUp.length (setups.map Setup.param) (response setups enb_addr) e_rab
      enb_gtp) :
    ∀ k x, (s.setUp ++ setups)[k]? = some x →
      (e_rab k).param = x.param ∧ (enb_gtp k).teid = x.teid ∧
      (enb_gtp k).ebi = x.param.e_rab_id := by
  intro k x hx
  have hparam := (hw.param_append (fun k x hx => (h.entry k x hx).1) rfl k x hx).1
  rcases getElem?_append_cases hx with ⟨hk, hold⟩ | ⟨i, rfl, hnew⟩
  · rw [hw.gtp_before k (hsetup ▸ hk)]
    exact ⟨hparam, (h.entry k x hold).2⟩
  have htunnel : (response setups enb_addr).tunnels[i]? = some (x.teid, x.param.e_rab_id) := by
    rw [response, getElem?_map, hnew]
    rfl
  have hgtp := hw.gtp_within i _ htunnel
  rw [hsetup] at hgtp
  rw [hgtp]
  exact ⟨hparam, rfl, rfl⟩

theorem step_request (s : State) (req : Request Setup) (enb_addr : List Nat)
    (h : s.ue.setup_e_rabs + req.setups.length ≤ S1AP_MAX_E_RAB) :
    ∃ t, step s (.request req enb_addr) = some t ∧
      t.ue.setup_e_rabs ≤ s.ue.setup_e_rabs + req.setups.length ∧
      t.ue.nb_of_e_rabs ≤ S1AP_MAX_E_RAB ∧ (Inv s → Orderly s (.request req enb_addr) → Inv t) := by
  cases req with
  | initialContextSetup setups =>
    have hlen : (setups.map Setup.param).length = setups.length := length_map _
    have hcount : s.ue.setup_e_rabs + setups.length ≤ S1AP_MAX_E_RAB := h
    obtain ⟨e_rab, enb_gtp, hw, heq⟩ := initialContextSetupReq_within s.ue (setups.map Setup.param)
      (response setups enb_addr) (by omega) (by rw [response_length]; omega)
    rw [hlen] at heq
    refine ⟨_, by rw [step, request]; simp only [Request.setups, heq]; rfl, Nat.le_add_left _ _,
      show setups.length ≤ S1AP_MAX_E_RAB by omega, ?_⟩
    intro hinv hzero
    have hnil : s.setUp.length = 0 := by
      have hle := hinv.length
      rw [show s.ue.setup_e_rabs = 0 from hzero] at hle
      omega
    refine ⟨?_, hinv.written (hzero.trans hnil.symm) (hnil.symm ▸ hw)⟩
    rw [length_append, hnil, zero_add]
  | eRabSetup setups =>
    have hlen : (setups.map Setup.param).length = setups.length := length_map _
    have hcount : s.ue.setup_e_rabs + setups.length ≤ S1AP_MAX_E_RAB := h
    obtain ⟨e_rab, enb_gtp, hw, heq⟩ :=
      eRabSetupReq_within s.ue (setups.map Setup.param) (response setups enb_addr)
      (by omega) (response_length setups enb_addr)
    rw [hlen] at heq
    refine ⟨_, by rw [step, request]; simp only [Request.setups, heq]; rfl, le_rfl,
      show setups.length ≤ S1AP_MAX_E_RAB by omega, ?_⟩
    intro hinv hsetup
    have hfirst : s.ue.setup_e_rabs = s.setUp.length := hsetup
    refine ⟨?_, hinv.written hfirst (hfirst ▸ hw)⟩
    rw [length_append, hfirst]

theorem step_spec (s : State) (e : Event) (hnb : s.ue.nb_of_e_rabs ≤ S1AP_MAX_E_RAB)
    (h : s.ue.setup_e_rabs + e.count ≤ S1AP_MAX_E_RAB) :
    ∃ t, step s e = some t ∧ t.ue.setup_e_rabs ≤ s.ue.setup_e_rabs + e.count ∧
      t.ue.nb_of_e_rabs ≤ S1AP_MAX_E_RAB ∧ (Inv s → Orderly s e → Inv t) := by
  cases e with
  | request req enb_addr => exact step_request s req enb_addr h
  | marked mark => exact ⟨_, rfl, Nat.le_add_right _ _, hnb,
      fun hinv _ => ⟨hinv.length, hinv.entry⟩⟩
  | reconnected => exact ⟨_, rfl, Nat.le_add_right _ _, hnb, fun hinv _ => hinv⟩
  | release =>
    have hstep : step s .release = some ⟨{ s.ue with
        enb_gtp := fun e_rab => if e_rab < s.ue.nb_of_e_rabs then {} else s.ue.enb_gtp e_rab },
          []⟩ := by
      rw [step, ueContextReleaseCommand, if_pos hnb]
      rfl
    exact ⟨_, hstep, Nat.le_add_right _ _, hnb, fun _ _ =>
      ⟨Nat.zero_le _, fun k x hx => by simp at hx⟩⟩

/-- The room that is left at the start is enough for the whole run. -/
theorem run_spec (es : List Event) (hnb : s.ue.nb_of_e_rabs ≤ S1AP_MAX_E_RAB)
    (h : s.ue.setup_e_rabs + (es.map Event.count).sum ≤ S1AP_MAX_E_RAB) :
    ∃ t, run step s es = some t ∧ t.ue.nb_of_e_rabs ≤ S1AP_MAX_E_RAB ∧
    (Inv s → Meets step Orderly s es → Inv t) := by
  induction es generalizing s with
  | nil => exact ⟨s, rfl, hnb, fun hinv _ => hinv⟩
  | cons e es ih =>
    rw [map_cons, sum_cons] at h
    obtain ⟨u, hu, hsetup, hnb, hkeep⟩ := step_spec s e hnb (by omega)
    obtain ⟨t, ht, htnb, hinv⟩ := ih hnb (by omega)
    exact ⟨t, run_cons.2 ⟨u, hu, ht⟩, htnb, fun hs hmeets =>
      hinv (hkeep hs hmeets.1) (hmeets.2 u hu)⟩

theorem Inv.released (h : Inv s) (hnb : s.ue.nb_of_e_rabs = s.setUp.length) :
    ((List.range s.ue.nb_of_e_rabs).map fun e_rab => (s.ue.enb_gtp e_rab).ebi) =
      s.setUp.map fun x => x.param.e_rab_id := by
  refine ext_getElem (by simp [hnb]) fun k hk hk' => ?_
  rw [getElem_map, getElem_map, getElem_range]
  rw [length_map] at hk'
  exact (h.entry k _ (getElem?_eq_getElem hk')).2.2

/-- As long as there is room a run goes through. If it is orderly, the E-RABs that were set up have
the places from the first on, with their tunnels, and a release names each of them. -/
theorem every_erab_has_its_place (es : List Event) (h : (es.map Event.count).sum ≤ S1AP_MAX_E_RAB) :
    ∃ t, run step {} es = some t ∧ (Meets step Orderly {} es →
      (∀ k x, t.setUp[k]? = some x →
        (t.ue.e_rab k).param = x.param ∧ (t.ue.enb_gtp k).teid = x.teid ∧
          (t.ue.enb_gtp k).ebi = x.param.e_rab_id) ∧
      (Orderly t .release → ∃ ue,
        t.ue.ueContextReleaseCommand = some (t.setUp.map fun x => x.param.e_rab_id, ue))) := by
  obtain ⟨t, ht, hnb, hinv⟩ := run_spec (s := {}) es (Nat.zero_le _) (by simpa using h)
  refine ⟨t, ht, fun hmeets => ⟨(hinv inv_init hmeets).entry, fun hrelease => ?_⟩⟩
  obtain ⟨hsetup, hall⟩ := hrelease
  rw [ueContextReleaseCommand, if_pos hnb, (hinv inv_init hmeets).released (hall.trans hsetup)]
  exact ⟨_, rfl⟩

def twoErabs : List Event :=
  [.request (.initialContextSetup [⟨{ e_rab_id := 5, qci := 9, gtp_teid := 1000 }, 100⟩,
      ⟨{ e_rab_id := 6, qci := 1, gtp_teid := 1001 }, 101⟩]) [10, 0, 0, 1],
    .reconnected]

theorem twoErabs_released :
    ∃ t, run step {} twoErabs = some t ∧ (t.ue.enb_gtp 1).ebi = 6 ∧ (t.ue.enb_gtp 1).teid = 101 ∧
      ∃ ue, t.ue.ueContextReleaseCommand = some ([5, 6], ue) := by
  obtain ⟨t, ht, hsetUp, hrelease⟩ : ∃ t, run step {} twoErabs = some t ∧
      t.setUp.map (fun x => (x.param.e_rab_id,
      x.teid)) = [(5, 100), (6, 101)] ∧ Orderly t .release := run_decided (by decide +kernel)
  obtain ⟨u, hu, hplaces⟩ := every_erab_has_its_place twoErabs (by decide)
  rw [ht] at hu
  cases hu
  obtain ⟨hentry, hdelete⟩ := hplaces (by decide +kernel)
  obtain ⟨ue, hue⟩ := hdelete hrelease
  have hids : t.setUp.map (fun x => x.param.e_rab_id) = [5, 6] := by
    simpa [Function.comp_def] using congrArg (List.map Prod.fst) hsetUp
  obtain ⟨x, hx, hsecond⟩ : ∃ x, t.setUp[1]? = some x ∧ (x.param.e_rab_id, x.teid) = (6, 101) := by
    have hget := congrArg (·[1]?) hsetUp
    simpa using hget
  obtain ⟨-, hteid, hebi⟩ := hentry 1 x hx
  exact ⟨t, ht, hebi.trans (Prod.ext_iff.1 hsecond).1, hteid.trans (Prod.ext_iff.1 hsecond).2, ue,
    hids ▸ hue⟩

def firstErab : Event := .request (.initialContextSetup [⟨{ e_rab_id := 5 }, 100⟩]) []

def secondRequest : List Event := [firstErab, .request (.eRabSetup [⟨{ e_rab_id := 6 }, 101⟩]) []]

def secondContext : List Event :=
  [firstErab, .reconnected, .request (.initialContextSetup [⟨{ e_rab_id := 7 }, 101⟩]) []]

/-- After a second request the release deletes only as many tunnels as that request had, the first
ones. After a reconnection the E-RAB of the new initial setup is put in the first place, and its
tunnel in the second one. -/
theorem an_erab_without_its_place :
    (∃ t, run step {} secondRequest = some t ∧ t.setUp.map (fun x => x.param.e_rab_id) = [5, 6] ∧
      t.ue.ueContextReleaseCommand.map Prod.fst = some [5]) ∧
    ∃ t, run step {} secondContext = some t ∧ (t.ue.e_rab 0).param.e_rab_id = 7 ∧
      t.ue.enb_gtp 0 = ⟨100, [], 5⟩ ∧ t.ue.enb_gtp 1 = ⟨101, [], 7⟩ ∧
      t.ue.ueContextReleaseCommand.map Prod.fst = some [5] := by
  exact ⟨run_decided (by decide +kernel), run_decided (by decide +kernel)⟩

end MacRlcSplit.Rrc.Erabs
