-- The E-RABs of a UE in the RRC: the setup requests of the MME and the
-- tunnels that GTP-U makes for them, the radio bearers that are configured for
-- them, and the release of all of them.
import MacRlcSplit.Gtp.Tunnels
import MacRlcSplit.Lib.Table
import MacRlcSplit.Rlc.Config

namespace MacRlcSplit.Rrc

open Lib Function
open Pdcp (NB_RB_MAX)

/-! ## E-RABs -/

def S1AP_MAX_E_RAB : Nat := 11

/-- `e_rab_status_t`, in its order. -/
inductive ERabStatus where
  | new
  | done
  | established
  | failed
deriving DecidableEq, Repr

/-- `e_rab_t`, without the NAS message. -/
structure ERabParam where
  e_rab_id : Nat := 0
  qci : Nat := 0
  gtp_teid : Nat := 0
  sgw_addr : Gtp.TransportLayerAddr := ⟨0, []⟩
deriving DecidableEq, Repr

/-- `e_rab_param_t`. -/
structure ERab where
  status : ERabStatus := .new
  param : ERabParam := {}
  xid : Nat := 0
deriving DecidableEq, Repr

/-- An entry of `enb_gtp_teid`, `enb_gtp_addrs` and `enb_gtp_ebi`. -/
structure EnbGtp where
  teid : Nat := 0
  addrs : List Nat := []
  ebi : Nat := 0
deriving DecidableEq, Repr

/-- `DRB_ToAddMod`, with the group of its logical channel. -/
structure DrbToAddMod where
  eps_BearerIdentity : Nat
  drb_Identity : Nat
  logicalChannelIdentity : Nat
  rlc_Config : Rlc.RlcConfig
  logicalChannelGroup : Nat
deriving DecidableEq, Repr

/-- The E-RABs in `eNB_RRC_UE_t` and the lists of radio bearers: of all of them, and of each
transaction. -/
structure Erabs where
  setup_e_rabs : Nat := 0
  nb_of_e_rabs : Nat := 0
  e_rab : Nat → ERab := fun _ => {}
  enb_gtp : Nat → EnbGtp := fun _ => {}
  DRB_configList : Option (List DrbToAddMod) := none
  DRB_configList2 : Nat → List DrbToAddMod := fun _ => []

namespace Erabs

/-! ## The requests of the MME -/

/-- The loop over the E-RABs of a request. -/
def saveParams (ue : Erabs) (first : Nat) (params : List ERabParam) : Option Erabs :=
  (modifyFrom NB_RB_MAX (fun param e_rab => { e_rab with status := .new, param := param }) ue.e_rab
    first params).map fun e_rab => { ue with e_rab := e_rab }

def processCreateTunnelResp (ue : Erabs) (resp : Gtp.CreateTunnelResp) : Option Erabs :=
  (modifyFrom S1AP_MAX_E_RAB (fun tunnel _ => ⟨tunnel.1, resp.enb_addr, tunnel.2⟩) ue.enb_gtp
    ue.setup_e_rabs resp.tunnels).map fun enb_gtp => { ue with enb_gtp := enb_gtp }

/-- What `rrc_eNB_process_S1AP_INITIAL_CONTEXT_SETUP_REQ` does with the E-RABs, where `resp` is the
answer of GTP-U. -/
def initialContextSetupReq (ue : Erabs) (params : List ERabParam)
    (resp : Gtp.CreateTunnelResp) : Option Erabs := do
  let ue ← { ue with nb_of_e_rabs := params.length % 2 ^ 8 }.saveParams 0 params
  let ue ← ue.processCreateTunnelResp resp
  some { ue with setup_e_rabs := ue.nb_of_e_rabs }

/-- What `rrc_eNB_process_S1AP_E_RAB_SETUP_REQ` does with the E-RABs, before it configures radio
bearers. -/
def eRabSetupReq (ue : Erabs) (params : List ERabParam)
    (resp : Gtp.CreateTunnelResp) : Option Erabs := do
  let ue ← ue.saveParams ue.setup_e_rabs params
  let ue ← { ue with nb_of_e_rabs := params.length % 2 ^ 8 }.processCreateTunnelResp resp
  some { ue with setup_e_rabs := (ue.setup_e_rabs + params.length) % 2 ^ 8 }

/-- The tunnels that `rrc_eNB_process_S1AP_UE_CONTEXT_RELEASE_COMMAND` asks GTP-U to delete, and
what it erases. -/
def ueContextReleaseCommand (ue : Erabs) : Option (List Nat × Erabs) :=
  if ue.nb_of_e_rabs ≤ S1AP_MAX_E_RAB then
    some ((List.range ue.nb_of_e_rabs).map fun e_rab => (ue.enb_gtp e_rab).ebi,
      { ue with enb_gtp := fun e_rab => if e_rab < ue.nb_of_e_rabs then {} else ue.enb_gtp e_rab })
  else none

/-! ## Radio bearers -/

def umConfig : Rlc.RlcConfig := .umBiDirectional .size10 ⟨.size10, 7⟩

def amConfig : Rlc.RlcConfig :=
  .am { maxRetxThreshold := 5, pollPDU := 2, pollByte := 14, t_PollRetransmit := 9,
        t_Reordering := 7, t_StatusProhibit := 5 }

/-- The mode for a QCI. Other values are not supported. -/
def rlcConfigOfQci (qci : Nat) : Option Rlc.RlcConfig :=
  if qci ∈ [1, 2, 3, 4, 7, 9, 65, 66] then some umConfig
  else if qci ∈ [5, 6, 8, 69, 70] then some amConfig
  else none

def defaultDrb : DrbToAddMod where
  eps_BearerIdentity := 5
  drb_Identity := 1
  logicalChannelIdentity := 3
  rlc_Config := umConfig
  logicalChannelGroup := 1

/-- What `rrc_eNB_generate_defaultRRCConnectionReconfiguration` does to the bearers of the UE. All
E-RABs of the last request count as done. -/
def generateDefault (ue : Erabs) (xid : Nat) : Option Erabs :=
  if ue.nb_of_e_rabs ≤ NB_RB_MAX then
    some { ue with
      DRB_configList := some [defaultDrb]
      DRB_configList2 := update ue.DRB_configList2 xid [defaultDrb]
      e_rab := fun i =>
        if i < ue.nb_of_e_rabs then { ue.e_rab i with status := .done } else ue.e_rab i }
  else none

/-- The loop variables of the next function. -/
structure DedicatedLoop where
  ue : Erabs
  drb_identity_index : Nat := 0
  e_rab_done : Nat := 0

/-- A turn of the loop of `rrc_eNB_generate_dedicatedRRCConnectionReconfiguration`. The list of all
bearers is there only after the default bearer was configured. -/
def dedicatedTurn (xid : Nat) (x : DedicatedLoop) (i : Nat) : Option DedicatedLoop :=
  let e_rab := x.ue.e_rab i
  if e_rab.status = .new then
    let drb_Identity := 1 + x.drb_identity_index + x.e_rab_done
    match rlcConfigOfQci e_rab.param.qci with
    | none => some { x with
        ue.e_rab := update x.ue.e_rab i { e_rab with status := .failed, xid := xid } }
    | some rlc_Config =>
      let drb : DrbToAddMod := ⟨e_rab.param.e_rab_id, drb_Identity, drb_Identity + 2, rlc_Config, 1⟩
      x.ue.DRB_configList.map fun DRB_configList => { x with
        e_rab_done := x.e_rab_done + 1
        ue.DRB_configList := some (DRB_configList ++ [drb])
        ue.DRB_configList2 := update x.ue.DRB_configList2 xid (x.ue.DRB_configList2 xid ++ [drb])
        ue.e_rab := update x.ue.e_rab i { e_rab with status := .done, xid := xid } }
  else
    some { x with drb_identity_index := x.drb_identity_index + 1 }

/-- What `rrc_eNB_generate_dedicatedRRCConnectionReconfiguration` does to the bearers of the UE. -/
def generateDedicated (ue : Erabs) (xid : Nat) : Option Erabs :=
  if ue.setup_e_rabs ≤ NB_RB_MAX then
    let ue := { ue with DRB_configList2 := update ue.DRB_configList2 xid [] }
    (run (dedicatedTurn xid) { ue := ue } (List.range ue.setup_e_rabs)).map (·.ue)
  else none

/-! ## Requests, from the MME to the reconfiguration -/

/-- What the MME asks for: the first E-RABs of a context, or more of them. -/
inductive Request (α : Type) where
  | initialContextSetup (setups : List α)
  | eRabSetup (setups : List α)

section Request

variable {α : Type} (param : α → ERabParam) (req : Request α) (resp : Gtp.CreateTunnelResp)

def Request.setups : List α :=
  match req with
  | .initialContextSetup setups | .eRabSetup setups => setups

/-- A request and the answer of GTP-U. -/
def request (ue : Erabs) : Option Erabs :=
  match req with
  | .initialContextSetup setups => ue.initialContextSetupReq (setups.map param) resp
  | .eRabSetup setups => ue.eRabSetupReq (setups.map param) resp

/-- After a request for more E-RABs, their radio bearers are configured at once. -/
def requestAndConfigure (ue : Erabs) (xid : Nat) : Option Erabs := do
  let ue ← ue.request param req resp
  match req with
  | .initialContextSetup _ => some ue
  | .eRabSetup _ => ue.generateDedicated xid

end Request

end Erabs

end MacRlcSplit.Rrc
