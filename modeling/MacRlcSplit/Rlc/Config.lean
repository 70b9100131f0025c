-- How the RRC sets up RLC entities: `rrc_rlc_config_asn1_req` and
-- `rrc_rlc_config_req` add, configure and remove them, and `rrc_rlc_remove_ue`
-- takes the bearers of a UE away.
import MacRlcSplit.Pdcp.Config
import MacRlcSplit.Um.Entity

namespace MacRlcSplit.Rlc

open Function
open Pdcp (Ctxt RlcMode SrbIdentity DrbIdentity NB_RB_MAX maxDRB)
open Um (SnLength ProtocolState)

/-! ## Entities -/

structure AmBody where
  rb_id : Nat := 0
  is_data_plane : Bool := false
  configured : Bool := false
  entity : Am.Entity

/-- What `rlc_um_configure` sets. A direction whose SN length is 0 keeps the values of
`rlc_um_init`. -/
structure UmSetting where
  t_reordering : Nat
  rx_sn_length : Option SnLength
  tx_sn_length : Option SnLength
  is_mxch : Nat
deriving DecidableEq, Repr

structure UmBody where
  rb_id : Nat := 0
  is_data_plane : Bool := false
  protocol_state : ProtocolState := .null
  setting : Option UmSetting := none
deriving DecidableEq, Repr

structure TmBody where
  rb_id : Nat
  is_data_plane : Bool
  is_uplink_downlink : Bool
deriving DecidableEq, Repr

/-- The union in `rlc_union_t`: as `calloc` leaves it, or as the last mode that wrote to it. -/
inductive Body where
  | blank
  | am (a : AmBody)
  | um (u : UmBody)
  | tm (t : TmBody)

/-- What the bytes that one mode wrote are for another mode, if they look initialized. -/
structure Punning where
  am : Body → Option AmBody
  um : Body → Option UmBody

def Body.asAm (pun : Punning) : Body → Option AmBody
  | .blank => none
  | .am a => some a
  | b => pun.am b

def Body.asUm (pun : Punning) : Body → Option UmBody
  | .blank => none
  | .um u => some u
  | b => pun.um b

structure RlcUnion where
  mode : RlcMode
  body : Body

/-- The entity works: `rlc_am_configure`, `rlc_um_configure` or `rlc_tm_configure` went through. -/
def RlcUnion.configured (pun : Punning) (u : RlcUnion) : Bool :=
  match u.mode with
  | .none => false
  | .am => (u.body.asAm pun).any (·.configured)
  | .um => (u.body.asUm pun).any (·.setting.isSome)
  | .tm => match u.body with
    | .tm _ => true
    | _ => false

abbrev Coll := Nat → Option RlcUnion

/-- `RLC_COLL_KEY_VALUE`, with the fields of `PDCP_COLL_KEY_VALUE`. -/
def rlcCollKeyValue (ctxt : Ctxt) (rb_id : Nat) (srb_flag : Bool) : Nat :=
  Pdcp.collKey ctxt rb_id srb_flag

/-! ## AM -/

/-- `rlc_am_init`, for an entity that is not initialized. -/
def rlcAmInit : AmBody where
  entity := { cfg := ⟨0, 0, 0, 0, 0, 0⟩ }

def rlcAmSetDebugInfos (a : AmBody) (srb_flag : Bool) (rb_id : Nat) : AmBody :=
  { a with rb_id := rb_id, is_data_plane := !srb_flag }

/-- `rlc_am_configure`. A second time, timers go on with a new duration. -/
def rlcAmConfigure (a : AmBody) (cfg : Am.Config) : AmBody :=
  let e := a.entity
  if a.configured then
    { a with
      entity := { e with
        cfg := cfg
        poll.t_poll_retransmit.ms_duration := cfg.t_poll_retransmit
        rx.t_reordering.ms_duration := cfg.t_reordering
        rx.t_status_prohibit.ms_duration := cfg.t_status_prohibit } }
  else
    { a with
      configured := true
      entity := { e with
        cfg := cfg
        poll.t_poll_retransmit := { ms_duration := cfg.t_poll_retransmit }
        rx.t_reordering := { ms_duration := cfg.t_reordering }
        rx.t_status_prohibit := { ms_duration := cfg.t_status_prohibit } } }

/-- What both ways to configure an AM entity do with it. -/
def configureAm (pun : Punning) (srb_flag : Bool) (rb_id : Nat) (cfg : Am.Config)
    (b : Body) : Body :=
  .am (rlcAmConfigure (rlcAmSetDebugInfos ((b.asAm pun).getD rlcAmInit) srb_flag rb_id) cfg)

/-- The entity under a key is changed, if there is one. -/
def modifyRlc (coll : Coll) (key : Nat) (f : Body → Body) : Coll :=
  match coll key with
  | none => coll
  | some u => update coll key (some { u with body := f u.body })

def configReqRlcAm (pun : Punning) (coll : Coll) (ctxt : Ctxt) (srb_flag : Bool)
    (config_am : Am.Config) (rb_id : Nat) : Coll :=
  modifyRlc coll (rlcCollKeyValue ctxt rb_id srb_flag) (configureAm pun srb_flag rb_id config_am)

def pollPDU_tab : List Nat := [4, 8, 16, 32, 64, 128, 256, 1024]

def maxRetxThreshold_tab : List Nat := [1, 2, 3, 4, 6, 8, 16, 32]

def pollByte_tab : List Nat :=
  [25, 50, 75, 100, 125, 250, 375, 500, 750, 1000, 1250, 1500, 2000, 3000, 10000]

def PollRetransmit_tab : List Nat :=
  [5, 10, 15, 20, 25, 30, 35, 40, 45, 50, 55, 60, 65, 70, 75, 80, 85, 90, 95, 100, 105, 110, 115,
    120, 125, 130, 135,
    140, 145, 150, 155, 160, 165, 170, 175, 180, 185, 190, 195, 200, 205, 210, 215, 220, 225, 230,
    235, 240, 245, 250, 300, 350, 400, 450, 500]

def t_Reordering_tab : List Nat :=
  [0, 5, 10, 15, 20, 25, 30, 35, 40, 45, 50, 55, 60, 65, 70, 75, 80, 85, 90, 95, 100, 110, 120, 130,
    140, 150, 160, 170, 180, 190, 200]

def t_StatusProhibit_tab : List Nat :=
  [0, 5, 10, 15, 20, 25, 30, 35, 40, 45, 50, 55, 60, 65, 70, 75, 80, 85, 90, 95, 100, 105, 110, 115,
    120, 125, 130,
    135, 140, 145, 150, 155, 160, 165, 170, 175, 180, 185, 190, 195, 200, 205, 210, 215, 220, 225,
    230, 235, 240, 245, 250, 300, 350, 400, 450, 500]

/-- `RLC-Config` for AM: the numbers of the enumerated values. -/
structure RlcConfigAm where
  maxRetxThreshold : Nat
  pollPDU : Nat
  pollByte : Nat
  t_PollRetransmit : Nat
  t_Reordering : Nat
  t_StatusProhibit : Nat
deriving DecidableEq, Repr

/-- The values in the tables, unless one of them is not there. -/
def RlcConfigAm.values (c : RlcConfigAm) : Option Am.Config := do
  let max_retx_threshold ← maxRetxThreshold_tab[c.maxRetxThreshold]?
  let poll_pdu ← pollPDU_tab[c.pollPDU]?
  let poll_byte ← pollByte_tab[c.pollByte]?
  let t_poll_retransmit ← PollRetransmit_tab[c.t_PollRetransmit]?
  let t_reordering ← t_Reordering_tab[c.t_Reordering]?
  let t_status_prohibit ← t_StatusProhibit_tab[c.t_StatusProhibit]?
  some { max_retx_threshold, poll_pdu, poll_byte, t_poll_retransmit, t_reordering,
         t_status_prohibit }

/-- What an SRB with `defaultValue` gets. -/
def RlcConfigAm.default : RlcConfigAm where
  maxRetxThreshold := 3
  pollPDU := 7
  pollByte := 14
  t_PollRetransmit := 8
  t_Reordering := 7
  t_StatusProhibit := 0

example : RlcConfigAm.default.values = some ⟨4, 1024, 10000, 45, 35, 0⟩ := rfl

/-- `config_req_rlc_am_asn1`. With a value that is not in the tables the entity stays as it is. -/
def configReqRlcAmAsn1 (pun : Punning) (coll : Coll) (ctxt : Ctxt) (srb_flag : Bool)
    (config_am : RlcConfigAm) (rb_id : Nat) : Coll :=
  modifyRlc coll (rlcCollKeyValue ctxt rb_id srb_flag) fun b =>
    match config_am.values with
    | none => b
    | some cfg => configureAm pun srb_flag rb_id cfg b

/-! ## UM -/

/-- What a field length means: nothing is set for 0, and other lengths than 5 and 10 are refused. -/
def snFieldLength : Nat → Option (Option SnLength)
  | 0 => some none
  | 5 => some (some .five)
  | 10 => some (some .ten)
  | _ => none

def rlcUmConfigure (u : UmBody)
    (timer_reordering rx_sn_field_length tx_sn_field_length is_mXch : Nat) : UmBody :=
  match snFieldLength rx_sn_field_length, snFieldLength tx_sn_field_length with
  | some rx, some tx => { u with setting := some ⟨timer_reordering, rx, tx, is_mXch⟩ }
  | _, _ => u

/-- What both ways to configure a UM entity do with it: the event of `rlc_um_fsm_notify_event` is
refused by an entity that is ready. -/
def configureUm (pun : Punning) (srb_flag : Bool) (rb_id : Nat) (configure : UmBody → UmBody)
    (b : Body) : Body :=
  let u := (b.asUm pun).getD {}
  match u.protocol_state with
  | .null =>
    .um (configure { u with protocol_state := .dataTransferReady, rb_id := rb_id, is_data_plane :=
      !srb_flag })
  | .dataTransferReady => b

/-- `rlc_um_info_t`. -/
structure RlcUmInfo where
  timer_reordering : Nat
  sn_field_length : Nat
  is_mXch : Nat := 0
deriving DecidableEq, Repr

def configReqRlcUm (pun : Punning) (coll : Coll) (ctxt : Ctxt) (srb_flag : Bool)
    (config_um : RlcUmInfo) (rb_id : Nat) : Coll :=
  modifyRlc coll (rlcCollKeyValue ctxt rb_id srb_flag) (configureUm pun srb_flag rb_id fun u =>
    rlcUmConfigure u config_um.timer_reordering config_um.sn_field_length config_um.sn_field_length
      config_um.is_mXch)

/-- `SN-FieldLength`, or a number that stands for none. -/
inductive SnFieldLength where
  | size5
  | size10
  | other
deriving DecidableEq, Repr

def SnFieldLength.bits : SnFieldLength → Option Nat
  | .size5 => some 5
  | .size10 => some 10
  | .other => none

structure DlUmRlc where
  sn_FieldLength : SnFieldLength
  t_Reordering : Nat
deriving DecidableEq, Repr

/-- The timer and the two field lengths for `rlc_um_configure`: what is down for the eNB is up for
the UE. -/
def umValues (enb_flag : Bool) (ul : Option SnFieldLength)
    (dl : Option DlUmRlc) : Option (Nat × Nat × Nat) := do
  let ul_sn_FieldLength ← (ul.map SnFieldLength.bits).getD (some 0)
  let dl_sn_FieldLength ← (dl.map (·.sn_FieldLength.bits)).getD (some 0)
  let t_Reordering ← (dl.map fun d => t_Reordering_tab[d.t_Reordering]?).getD (some 0)
  some (if enb_flag then (t_Reordering, ul_sn_FieldLength, dl_sn_FieldLength)
    else (t_Reordering, dl_sn_FieldLength, ul_sn_FieldLength))

/-- `config_req_rlc_um_asn1`. With a value that is not in the tables the entity is ready, but not
configured. -/
def configReqRlcUmAsn1 (pun : Punning) (coll : Coll) (ctxt : Ctxt) (srb_flag : Bool)
    (ul : Option SnFieldLength) (dl : Option DlUmRlc) (rb_id : Nat) : Option Coll :=
  if (coll (rlcCollKeyValue ctxt rb_id srb_flag)).isSome then
    some (modifyRlc coll (rlcCollKeyValue ctxt rb_id srb_flag)
      (configureUm pun srb_flag rb_id fun u =>
      match umValues ctxt.enb_flag ul dl with
      | none => u
      | some v => rlcUmConfigure u v.1 v.2.1 v.2.2 0))
  else none

/-! ## TM -/

/-- `config_req_rlc_tm`. It gives the flag and the id to `rlc_tm_set_debug_infos` the wrong way
round. -/
def configReqRlcTm (coll : Coll) (ctxt : Ctxt) (srb_flag : Bool) (is_uplink_downlink : Bool)
    (rb_id : Nat) : Coll :=
  modifyRlc coll (rlcCollKeyValue ctxt rb_id srb_flag) fun _ =>
    .tm { rb_id := srb_flag.toNat, is_data_plane := rb_id == 0, is_uplink_downlink :=
      is_uplink_downlink }

/-! ## Adding and removing -/

def RLC_MAX_LC : Nat := (32 + 1) * 16

/-- `rrc_rlc_add_rlc`, with whether it gives a pointer and not NULL: only a hash table that has no
room for an entry makes it give NULL. -/
def rrcRlcAddRlc (coll : Coll) (ctxt : Ctxt) (srb_flag : Bool) (rb_id chan_id : Nat)
    (rlc_mode : RlcMode) : Option (Coll × Bool) :=
  if rb_id < NB_RB_MAX ∧ chan_id < RLC_MAX_LC then
    match coll (rlcCollKeyValue ctxt rb_id srb_flag) with
    | some u => if u.mode = rlc_mode then some (coll, true) else none
    | none => some (update coll (rlcCollKeyValue ctxt rb_id srb_flag) (some ⟨rlc_mode, .blank⟩),
        true)
  else none

def rrcRlcRemoveRlc (coll : Coll) (ctxt : Ctxt) (srb_flag : Bool) (rb_id : Nat) : Option Coll :=
  if rb_id < NB_RB_MAX then some (update coll (rlcCollKeyValue ctxt rb_id srb_flag) none) else none

def rrcRlcRemoveUe (coll : Coll) (ctxt : Ctxt) : Option Coll := do
  let coll ← [1, 2].foldlM (fun coll rb_id => rrcRlcRemoveRlc coll ctxt true rb_id) coll
  ((List.range maxDRB).map (· + 1)).foldlM (fun coll rb_id =>
    rrcRlcRemoveRlc coll ctxt false rb_id) coll

/-! ## The lists of the RRC -/

/-- `RLC-Config`. -/
inductive RlcConfig where
  | nothing
  | am (config : RlcConfigAm)
  | umBiDirectional (ul : SnFieldLength) (dl : DlUmRlc)
  | umUniDirectionalUl (ul : SnFieldLength)
  | umUniDirectionalDl (dl : DlUmRlc)
  | unknown
deriving DecidableEq, Repr

def RlcConfig.mode : RlcConfig → Option RlcMode
  | .nothing | .unknown => none
  | .am _ => some .am
  | .umBiDirectional _ _ | .umUniDirectionalUl _ | .umUniDirectionalDl _ => some .um

/-- `rlc_Config` of an SRB. -/
inductive SrbRlcConfig where
  | nothing
  | explicitValue (config : RlcConfig)
  | defaultValue
deriving DecidableEq, Repr

/-- The configuration of an SRB, with the default one filled in. -/
def SrbRlcConfig.config : SrbRlcConfig → RlcConfig
  | .nothing => .nothing
  | .explicitValue config => config
  | .defaultValue => .am .default

structure SrbToAddMod where
  srb_Identity : SrbIdentity
  rlc_Config : Option SrbRlcConfig

/-- Without `rlc_Config` there is nothing to add. -/
def SrbToAddMod.config (x : SrbToAddMod) : RlcConfig :=
  (x.rlc_Config.map SrbRlcConfig.config).getD .nothing

structure DrbToAddMod where
  drb_Identity : DrbIdentity
  rlc_Config : Option RlcConfig

def DrbToAddMod.config (x : DrbToAddMod) : RlcConfig := x.rlc_Config.getD .nothing

structure ConfigAsn1Req where
  srb2add : List SrbToAddMod := []
  drb2add : List DrbToAddMod := []
  drb2release : List DrbIdentity := []

/-- The entity that `rrc_rlc_add_rlc` gave is configured. -/
def configureRlc (pun : Punning) (coll : Coll) (ctxt : Ctxt) (srb_flag : Bool)
    (rb_id : Nat) : RlcConfig → Option Coll
  | .nothing | .unknown => some coll
  | .am config => some (configReqRlcAmAsn1 pun coll ctxt srb_flag config rb_id)
  | .umBiDirectional ul dl => configReqRlcUmAsn1 pun coll ctxt srb_flag (some ul) (some dl) rb_id
  | .umUniDirectionalUl ul => configReqRlcUmAsn1 pun coll ctxt srb_flag (some ul) none rb_id
  | .umUniDirectionalDl dl => configReqRlcUmAsn1 pun coll ctxt srb_flag none (some dl) rb_id

/-- One turn of the loops over the add lists. -/
def addMod (pun : Punning) (ctxt : Ctxt) (srb_flag : Bool) (coll : Coll) (rb_id : Nat)
    (config : RlcConfig) : Option Coll :=
  match config.mode with
  | none => some coll
  | some mode =>
    (rrcRlcAddRlc coll ctxt srb_flag rb_id (rb_id + 2) mode).bind fun r =>
      if r.2 then configureRlc pun r.1 ctxt srb_flag rb_id config else some r.1

def addSrb (pun : Punning) (ctxt : Ctxt) (coll : Coll) (x : SrbToAddMod) : Option Coll :=
  addMod pun ctxt true coll x.srb_Identity x.config

def addDrb (pun : Punning) (ctxt : Ctxt) (coll : Coll) (x : DrbToAddMod) : Option Coll :=
  addMod pun ctxt false coll x.drb_Identity x.config

inductive RlcOpStatus where
  | ok
  | badParameter
  | internalError
deriving DecidableEq, Repr

def rrcRlcConfigAsn1Req (pun : Punning) (coll : Coll) (ctxt : Ctxt) (req : ConfigAsn1Req) :
    Option (Coll × RlcOpStatus) := do
  let coll ← req.srb2add.foldlM (addSrb pun ctxt) coll
  let coll ← req.drb2add.foldlM (addDrb pun ctxt) coll
  let coll ← req.drb2release.foldlM (fun coll (id : DrbIdentity) =>
    rrcRlcRemoveRlc coll ctxt false id) coll
  some (coll, .ok)

/-! ## One bearer at a time -/

/-- `rlc_info_t`. -/
inductive RlcInfo where
  | none
  | am (info : Am.Config)
  | um (info : RlcUmInfo)
  | tm (is_uplink_downlink : Bool)
deriving DecidableEq, Repr

def RlcInfo.mode : RlcInfo → RlcMode
  | .none => .none
  | .am _ => .am
  | .um _ => .um
  | .tm _ => .tm

inductive ConfigAction where
  | add
  | modify
  | remove
  | other
deriving DecidableEq, Repr

/-- The case `CONFIG_ACTION_MODIFY`, also for an entity in another mode or for none. -/
def modifyRb (pun : Punning) (coll : Coll) (ctxt : Ctxt) (srb_flag : Bool)
    (rb_id : Nat) : RlcInfo → Coll × RlcOpStatus
  | .none => (coll, .badParameter)
  | .am info => (configReqRlcAm pun coll ctxt srb_flag info rb_id, .ok)
  | .um info => (configReqRlcUm pun coll ctxt srb_flag info rb_id, .ok)
  | .tm is_uplink_downlink => (configReqRlcTm coll ctxt srb_flag is_uplink_downlink rb_id, .ok)

/-- `rrc_rlc_config_req`. The case `CONFIG_ACTION_ADD` goes on to the next one when there is no
entity. -/
def rrcRlcConfigReq (pun : Punning) (coll : Coll) (ctxt : Ctxt) (srb_flag : Bool)
    (action : ConfigAction) (rb_id : Nat) (rlc_info : RlcInfo) : Option (Coll × RlcOpStatus) :=
  if rb_id < NB_RB_MAX then
    match action with
    | .add => (rrcRlcAddRlc coll ctxt srb_flag rb_id rb_id rlc_info.mode).map fun r =>
      if r.2 then (r.1, .internalError) else modifyRb pun r.1 ctxt srb_flag rb_id rlc_info
    | .modify => some (modifyRb pun coll ctxt srb_flag rb_id rlc_info)
    | .remove => (rrcRlcRemoveRlc coll ctxt srb_flag rb_id).map fun coll => (coll, .ok)
    | .other => some (coll, .badParameter)
  else none

end MacRlcSplit.Rlc
