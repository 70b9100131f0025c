-- A reconfiguration that the UE completed: the RLC entities and the logical
-- channels of its radio bearers are set up, and `DRB_active` says which ones
-- are.
import MacRlcSplit.Rrc.ErabRuns

namespace MacRlcSplit.Rrc

open Lib Function
open Pdcp (Ctxt)
open Rlc (Punning)

/-! ## Signalling bearer 2 -/

theorem srb_two : 1 ≤ 2 ∧ 2 ≤ 2 := by decide

def srb2 : Rlc.SrbToAddMod where
  srb_Identity := ⟨2, srb_two⟩
  rlc_Config := some (.explicitValue (.am {
    maxRetxThreshold := 7, pollPDU := 1, pollByte := 9, t_PollRetransmit := 2, t_Reordering :=
      7, t_StatusProhibit := 2 }))

/-- The radio bearer as `rrc_rlc_config_asn1_req` reads it. -/
def DrbToAddMod.toRlc (drb : DrbToAddMod) : Option Rlc.DrbToAddMod :=
  if h : 1 ≤ drb.drb_Identity ∧ drb.drb_Identity ≤
    32 then some ⟨⟨drb.drb_Identity, h⟩, some drb.rlc_Config⟩ else none

namespace Activation

/-! ## The state -/

/-- The length of `DRB_active` and of `DRB2LCHAN`. -/
def maxActive : Nat := 8

/-- The length of `lcgidmap`. -/
def maxLcid : Nat := 11

def Rlc_info_um : Rlc.RlcInfo := .um { timer_reordering := 5, sn_field_length := 10, is_mXch := 0 }

/-- A UE with its bearers in the RRC, in the RLC and in the MAC, and the radio bearers of the
reconfigurations that it completed. `DRB2LCHAN` is one table for all UEs. -/
structure State where
  ue : Erabs := {}
  SRB_configList2 : Nat → List Rlc.SrbToAddMod := fun _ => []
  DRB_active : Nat → Nat := fun _ => 0
  DRB2LCHAN : Nat → Nat := fun _ => 0
  coll : Rlc.Coll
  lcgidmap : Nat → Nat := fun _ => 0
  added : List DrbToAddMod := []

/-! ## The completion -/

/-- What `rrc_mac_config_req` does for a logical channel at the eNB: nothing without a
configuration. -/
def rrcMacConfigReq (s : State) (logicalChannelIdentity : Nat) : Option Nat → Option State
  | none => some s
  | some logicalChannelGroup =>
    if logicalChannelIdentity < maxLcid then
      some { s with lcgidmap := update s.lcgidmap logicalChannelIdentity logicalChannelGroup }
    else none

/-- A turn of the loop over the radio bearers of the transaction, for the one in place `i`. -/
def completeTurn (pun : Punning) (ctxt : Ctxt) (s : State) (x : DrbToAddMod × Nat) : Option State :=
  let (drb, i) := x
  if i < maxActive then
    if s.DRB_active i = 0 then
      let lchan := drb.logicalChannelIdentity % 2 ^ 8
      rrcMacConfigReq { s with
        DRB_active := update s.DRB_active i 1
        DRB2LCHAN := update s.DRB2LCHAN i lchan } lchan (some drb.logicalChannelGroup)
    else do
      -- the entity is removed by the number of the channel
      let coll ← if s.DRB_active i = 1 then
          (Rlc.rrcRlcConfigReq pun s.coll ctxt false .remove (s.DRB2LCHAN i) Rlc_info_um).map
            Prod.fst
        else some s.coll
      rrcMacConfigReq { s with coll := coll, DRB_active := update s.DRB_active i 0 } (s.DRB2LCHAN i)
        none
  else none

/-- `rrc_eNB_process_RRCConnectionReconfigurationComplete`, without PDCP and the physical layer. -/
def processReconfigurationComplete (pun : Punning) (ctxt : Ctxt) (s : State)
    (xid : Nat) : Option State := do
  let drbs := s.ue.DRB_configList2 xid
  let drb2add ← drbs.mapM DrbToAddMod.toRlc
  let (coll, _) ← Rlc.rrcRlcConfigAsn1Req pun s.coll ctxt
    { srb2add := s.SRB_configList2 xid, drb2add := drb2add }
  run (completeTurn pun ctxt) { s with coll := coll } drbs.zipIdx

/-! ## Runs -/

inductive Event where
  | request (req : Erabs.Request Erabs.Setup) (enb_addr : List Nat) (xid : Nat)
  | defaultReconfiguration (xid : Nat)
  | complete (xid : Nat)
  /-- The answers to the MME mark E-RABs that have their radio bearer. -/
  | answered (mark : Nat → ERabStatus × Nat)
  /-- Other UEs complete their reconfigurations. -/
  | others (DRB2LCHAN : Nat → Nat)

def step (pun : Punning) (ctxt : Ctxt) (s : State) : Event → Option State
  | .request req enb_addr xid =>
    (s.ue.requestAndConfigure Erabs.Setup.param req (Erabs.response req.setups enb_addr) xid).map
      fun ue =>
      { s with ue := ue }
  | .defaultReconfiguration xid => (s.ue.generateDefault xid).map fun ue =>
      { s with ue := ue, SRB_configList2 := update s.SRB_configList2 xid [srb2] }
  | .complete xid => (processReconfigurationComplete pun ctxt s xid).map fun t =>
      { t with added := s.added ++ s.ue.DRB_configList2 xid }
  | .answered mark => some { s with ue := s.ue.mark mark }
  | .others DRB2LCHAN => some { s with DRB2LCHAN := DRB2LCHAN }

end Activation

end MacRlcSplit.Rrc
