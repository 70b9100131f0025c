-- The tunnels of the eNB towards the serving gateway, `gtpv1u_eNB.c`: the
-- table of UEs with their bearers, the table of TEIDs, and the user plane that
-- goes by them.
import MacRlcSplit.Lib.Keyed
import MacRlcSplit.Lib.Run

namespace MacRlcSplit.Gtp

open Lib Function

/-! ## The tables -/

def GTPV1U_BEARER_OFFSET : Nat := 3

def max_val_DRB_Identity : Nat := 32

inductive BearerState where
  | down
  | inConfig
  | up
  | dlHandover
  | ulHandover
deriving DecidableEq, Repr

/-- `gtpv1u_bearer_t`, with the octets of the addresses. -/
structure Bearer where
  teid_eNB : Nat := 0
  teid_eNB_stack_session : Nat := 0
  teid_sgw : Nat := 0
  sgw_ip_addr : List Nat := [0, 0, 0, 0]
  sgw_ip6_addr : List Nat := List.replicate 16 0
  state : BearerState := .down
deriving DecidableEq, Repr

/-- `gtpv1u_ue_data_t`. -/
structure UeData where
  ue_id : Nat := 0
  /-- An `int` of 32 bits, which no function raises. -/
  num_bearers : Int := 0
  bearers : Nat → Bearer := fun _ => {}

/-- `gtpv1u_teid_data_t`. -/
structure TeidData where
  ue_id : Nat
  eps_bearer_id : Nat
deriving DecidableEq, Repr

/-- `gtpv1u_data_g`: the two hash tables. -/
structure GtpData where
  ue_mapping : Nat → Option UeData := fun _ => none
  teid_mapping : Nat → Option TeidData := fun _ => none
  enb_ip_address_for_S1u_S12_S4_up : List Nat := [0, 0, 0, 0]

def bearerIndex (eps_bearer_id : Nat) : Option Nat :=
  if GTPV1U_BEARER_OFFSET ≤ eps_bearer_id ∧ eps_bearer_id < max_val_DRB_Identity then
    some (eps_bearer_id - GTPV1U_BEARER_OFFSET)
  else none

/-! ## Creation -/

/-- `transport_layer_addr_t`, with its length in bits. -/
structure TransportLayerAddr where
  length : Nat
  buffer : List Nat
deriving DecidableEq, Repr

/-- A tunnel of `gtpv1u_enb_create_tunnel_req_t`, and the TEID and the session that the stack grants
for it. -/
structure TunnelReq where
  sgw_S1u_teid : Nat
  eps_bearer_id : Nat
  sgw_addr : TransportLayerAddr
  s1u_teid : Nat
  hStackSession : Nat
deriving DecidableEq, Repr

/-- `gtpv1u_enb_create_tunnel_resp_t`, with the TEID and the bearer of each tunnel. -/
structure CreateTunnelResp where
  status : Nat := 0
  rnti : Nat
  tunnels : List (Nat × Nat) := []
  enb_addr : List Nat := []
deriving DecidableEq, Repr

/-- The bearer gets the addresses. Other lengths than these do not pass the assertion. -/
def Bearer.setAddr (b : Bearer) (addr : TransportLayerAddr) : Option Bearer :=
  match addr.length / 8 with
  | 4 => some { b with sgw_ip_addr := addr.buffer.take 4 }
  | 16 => some { b with sgw_ip6_addr := addr.buffer.take 16 }
  | 20 => some { b with sgw_ip_addr := addr.buffer.take 4, sgw_ip6_addr :=
      (addr.buffer.drop 4).take 16 }
  | _ => none

def Bearer.configure (b : Bearer) (tunnel : TunnelReq) : Option Bearer :=
  (b.setAddr tunnel.sgw_addr).map fun b =>
    { b with
      state := .inConfig
      teid_eNB := tunnel.s1u_teid
      teid_eNB_stack_session := tunnel.hStackSession
      teid_sgw := tunnel.sgw_S1u_teid }

/-- The UE gets a bearer. It is put in the table if it is not there. -/
def GtpData.setBearer (s : GtpData) (rnti i : Nat) (b : Bearer) : GtpData :=
  let ue := (s.ue_mapping rnti).getD {}
  let ue := { ue with ue_id := rnti, bearers := update ue.bearers i b }
  { s with ue_mapping := update s.ue_mapping rnti (some ue) }

def GtpData.setTeid (s : GtpData) (teid : Nat) (d : TeidData) : GtpData :=
  { s with teid_mapping := update s.teid_mapping teid (some d) }

/-- A turn of the loop of `gtpv1u_create_s1u_tunnel`. -/
def createTurn (rnti : Nat) (x : GtpData × CreateTunnelResp) (tunnel : TunnelReq) :
    Option (GtpData × CreateTunnelResp) :=
  let (s, resp) := x
  let ebi := tunnel.eps_bearer_id
  let teid := tunnel.s1u_teid
  (bearerIndex ebi).bind fun i =>
    ((((s.ue_mapping rnti).getD {}).bearers i).configure tunnel).map fun b =>
      let s := s.setBearer rnti i b
      let resp := { resp with enb_addr := s.enb_ip_address_for_S1u_S12_S4_up }
      match s.teid_mapping teid with
      | none => (s.setTeid teid ⟨rnti, ebi⟩, { resp with tunnels := resp.tunnels ++ [(teid, ebi)] })
      | some _ => (s, { resp with status := 0xFF, tunnels := resp.tunnels ++ [(0, ebi)] })

def GtpData.gtpv1uCreateS1uTunnel (s : GtpData) (rnti : Nat) (tunnels : List TunnelReq) :
    Option (GtpData × CreateTunnelResp) :=
  run (createTurn rnti) (s, { rnti := rnti }) tunnels

/-! ## Deletion -/

def Bearer.reset (b : Bearer) : Bearer :=
  { b with state := .down, teid_eNB := 0, teid_sgw := 0, sgw_ip_addr := [0, 0, 0, 0] }

/-- A bearer less, in 32 bits. -/
def UeData.uncount (ue : UeData) : UeData :=
  { ue with num_bearers := (ue.num_bearers - 1).bmod (2 ^ 32) }

/-- A turn of the loop of `gtpv1u_delete_s1u_tunnel`, which goes on with the data of the UE after
they were freed. The stack says whether it could destroy the end point. -/
def deleteTurn (rnti : Nat) (x : GtpData × Nat) (erab : Nat × Bool) : Option (GtpData × Nat) :=
  let (s, status) := x
  (s.ue_mapping rnti).bind fun ue => (bearerIndex erab.1).map fun i =>
    let b := ue.bearers i
    let ue := { ue with bearers := update ue.bearers i b.reset }.uncount
    ({ s with
        ue_mapping := update s.ue_mapping rnti (if ue.num_bearers = 0 then none else some ue)
        teid_mapping := update s.teid_mapping b.teid_eNB none },
      if erab.2 then status else 0xFF)

/-- `gtpv1u_delete_s1u_tunnel`, with the status of the response. -/
def GtpData.gtpv1uDeleteS1uTunnel (s : GtpData) (rnti : Nat)
    (erabs : List (Nat × Bool)) : Option (GtpData × Nat) :=
  match s.ue_mapping rnti with
  | none => some (s, 0)
  | some _ => run (deleteTurn rnti) (s, 0) erabs

/-! ## The user plane -/

/-- Where `gtpv1u_eNB_process_stack_req` hands a T-PDU to PDCP: the UE and the radio bearer. -/
def GtpData.recvTpdu (s : GtpData) (teid : Nat) : Option (Nat × Nat) :=
  (s.teid_mapping teid).map fun d =>
    (d.ue_id, if d.eps_bearer_id = 0 then 5 - 4 else d.eps_bearer_id - 4)

/-- Where `GTPV1U_ENB_TUNNEL_DATA_REQ` sends the data of a radio access bearer: the TEID and the
address. None inside if it sends nothing. The last bearer identity that passes the test is behind
the array. -/
def GtpData.tunnelDataReq (s : GtpData) (rnti rab_id : Nat) : Option (Option (Nat × List Nat)) :=
  match s.ue_mapping rnti with
  | none => some none
  | some ue =>
    if GTPV1U_BEARER_OFFSET ≤ rab_id ∧ rab_id ≤ max_val_DRB_Identity then
      (bearerIndex rab_id).map fun i => some ((ue.bearers i).teid_sgw, (ue.bearers i).sgw_ip_addr)
    else some none

end MacRlcSplit.Gtp
