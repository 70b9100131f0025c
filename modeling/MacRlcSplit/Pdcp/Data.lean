-- The data path, `pdcp_data_req` and `pdcp_data_ind`: an SDU of the upper
-- layer gets a header and security and goes to the RLC, and back.
import MacRlcSplit.Pdcp.Security

namespace MacRlcSplit.Pdcp

open Am (Byte)

/-! ## Headers -/

/-- `pdcp_transmission_mode_t` but for the transparent mode, which is for MBMS. -/
inductive Mode where
  | control
  | data
deriving DecidableEq, Repr

def serializeSrbSn (sn : Nat) : List Byte := [UInt8.ofNat sn &&& 0x1F]

def serializeLongSn (mode : Mode) (sn : Nat) : List Byte :=
  [UInt8.ofNat (sn / 256) ||| (if mode = .data then 0x80 else 0), UInt8.ofNat sn]

def getSrbSn (pdu : List Byte) : Nat := (pdu.getD 0 0).toNat % 32

def getShortSn (pdu : List Byte) : Nat := (pdu.getD 0 0).toNat % 128

def getLongSn (pdu : List Byte) : Nat := (pdu.getD 0 0).toNat % 16 * 256 + (pdu.getD 1 0).toNat

/-! ## Sending -/

/-- The header of the sender: the long one for every DRB. The SN of a control PDU is a
`uint8_t`. -/
def txHeader (srb_flag : Bool) (mode : Mode) (sn : Nat) : List Byte × Nat :=
  if srb_flag then (serializeSrbSn (sn % 2 ^ 8), sn % 2 ^ 8) else (serializeLongSn mode sn, sn)

def tailerLen (srb_flag : Bool) : Nat := if srb_flag then 4 else 0

/-- Security is on, with an algorithm. -/
def Entity.secures (p : Entity) : Bool :=
  p.security_activated && (p.cipheringAlgorithm ≠ 0 || p.integrityProtAlgorithm ≠ 0)

/-- The entity and the PDU for an SDU, if it gets one. The `rb_id` is that of the call, modulo
`maxDRB`. -/
def Entity.dataReq (osa : Osa) (p : Entity) (srb_flag : Bool) (rb_id : Nat) (mode : Mode)
    (sdu : List Byte) : Entity × Option (List Byte) :=
  let (p', sn) := pdcpGetNextTxSeqNumber p
  let (header, current_sn) := txHeader srb_flag mode sn
  if current_sn > p'.maxSn then (p', none)
  else
    let pdu := header ++ sdu ++ List.replicate (tailerLen srb_flag) 0
    (p', some (if p'.secures then
      pdcpApplySecurity osa p' srb_flag rb_id header.length current_sn pdu sdu.length else pdu))

/-- The limit with jumbo frames. -/
def MAX_IP_PACKET_SIZE : Nat := 10000

/-- An SDU that is too large stops the process, and one that is empty or for no bearer is
ignored. What goes to the RLC is the PDU. -/
def pdcpDataReq (osa : Osa) (coll : Coll) (ctxt : Ctxt) (srb_flag : Bool) (rb_id : Nat)
    (mode : Mode) (sdu : List Byte) : Option (Coll × Option (List Byte)) :=
  if sdu.length = 0 then some (coll, none)
  else if sdu.length > MAX_IP_PACKET_SIZE then none
  else if rb_id ≥ (if srb_flag then 3 else maxDRB) then some (coll, none)
  else
    match coll (collKey ctxt rb_id srb_flag) with
    | none => some (coll, none)
    | some p =>
      let result := p.dataReq osa srb_flag (rb_id % maxDRB) mode sdu
      some (Function.update coll (collKey ctxt rb_id srb_flag) (some result.1), result.2)

/-! ## Receiving -/

/-- What goes up: an RRC message, a packet for GTP-U, or one in the list for IP. -/
inductive Upper where
  | rrcDataInd (rb_id : Nat) (sdu : List Byte)
  | gtpu (rnti : UInt16) (rab_id : Nat) (sdu : List Byte)
  | ip (rb_id : Nat) (sdu : List Byte)
deriving DecidableEq, Repr

def Upper.sdu : Upper → List Byte
  | .rrcDataInd _ sdu | .gtpu _ _ sdu | .ip _ sdu => sdu

/-- The length of the header and the SN, as the receiver sees them. -/
def rxHeader (p : Entity) (srb_flag : Bool) (pdu : List Byte) : Nat × Nat :=
  if srb_flag then (1, getSrbSn pdu)
  else if p.seq_num_size = 7 then (1, getShortSn pdu)
  else if p.seq_num_size = 12 then (2, getLongSn pdu)
  else (0, 0)

/-- The entity and the buffer once the SN has been looked at and security has been undone. What
`pdcp_is_rx_seq_number_valid` and `pdcp_validate_security` return is not used. -/
def Entity.open (osa : Osa) (p : Entity) (srb_flag : Bool) (rb_id : Nat)
    (pdu : List Byte) : Entity × List Byte :=
  let (header_len, sn) := rxHeader p srb_flag pdu
  let p' := (pdcpIsRxSeqNumberValid sn p srb_flag).1
  if p'.security_activated then
    let (p'', plain, _) := pdcpValidateSecurity osa p' srb_flag rb_id header_len sn pdu
      (pdu.length - tailerLen srb_flag)
    (p'', plain)
  else (p', pdu)

/-- `gtp` says that the packets of an eNB go to GTP-U. -/
def Entity.dataInd (osa : Osa) (gtp : Bool) (p : Entity) (ctxt : Ctxt) (srb_flag : Bool)
    (rb_idP : Nat) (pdu : List Byte) : Entity × List Upper :=
  let rb_id := rb_idP % maxDRB
  let (header_len, sn) := rxHeader p srb_flag pdu
  if pdu.length < header_len + tailerLen srb_flag then (p, [])
  else
    let (p', plain) := p.open osa srb_flag rb_idP pdu
    let sdu := (plain.drop header_len).take (pdu.length - header_len - tailerLen srb_flag)
    if srb_flag then (p', [.rrcDataInd rb_id sdu])
    else if gtp ∧ ctxt.enb_flag then (p', [.gtpu ctxt.rnti (rb_id + 4) sdu])
    else
      (if p'.rlc_mode = .am then { p' with last_submitted_pdcp_rx_sn := sn } else p',
        [.ip (if ctxt.enb_flag then rb_id + ctxt.module_id.toNat * maxDRB else rb_id) sdu])

/-- The check of the id in `pdcp_validate_security` stops the process. -/
def pdcpDataInd (osa : Osa) (gtp : Bool) (coll : Coll) (ctxt : Ctxt) (srb_flag : Bool)
    (rb_idP : Nat) (pdu : List Byte) : Option (Coll × List Upper) :=
  let rb_id := rb_idP % maxDRB
  if rb_id = 0 then some (coll, [])
  else
    match coll (collKey ctxt rb_id srb_flag) with
    | none => some (coll, [])
    | some p =>
      if pdu.length = 0 then some (coll, [])
      else if p.security_activated ∧ rb_idP ≥ NB_RB_MAX ∧
          (rxHeader p srb_flag pdu).1 + tailerLen srb_flag ≤ pdu.length then none
      else
        let (p', up) := p.dataInd osa gtp ctxt srb_flag rb_idP pdu
        some (Function.update coll (collKey ctxt rb_id srb_flag) (some p'), up)

end MacRlcSplit.Pdcp
