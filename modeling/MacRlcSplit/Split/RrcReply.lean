-- The length of an RRC reply of the CU: the size of a message is also the
-- error code, and the message passes a buffer of 128 bytes on the stack. A reply
-- is sent exactly while it fits and there is no error.
import MacRlcSplit.Split.Rrc
import MacRlcSplit.Split.Wire

namespace MacRlcSplit.Split.Rrc

open Lib List

/-! ## The reply in bytes -/

def CU_BUF_SIZE : Nat := 8192

def sizeofRrcDrep : Nat := 10

def Datagram.toWire (d : Datagram) : List Byte :=
  leBytes 4 (uint32 d.CC_id) ++ leBytes 4 d.frame ++ leBytes 2 d.srb_id

def spMrPackRrcDrep (d : Datagram) (buf : List Byte) (len : Nat) : Option (Int × List Byte) :=
  spGenericPack d.toWire sizeofSpHead buf len

/-- `mac_rrc_data_req_reply`, with the bytes that are sent. -/
def sendRrcDataRep (c : Carrier) (dreq : SpmrRrcDreq) (num : Nat) (cu_outbuf : List Byte) :
    Option (Carrier × List Byte × List Byte) :=
  (macRrcDataReqReply c dreq num).bind fun (c', d, _) =>
    ((spPackHead ⟨S_PROTO_MR_RRC_DATA_REQ_REP, 1, sizeofRrcDrep + d.sdu.length⟩ cu_outbuf
      CU_BUF_SIZE).bind
      fun p => sendBehind (spMrPackRrcDrep d p.2 CU_BUF_SIZE) d.sdu).map fun r => (c', r)

/-! ## What there is to send -/

/-- The bytes of a buffer whose size is a `char`. -/
def OctetBuffer.signed (b : OctetBuffer) : List Byte := if b.int8 > 0 then b.bytes else []

/-- The SDU that RRC has for a request. None when it reports an error. -/
def availableSdu (c : Carrier) (frame srb_id : Nat) : Option (List Byte) :=
  if srb_id &&& RAB_OFFSET = BCCH then
    if c.SI_Active = false then some []
    else if frame % 2 = 0 then some c.SIB1.bytes
    else if frame % 8 = 1 then some c.SIB23.bytes
    else some []
  else if srb_id &&& RAB_OFFSET = CCCH then
    if c.Srb0_Active = false then none else some c.Srb0_Tx_buffer.signed
  else if srb_id &&& RAB_OFFSET = MCCH then
    if c.MCCH_Active = false then some [] else some c.MCCH_MESSAGE.bytes
  else some []

/-- A request for system information finds the SIB1 set up. -/
def Sib1SetUp (c : Carrier) (srb_id : Nat) : Prop :=
  srb_id &&& RAB_OFFSET = BCCH → c.SI_Active ≠ false → c.SIB1.bytes.length ≠ 255

/-- RRC reports no error, the SIB1 is set up, and the message fits `tmpbuf`. -/
def Answerable (c : Carrier) (frame srb_id : Nat) : Prop :=
  Sib1SetUp c srb_id ∧ ∃ sdu, availableSdu c frame srb_id = some sdu ∧
  sdu.length ≤ CCCH_PAYLOAD_SIZE_MAX

theorem macRrcDataReq_of_available {c : Carrier} {frame srb_id : Nat} {sdu : List Byte}
    (hsib1 : Sib1SetUp c srb_id) (hsdu : availableSdu c frame srb_id = some sdu) :
    ∃ c' src, macRrcDataReq c frame srb_id = some (c', (sdu.length : Int), sdu, src) := by
  unfold availableSdu at hsdu
  unfold macRrcDataReq
  split_ifs at hsdu with hbcch hactive heven hodd hccch hactive hmcch hactive <;> cases hsdu
  · exact ⟨_, _, by rw [if_pos hbcch, if_pos hactive]; rfl⟩
  · exact ⟨_, _, by rw [if_pos hbcch, if_neg hactive, if_neg (hsib1 hbcch hactive), if_pos heven]⟩
  · exact ⟨_, _, by rw [if_pos hbcch, if_neg hactive, if_neg (hsib1 hbcch hactive), if_neg heven,
      if_pos hodd]⟩
  · exact ⟨_, _, by rw [if_pos hbcch, if_neg hactive, if_neg (hsib1 hbcch hactive), if_neg heven,
      if_neg hodd]; rfl⟩
  · rw [if_neg hbcch, if_pos hccch, if_neg hactive]
    unfold OctetBuffer.signed
    split <;> exact ⟨_, _, rfl⟩
  · exact ⟨_, _, by rw [if_neg hbcch, if_neg hccch, if_pos hmcch, if_pos hactive]; rfl⟩
  · exact ⟨_, _, by rw [if_neg hbcch, if_neg hccch, if_pos hmcch, if_neg hactive]⟩
  · exact ⟨_, _, by rw [if_neg hbcch, if_neg hccch, if_neg hmcch]; rfl⟩

theorem available_of_macRrcDataReq {c c' : Carrier} {frame srb_id : Nat} {tmplen : Int}
    {tmpbuf : List Byte} {src : Option Source}
    (h : macRrcDataReq c frame srb_id = some (c', tmplen, tmpbuf, src)) (hpos : 0 ≤ tmplen) :
    Sib1SetUp c srb_id ∧ availableSdu c frame srb_id = some tmpbuf := by
  unfold macRrcDataReq at h
  unfold Sib1SetUp availableSdu
  split_ifs at h with hbcch hactive h255 heven hodd hccch hactive hsize hmcch hactive <;> cases h
  · exact ⟨fun _ h => absurd hactive h, by rw [if_pos hbcch, if_pos hactive]⟩
  · exact ⟨fun _ _ => h255, by rw [if_pos hbcch, if_neg hactive, if_pos heven]⟩
  · exact ⟨fun _ _ => h255, by rw [if_pos hbcch, if_neg hactive, if_neg heven, if_pos hodd]⟩
  · exact ⟨fun _ _ => h255, by rw [if_pos hbcch, if_neg hactive, if_neg heven, if_neg hodd]⟩
  · exact absurd hpos (by decide)
  · refine ⟨fun h => absurd h hbcch, ?_⟩
    rw [if_neg hbcch, if_pos hccch, if_neg hactive, OctetBuffer.signed, if_pos hsize]
  · refine ⟨fun h => absurd h hbcch, ?_⟩
    rw [if_neg hbcch, if_pos hccch, if_neg hactive, OctetBuffer.signed, if_neg hsize]
  · exact ⟨fun h =>
      absurd h hbcch, by rw [if_neg hbcch, if_neg hccch, if_pos hmcch, if_pos hactive]⟩
  · exact ⟨fun h =>
      absurd h hbcch, by rw [if_neg hbcch, if_neg hccch, if_pos hmcch, if_neg hactive]⟩
  · exact ⟨fun h => absurd h hbcch, by rw [if_neg hbcch, if_neg hccch, if_neg hmcch]⟩

theorem answerable_of_send {c : Carrier} {dreq : SpmrRrcDreq} {num : Nat} {cu_outbuf : List Byte}
    {r : Carrier × List Byte × List Byte} (h : sendRrcDataRep c dreq num cu_outbuf = some r) :
    Answerable c dreq.frame dreq.srb_id := by
  obtain ⟨reply, hreply, -⟩ := Option.bind_eq_some_iff.1 h
  unfold macRrcDataReqReply at hreply
  split at hreply
  · cases hreply
  · rename_i hreq
    split at hreply
    · cases hreply
    · rename_i hgood
      rw [not_or, Nat.not_lt, Int.not_lt] at hgood
      obtain ⟨hsib1, hsdu⟩ := available_of_macRrcDataReq hreq hgood.2
      exact ⟨hsib1, _, hsdu, hgood.1⟩

def Datagram.bytes (d : Datagram) : List Byte :=
  SpHead.toWire ⟨S_PROTO_MR_RRC_DATA_REQ_REP, 1, sizeofRrcDrep + d.sdu.length⟩ ++ d.toWire ++ d.sdu

@[simp] theorem Datagram.length_toWire (d : Datagram) : d.toWire.length = sizeofRrcDrep := by
  simp [Datagram.toWire, sizeofRrcDrep]

theorem send_of_answerable {c : Carrier} {dreq : SpmrRrcDreq} {num : Nat}
    {cu_outbuf sdu : List Byte} (hroom : cu_outbuf.length = CU_BUF_SIZE)
    (hsib1 : Sib1SetUp c dreq.srb_id) (hsdu : availableSdu c dreq.frame dreq.srb_id = some sdu)
    (hfits : sdu.length ≤ CCCH_PAYLOAD_SIZE_MAX) :
    ∃ c' cu_outbuf', sendRrcDataRep c dreq num cu_outbuf =
      some (c', Datagram.bytes ⟨dreq.CC_id, dreq.frame, dreq.srb_id, sdu, num⟩, cu_outbuf') := by
  obtain ⟨c', src, hreq⟩ := macRrcDataReq_of_available hsib1 hsdu
  have hreply : macRrcDataReqReply c dreq num =
      some (c', ⟨dreq.CC_id, dreq.frame, dreq.srb_id, sdu, num⟩, ⟨src, sdu⟩) := by
    unfold macRrcDataReqReply
    rw [hreq]
    dsimp only
    rw [if_neg (by omega), Int.toNat_natCast, take_length]
  have hfit : sizeofSpHead +
      (Datagram.toWire ⟨dreq.CC_id, dreq.frame, dreq.srb_id, sdu, num⟩).length + sdu.length ≤
      CU_BUF_SIZE := by
    rw [Datagram.length_toWire, sizeofSpHead, sizeofRrcDrep, CU_BUF_SIZE]
    unfold CCCH_PAYLOAD_SIZE_MAX at hfits
    omega
  obtain ⟨cu_outbuf', hsend, -⟩ :=
    send_eq ⟨S_PROTO_MR_RRC_DATA_REQ_REP, 1, sizeofRrcDrep + sdu.length⟩ _ hroom hfit
  refine ⟨c', cu_outbuf', ?_⟩
  rw [sendRrcDataRep, hreply, Option.bind_some]
  dsimp only
  unfold spMrPackRrcDrep
  rw [hsend]
  rfl

/-! ## The length of a reply -/

/-- For every state of RRC and every request, a reply goes out exactly if RRC reports no error
and the message has at most 128 bytes; it then has the length of the SDU that is available in
its head and that SDU behind its fields. -/
theorem a_reply_has_the_length_of_its_sdu (c : Carrier) (dreq : SpmrRrcDreq) (num : Nat)
    (cu_outbuf : List Byte) (hroom : cu_outbuf.length = CU_BUF_SIZE) :
    ((∃ r, sendRrcDataRep c dreq num cu_outbuf = some r) ↔ Answerable c dreq.frame dreq.srb_id) ∧
      ∀ r, sendRrcDataRep c dreq num cu_outbuf = some r →
        ∃ sdu, availableSdu c dreq.frame dreq.srb_id = some sdu ∧
          r.2.1 = SpHead.toWire ⟨S_PROTO_MR_RRC_DATA_REQ_REP, 1, sizeofRrcDrep + sdu.length⟩ ++
            Datagram.toWire ⟨dreq.CC_id, dreq.frame, dreq.srb_id, sdu, num⟩ ++ sdu := by
  constructor
  · constructor
    · rintro ⟨r, hr⟩
      exact answerable_of_send hr
    · rintro ⟨hsib1, sdu, hsdu, hshort⟩
      obtain ⟨c', cu_outbuf', hsend⟩ := send_of_answerable hroom hsib1 hsdu hshort
      exact ⟨_, hsend⟩
  · intro r hr
    obtain ⟨hsib1, sdu, hsdu, hshort⟩ := answerable_of_send hr
    obtain ⟨c', cu_outbuf', hsend⟩ := send_of_answerable hroom hsib1 hsdu hshort
    rw [hr] at hsend
    cases hsend
    exact ⟨sdu, hsdu, rfl⟩

def sib1Carrier (bytes : OctetBuffer) : Carrier := { SI_Active := true, SIB1 := bytes }

def evenFrame : SpmrRrcDreq := ⟨0, 2, 3, 1⟩

/-- A SIB1 of two bytes is sent with the length 12 in the head. -/
theorem twoBytes_length : ∃ c' cu_outbuf',
    sendRrcDataRep (sib1Carrier ⟨[7, 9], by decide⟩) evenFrame 0 (replicate CU_BUF_SIZE 0) =
      some (c', SpHead.toWire ⟨S_PROTO_MR_RRC_DATA_REQ_REP, 1, 12⟩ ++
        Datagram.toWire ⟨0, 2, 3, [7, 9], 0⟩ ++ [7, 9], cu_outbuf') := by
  have hlength := a_reply_has_the_length_of_its_sdu (sib1Carrier ⟨[7, 9], by decide⟩) evenFrame 0
    (replicate CU_BUF_SIZE 0) length_replicate
  have hsetUp : Sib1SetUp (sib1Carrier ⟨[7, 9], by decide⟩) evenFrame.srb_id := fun _ _ => by decide
  obtain ⟨⟨c', sent, cu_outbuf'⟩, hr⟩ := hlength.1.2 ⟨hsetUp, [7, 9], by decide, by decide⟩
  obtain ⟨sdu, hsdu, hsent⟩ := hlength.2 _ hr
  cases (show some [7, 9] = some sdu from hsdu)
  refine ⟨c', cu_outbuf', ?_⟩
  rw [hr]
  exact congrArg (fun sent => some (c', sent, cu_outbuf')) hsent

theorem length_zeros : (replicate 200 (0 : Byte)).length ≤ 255 := by
  rw [length_replicate]
  decide

def longSib1 : OctetBuffer := ⟨replicate 200 0, length_zeros⟩

/-- Neither request is answered: a SIB1 of 200 bytes is copied past the 128 bytes of `tmpbuf`,
and without an active CCCH the CU copies -1 bytes. -/
theorem a_reply_that_is_not_sent :
    availableSdu (sib1Carrier longSib1) 2 3 = some (replicate 200 0) ∧
      CCCH_PAYLOAD_SIZE_MAX < (replicate 200 (0 : Byte)).length ∧
      sendRrcDataRep (sib1Carrier longSib1) evenFrame 0 (replicate CU_BUF_SIZE 0) = none ∧
      macRrcDataReq {} 2 CCCH = some ({}, -1, [], none) ∧
      sendRrcDataRep {} ⟨0, 2, CCCH, 1⟩ 0 (replicate CU_BUF_SIZE 0) = none := by
  exact ⟨rfl, by decide +kernel, by decide +kernel, rfl, rfl⟩

end MacRlcSplit.Split.Rrc
