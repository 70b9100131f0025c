-- Any datagram at the CU and at the DU: what the two receivers read of it and
-- copy from it. A datagram as long as its fields say is handled inside its
-- bytes; the receivers do not look whether it is.
import MacRlcSplit.Split.RrcReply
import MacRlcSplit.Split.Unpack

namespace MacRlcSplit.Split

open Lib

/-! ## The receiver of the CU -/

/-- The calls that the handlers of the CU make with what they read. -/
inductive CuMessage where
  | statusDataReq (req : SpmrSreqDreq)
  | dataInd (rnti frame channel : Nat) (tb : List Byte)
  | rrcDataReq (dreq : Rrc.SpmrRrcDreq)
  | rrcDataInd (CC_id : Int) (frame subframe rnti srb_id : Nat) (sdu : List Byte)
deriving DecidableEq, Repr

/-- The lists are history: the datagrams that were sent, and what was handed to RLC and RRC. -/
structure CuState (ε : Type) where
  coll : RlcColl ε
  carriers : Int → Rrc.Carrier
  cu_outbuf : List Byte
  cu_outbuf_rrc_dreq : List Byte
  sent : List (List Byte) := []
  indications : List CuMessage := []

section Cu

variable {ε σ : Type} (rlc : RlcEntity ε)

def CuState.handle (s : CuState ε) : CuMessage → Option (CuState ε)
  | .statusDataReq req =>
    (macRlcStatusDataReqReply rlc req s.coll).bind fun st =>
      (sendStatusDataRep st.srep_drep st.cu_databuf_temp s.cu_outbuf).map
        fun (datagram, cu_outbuf) =>
        { s with coll := st.coll, cu_outbuf, sent := s.sent ++ [datagram] }
  | .rrcDataReq dreq =>
    (Rrc.sendRrcDataRep (s.carriers dreq.CC_id) dreq s.sent.length s.cu_outbuf_rrc_dreq).map
      fun (c, datagram, cu_outbuf_rrc_dreq) =>
        { s with
          carriers := Function.update s.carriers dreq.CC_id c
          cu_outbuf_rrc_dreq
          sent := s.sent ++ [datagram] }
  | m => some { s with indications := s.indications ++ [m] }

def CuState.receive (s : CuState ε) : Option CuMessage → Option (CuState ε)
  | none => some s
  | some m => s.handle rlc m

/-- `head->len` less the size of the structure, as `int32_t`. -/
def payloadLen (headLen fixed : Nat) : Int := int32 (uint32 ((headLen : Int) - fixed))

def sizeofMaxRxHeader : Nat := 96

/-- The largest block of the memory pools. -/
def MEM_MNGT_MB12_BLOCK_SIZE : Nat := 64 * 4096

/-- `get_free_mem_block` for a received block: it ends the process when no pool has blocks of the
size. -/
def getFreeMemBlock (tb_size : Int) : Option Unit :=
  if uint32 (sizeofMaxRxHeader + tb_size) ≤ MEM_MNGT_MB12_BLOCK_SIZE then some () else none

def CCCH_SDU_SIZE : Nat := 512

def sizeofIreq : Nat := 10

def sizeofRrcIreq : Nat := 16

/-- The size of the SDU in the message: one that is too large is cut off. -/
def ccchSduSize (sdu_len : Int) : Int := if sdu_len > CCCH_SDU_SIZE then CCCH_SDU_SIZE else sdu_len

def readStatusDataReq (mem : Nat → Byte) : Handler σ CuMessage := do
  let tb_size ← Handler.readLe mem 16 4
  let rnti ← Handler.readLe mem 6 2
  let frame ← Handler.readLe mem 8 4
  let channel ← Handler.readLe mem 12 4
  pure (.statusDataReq { rnti, frame, channel, tb_size := int32 tb_size })

/-- `mac_rlc_data_ind_req` with the copy that `mac_rlc_deserialize_tb` makes. -/
def readDataInd (mem : Nat → Byte) : Handler σ CuMessage := do
  let headLen ← Handler.readLe mem 2 4
  let channel ← Handler.readLe mem 12 4
  let frame ← Handler.readLe mem 8 4
  let rnti ← Handler.readLe mem 6 2
  let tb_size := payloadLen headLen sizeofIreq
  Handler.call (getFreeMemBlock tb_size)
  let tb ← Handler.copyFrom mem 16 tb_size tb_size.toNat
  pure (.dataInd rnti frame channel tb)

def readRrcDataReq (mem : Nat → Byte) : Handler σ CuMessage := do
  let CC_id ← Handler.readLe mem 6 4
  let frame ← Handler.readLe mem 10 4
  let srb_id ← Handler.readLe mem 14 2
  let num_tb ← Handler.readLe mem 16 1
  pure (.rrcDataReq { CC_id := int32 CC_id, frame, srb_id, num_tb })

/-- `mac_rrc_data_ind_reply` with the copy that `mac_rrc_data_ind` makes. -/
def readRrcDataInd (mem : Nat → Byte) : Handler σ CuMessage := do
  let headLen ← Handler.readLe mem 2 4
  let CC_id ← Handler.readLe mem 6 4
  let frame ← Handler.readLe mem 12 4
  let subframe ← Handler.readLe mem 16 4
  let rnti ← Handler.readLe mem 10 2
  let srb_id ← Handler.readLe mem 20 2
  let sdu ← Handler.copyFrom mem 22 (ccchSduSize (payloadLen headLen sizeofRrcIreq)) CCCH_SDU_SIZE
  pure (.rrcDataInd (int32 CC_id) frame subframe rnti srb_id sdu)

/-- A handler, unless the message ends before the structure it looks for. -/
def identified (len : Nat) (h : Handler σ CuMessage) : Handler σ (Option CuMessage) :=
  match spGenericIdentify sizeofSpHead len with
  | none => pure none
  | some _ => do
    let m ← h
    pure (some m)

def cuRead (mem : Nat → Byte) (len : Nat) : Handler σ (Option CuMessage) := do
  let type ← Handler.readLe mem 0 1
  if type = S_PROTO_MR_STATUS_DATA_REQ then identified len (readStatusDataReq mem)
  else if type = S_PROTO_MR_DATA_IND then identified len (readDataInd mem)
  else if type = S_PROTO_MR_RRC_DATA_REQ then identified len (readRrcDataReq mem)
  else if type = S_PROTO_MR_RRC_DATA_IND then identified len (readRrcDataInd mem)
  else pure none

/-- `mac_rlc_cu_recv` on a datagram of `len` bytes. -/
def macRlcCuRecv (mem : Nat → Byte) (len : Nat) : Handler (CuState ε) Unit := do
  let m ← cuRead mem len
  let s ← Handler.get
  let s' ← Handler.call (s.receive rlc m)
  Handler.set s'

end Cu

/-! ## The receiver of the DU -/

/-- One of the three stores of `mac_rrc_handle_data_rep`. -/
def storeRrcSdu (mem : Nat → Byte) (store : Rrc.DuRrc → List Byte → Rrc.DuRrc) :
    Handler (DuRx × Rrc.DuRrc) Unit := do
  let headLen ← Handler.readLe mem 2 4
  let sdu ← Handler.copyFrom mem 16 (payloadLen headLen Rrc.sizeofRrcDrep) DU_BUF_SIZE
  let s ← Handler.get
  Handler.set (s.1, store s.2 sdu)

/-- The two stores for system information. -/
def storeSystemInformation (mem : Nat → Byte) : Handler (DuRx × Rrc.DuRrc) Unit := do
  let frame ← Handler.readLe mem 10 4
  Handler.onlyIf (frame % 2 = 0) (storeRrcSdu mem fun du sdu => { du with SIB1 := sdu })
  Handler.onlyIf (frame % 8 = 1) (storeRrcSdu mem fun du sdu => { du with SIB23 := sdu })

/-- `mac_rrc_handle_data_rep`. -/
def duHandleRrcDataRep (mem : Nat → Byte) (len : Nat) : Handler (DuRx × Rrc.DuRrc) Unit :=
  match spGenericIdentify sizeofSpHead len with
  | none => pure ()
  | some _ => do
    let srb_id ← Handler.readLe mem 14 2
    Handler.onlyIf (srb_id &&& Rrc.RAB_OFFSET = Rrc.BCCH) (storeSystemInformation mem)
    Handler.onlyIf (srb_id &&& Rrc.RAB_OFFSET = Rrc.CCCH) (storeRrcSdu mem fun du sdu =>
      { du with SRB0 := sdu })

/-- `mac_rlc_du_recv` on a datagram of `len` bytes. The statistics are left out. -/
def macRlcDuRecv (mem : Nat → Byte) (len : Nat) : Handler (DuRx × Rrc.DuRrc) Unit := do
  let type ← Handler.readLe mem 0 1
  if type = S_PROTO_MR_STATUS_DATA_REP then Handler.first (duHandleStatusDataRep mem len)
  else if type = S_PROTO_MR_RRC_DATA_REQ_REP then duHandleRrcDataRep mem len
  else pure ()

/-! ## Datagrams that are as long as they say -/

/-- The payload behind a structure of `fixed` bytes is as long as the head says and was received. -/
def PayloadReceived (mem : Nat → Byte) (len fixed : Nat) : Prop :=
  fixed ≤ leAt mem 2 4 ∧ sizeofSpHead + leAt mem 2 4 ≤ len

instance (mem : Nat → Byte) (len fixed : Nat) : Decidable (PayloadReceived mem len fixed) :=
  inferInstanceAs (Decidable (_ ∧ _))

/-- The same for a CCCH message, of which no more than `CCCH_SDU_SIZE` bytes are copied. -/
def CcchReceived (mem : Nat → Byte) (len : Nat) : Prop :=
  sizeofRrcIreq ≤ leAt mem 2 4 ∧ leAt mem 2 4 < sizeofRrcIreq + 2 ^ 31 ∧
    sizeofSpHead + sizeofRrcIreq + min (leAt mem 2 4 - sizeofRrcIreq) CCCH_SDU_SIZE ≤ len

/-- A datagram with a head for the CU has the structure of its type, and its payload. -/
def CuWhole (mem : Nat → Byte) (len : Nat) : Prop := sizeofSpHead ≤ len →
    (leAt mem 0 1 = S_PROTO_MR_STATUS_DATA_REQ → 20 ≤ len) ∧
    (leAt mem 0 1 = S_PROTO_MR_DATA_IND → PayloadReceived mem len sizeofIreq) ∧
    (leAt mem 0 1 = S_PROTO_MR_RRC_DATA_REQ → 17 ≤ len) ∧
    (leAt mem 0 1 = S_PROTO_MR_RRC_DATA_IND → CcchReceived mem len)

def repAt (mem : Nat → Byte) : SpmrSrepDrep where
  rnti := leAt mem 6 2
  frame := leAt mem 8 4
  channel i := leAt mem (12 + 4 * i) 4
  tb_size i := leAt mem (68 + 4 * i) 4
  bytes i := int32 (leAt mem (124 + 4 * i) 4)
  pdus i := int32 (leAt mem (180 + 4 * i) 4)
  creation_time i := leAt mem (236 + 4 * i) 4
  remaining_bytes i := int32 (leAt mem (292 + 4 * i) 4)
  segmented i := decide (leAt mem (348 + 4 * i) 4 % 256 ≠ 0)

/-- The PDUs of a status reply were received, and each has room in the table it goes to. -/
def PdusReceived (mem : Nat → Byte) (len : Nat) : Prop :=
  404 + offset (repAt mem) NB_RB_MAX ≤ len ∧
    ∀ i < NB_RB_MAX, (repAt mem).tb_size i ≤ ((repAt mem).table i).room i

/-- An RRC reply is stored if it is for the CCCH, or for the BCCH in a frame of SIB1 or SIB2/3. -/
def Stored (mem : Nat → Byte) : Prop :=
  leAt mem 14 2 &&& Rrc.RAB_OFFSET = Rrc.CCCH ∨
    leAt mem 14 2 &&& Rrc.RAB_OFFSET = Rrc.BCCH ∧ (leAt mem 10 4 % 2 = 0 ∨ leAt mem 10 4 % 8 = 1)

def DuWhole (mem : Nat → Byte) (len : Nat) : Prop := sizeofSpHead ≤ len →
    (leAt mem 0 1 = S_PROTO_MR_STATUS_DATA_REP → PdusReceived mem len) ∧
    (leAt mem 0 1 = S_PROTO_MR_RRC_DATA_REQ_REP →
      16 ≤ len ∧ (Stored mem → PayloadReceived mem len Rrc.sizeofRrcDrep))

section Whole

open Handler

variable {ε σ : Type} {mem : Nat → Byte} {len : Nat}

/-- The length that a handler computes, and when a copy of it stays inside the message. -/
theorem payloadLen_inside (mem : Nat → Byte) (fixed : Nat) (hlen : len ≤ DU_BUF_SIZE)
    (hfixed : fixed ≤ sizeofRrcIreq) : 0 ≤ payloadLen (leAt mem 2 4) fixed ∧
        sizeofSpHead + fixed + payloadLen (leAt mem 2 4) fixed ≤ len ↔
      PayloadReceived mem len fixed := by
  have hle : leAt mem 2 4 < 2 ^ 32 := leAt_lt mem 2 4
  unfold PayloadReceived payloadLen int32 uint32
  unfold DU_BUF_SIZE at hlen
  unfold sizeofRrcIreq at hfixed
  split <;> omega

theorem PayloadReceived.payloadLen {fixed : Nat} (h : PayloadReceived mem len fixed)
    (hlen : len ≤ DU_BUF_SIZE) :
    payloadLen (leAt mem 2 4) fixed = ((leAt mem 2 4 - fixed : Nat) : Int) := by
  obtain ⟨hfixed, hreceived⟩ := h
  unfold sizeofSpHead DU_BUF_SIZE at *
  unfold Split.payloadLen
  rw [int32_uint32 (by omega) (by omega)]
  omega

theorem spGenericIdentify_some (h : sizeofSpHead ≤ len) :
    spGenericIdentify sizeofSpHead len = some sizeofSpHead := if_neg (not_lt.2 h)

theorem spGenericIdentify_none (h : ¬ sizeofSpHead ≤ len) :
    spGenericIdentify sizeofSpHead len = none := if_pos (not_le.1 h)

/-! ## The CU -/

variable {s : σ} {Q : σ → Prop}

theorem keeps_readStatusDataReq :
    Keeps (Access.Within len) (readStatusDataReq mem) s (fun _ => Q) ↔ 20 ≤ len ∧ Q s := by
  simp only [readStatusDataReq, keeps_bind, keeps_read, keeps_pure, Access.Within]
  constructor
  · rintro ⟨h, -, -, -, hQ⟩
    exact ⟨h, hQ⟩
  · rintro ⟨h, hQ⟩
    exact ⟨h, by omega, by omega, by omega, hQ⟩

theorem keeps_readRrcDataReq :
    Keeps (Access.Within len) (readRrcDataReq mem) s (fun _ => Q) ↔ 17 ≤ len ∧ Q s := by
  simp only [readRrcDataReq, keeps_bind, keeps_read, keeps_pure, Access.Within]
  constructor
  · rintro ⟨-, -, -, h, hQ⟩
    exact ⟨h, hQ⟩
  · rintro ⟨h, hQ⟩
    exact ⟨by omega, by omega, by omega, h, hQ⟩

theorem keeps_readDataInd (hlen : len ≤ DU_BUF_SIZE) :
    Keeps (Access.Within len) (readDataInd mem) s (fun _ => Q) ↔
      PayloadReceived mem len sizeofIreq ∧ Q s := by
  rw [← payloadLen_inside _ _ hlen (by decide)]
  simp only [readDataInd, keeps_bind, keeps_read, keeps_call, keeps_copy, keeps_pure, Access.Within]
  generalize payloadLen (leAt mem 2 4) sizeofIreq = n
  unfold DU_BUF_SIZE at hlen
  unfold sizeofSpHead sizeofIreq
  constructor
  · rintro ⟨-, -, -, -, -, -, -, ⟨-, hn, hin, -⟩, hQ⟩
    exact ⟨⟨hn, by omega⟩, hQ⟩
  · rintro ⟨⟨hn, hin⟩, hQ⟩
    have hblock : getFreeMemBlock n = some () := by
      unfold getFreeMemBlock uint32 sizeofMaxRxHeader MEM_MNGT_MB12_BLOCK_SIZE
      rw [if_pos]
      omega
    exact ⟨by omega, by omega, by omega, by omega, (), hblock, by omega, by omega, hQ⟩

theorem keeps_readRrcDataInd (hlen : len ≤ DU_BUF_SIZE) :
    Keeps (Access.Within len) (readRrcDataInd mem) s (fun _ => Q) ↔ CcchReceived mem len ∧ Q s := by
  have hle : leAt mem 2 4 < 2 ^ 32 := leAt_lt mem 2 4
  simp only [readRrcDataInd, keeps_bind, keeps_read, keeps_copy, keeps_pure, Access.Within,
    CcchReceived, payloadLen, ccchSduSize, CCCH_SDU_SIZE]
  unfold DU_BUF_SIZE at hlen
  unfold sizeofSpHead sizeofRrcIreq int32 uint32
  constructor
  · rintro ⟨-, -, -, -, -, -, -, hcopy, hQ⟩
    refine ⟨?_, hQ⟩
    revert hcopy
    split_ifs <;> omega
  · rintro ⟨hcopy, hQ⟩
    refine ⟨by omega, by omega, by omega, by omega, by omega, by omega, ?_, ?_, hQ⟩
    · revert hcopy
      split_ifs <;> omega
    · revert hcopy
      split_ifs <;> omega

theorem keeps_identified {h : Handler σ CuMessage} :
    Keeps (Access.Within len) (identified len h) s (fun m s' => Q s' ∧
      (len < sizeofSpHead → m = none)) ↔
      if sizeofSpHead ≤ len then Keeps (Access.Within len) h s fun _ => Q else Q s := by
  unfold identified
  by_cases hhead : sizeofSpHead ≤ len
  · rw [spGenericIdentify_some hhead, if_pos hhead]
    simp only [keeps_bind, keeps_pure, not_lt.2 hhead, false_implies, and_true]
  · rw [spGenericIdentify_none hhead, if_neg hhead]
    simp

/-- The CU reads inside the datagram exactly if it is whole. -/
theorem keeps_cuRead (hpos : 1 ≤ len) (hlen : len ≤ DU_BUF_SIZE) :
    Keeps (Access.Within len) (cuRead mem len) s (fun m s' => Q s' ∧
      (len < sizeofSpHead → m = none)) ↔ CuWhole mem len ∧ Q s := by
  simp only [cuRead, keeps_bind, keeps_read, keeps_ite, keeps_pure, keeps_identified,
    keeps_readStatusDataReq, keeps_readRrcDataReq, keeps_readDataInd hlen,
    keeps_readRrcDataInd hlen]
  have hfirst : Access.Within len (.read 0 1) := hpos
  unfold CuWhole
  by_cases hhead : sizeofSpHead ≤ len
  · simp only [hfirst, hhead, if_true, true_and, not_lt.2 hhead, false_implies, and_true,
      true_implies]
    unfold S_PROTO_MR_STATUS_DATA_REQ S_PROTO_MR_DATA_IND S_PROTO_MR_RRC_DATA_REQ
      S_PROTO_MR_RRC_DATA_IND
    grind
  · simp only [hfirst, hhead, if_false, true_and, false_implies]
    grind

theorem macRlcCuRecv_whole (rlc : RlcEntity ε) (h : CuWhole mem len) (hpos : 1 ≤ len)
    (hlen : len ≤ DU_BUF_SIZE) (s : CuState ε) :
    ∃ m log, macRlcCuRecv rlc mem len s = (s.receive rlc m).map (fun s' => ((), s', log)) ∧
      (∀ x ∈ log, x.Within len) ∧ (len < sizeofSpHead → m = none) := by
  obtain ⟨m, s', log, hrun, hlog, rfl, hnone⟩ := (keeps_cuRead (Q := (· = s)) hpos hlen).2 ⟨h, rfl⟩
  refine ⟨m, log, ?_, hlog, hnone⟩
  rw [macRlcCuRecv, Handler.bind_apply, hrun]
  simp only [Handler.bind_apply, Handler.get, Handler.call, Handler.set]
  cases hcall : s'.receive rlc m with
  | none | some => simp [hcall]

/-! ## The DU -/

def drepAt (mem : Nat → Byte) : Rrc.Datagram where
  CC_id := int32 (leAt mem 6 4)
  frame := leAt mem 10 4
  srb_id := leAt mem 14 2
  sdu := bytesAt mem 16 (leAt mem 2 4 - Rrc.sizeofRrcDrep)
  num := 0

section RrcReply

variable {s : DuRx × Rrc.DuRrc} {Q : Unit → DuRx × Rrc.DuRrc → Prop}

theorem keeps_storeRrcSdu {store : Rrc.DuRrc → List Byte → Rrc.DuRrc} (hlen : len ≤ DU_BUF_SIZE) :
    Keeps (Access.Within len) (storeRrcSdu mem store) s Q ↔
      PayloadReceived mem len Rrc.sizeofRrcDrep ∧ Q () (s.1, store s.2 (drepAt mem).sdu) := by
  simp only [storeRrcSdu, keeps_bind, keeps_read, keeps_copy, keeps_get, keeps_set, Access.Within]
  have hinside := payloadLen_inside mem Rrc.sizeofRrcDrep hlen (by decide)
  constructor
  · rintro ⟨-, -, ⟨-, hn, hin, -⟩, hQ⟩
    have hreceived := hinside.1 ⟨hn, hin⟩
    rw [hreceived.payloadLen hlen] at hQ
    exact ⟨hreceived, hQ⟩
  · rintro ⟨hreceived, hQ⟩
    obtain ⟨hn, hin⟩ := hinside.2 hreceived
    rw [hreceived.payloadLen hlen] at hn hin ⊢
    unfold sizeofSpHead Rrc.sizeofRrcDrep at *
    exact ⟨by omega, by omega, by omega, hQ⟩

/-- An RRC reply is read inside the datagram exactly if it has its structure, and its SDU when
it is stored. -/
theorem keeps_duHandleRrcDataRep (hhead : sizeofSpHead ≤ len) (hlen : len ≤ DU_BUF_SIZE) :
    Keeps (Access.Within len) (duHandleRrcDataRep mem len) s Q ↔
      (16 ≤ len ∧ (Stored mem → PayloadReceived mem len Rrc.sizeofRrcDrep)) ∧
        Q () (s.1, Rrc.macRrcHandleDataRep s.2 (drepAt mem)) := by
  have hsrb : (drepAt mem).srb_id = leAt mem 14 2 := rfl
  have hframe : (drepAt mem).frame = leAt mem 10 4 := rfl
  rw [duHandleRrcDataRep, spGenericIdentify_some hhead]
  simp only [storeSystemInformation, keeps_bind, keeps_read, keeps_onlyIf, keeps_storeRrcSdu hlen,
    Access.Within, Rrc.macRrcHandleDataRep, hsrb, hframe, Stored]
  by_cases hccch : leAt mem 14 2 &&& Rrc.RAB_OFFSET = Rrc.CCCH
  · have hbcch : leAt mem 14 2 &&& Rrc.RAB_OFFSET ≠ Rrc.BCCH := by
      rw [hccch]
      decide
    simp only [hccch]
    grind
  · by_cases hbcch : leAt mem 14 2 &&& Rrc.RAB_OFFSET = Rrc.BCCH
    · by_cases heven : leAt mem 10 4 % 2 = 0
      · -- an even frame is no frame of the SIB2/3
        have hone : leAt mem 10 4 % 8 ≠ 1 := by omega
        simp only [hbcch, heven, hone]
        grind
      · simp only [hbcch, heven]
        grind
    · simp only [hccch, hbcch]
      grind

end RrcReply

theorem carries_repAt (mem : Nat → Byte) : Carries mem (repAt mem) :=
  ⟨fun _ _ => rfl, fun _ _ => rfl, fun _ _ => rfl, fun _ _ => rfl, fun _ _ => rfl, fun _ _ => rfl,
    fun _ _ => rfl⟩

section StatusReply

variable {s : DuRx}

theorem keeps_duHandleStatusDataRep (hhead : sizeofSpHead ≤ len) (h : PdusReceived mem len)
    (hlen : len ≤ DU_BUF_SIZE) :
    Keeps (Access.Within len) (duHandleStatusDataRep mem len) s fun _ s' =>
      s'.du = (handleChannels (bytesAt mem 404 (len - 404)) (repAt mem) s.du NB_RB_MAX).1 := by
  obtain ⟨hreceived, hroom⟩ := h
  unfold DU_BUF_SIZE at hlen
  unfold duHandleStatusDataRep
  rw [spGenericIdentify_some hhead]
  apply keeps_bind.2
  have hdata := length_bytesAt mem 404 (len - 404)
  have hread : ∀ off, off + 4 ≤ 404 → Access.Within len (.read off 4) := by
    intro off hoff
    show off + 4 ≤ len
    omega
  have hcopy : ∀ i < NB_RB_MAX, (repAt mem).tb_size i ≠ 0 → Access.Within len
      (.copy ((404 + offset (repAt mem) i : Nat) : Int) ((repAt mem).tb_size i)
        (((repAt mem).table i).room i)) := by
    intro i hi _
    have hoff := offset_mono (repAt mem) hi
    have hfits := hroom i hi
    refine ⟨Int.natCast_nonneg _, Int.natCast_nonneg _, ?_, ?_⟩
    · omega
    · omega
  refine (keeps_handleEntries (carries_repAt mem) (holds_bytesAt mem 404 (len - 404)) hread
    (by omega) le_rfl (by omega) hcopy).mono ?_
  rintro total s' ⟨-, hdu, -⟩
  exact keeps_pure.2 hdu

/-- The reads and the copy of entry `i` stay inside the datagram, and the copy inside its row. -/
structure EntryInside (mem : Nat → Byte) (len i : Nat) : Prop where
  fields : 352 + 4 * i ≤ len
  room : (repAt mem).tb_size i ≤ ((repAt mem).table i).room i
  pdu : (repAt mem).tb_size i ≠ 0 → 404 + offset (repAt mem) i + (repAt mem).tb_size i ≤ len

theorem entryInside_of_keeps {Q : Int → DuRx → Prop} {i : Nat}
    (h : Keeps (Access.Within len) (handleEntry mem (offset (repAt mem) i) i) s Q) :
    EntryInside mem len i := by
  have hle : leAt mem (68 + 4 * i) 4 < 2 ^ 32 := leAt_lt mem _ 4
  have hsize : (repAt mem).tb_size i = leAt mem (68 + 4 * i) 4 := rfl
  have htable : (repAt mem).table i = Table.of (leAt mem (12 + 4 * i) 4) := rfl
  simp only [handleEntry, copyPdu, keeps_bind, keeps_read, keeps_get, Access.Within] at h
  obtain ⟨-, -, -, hfields, -, -, -, h⟩ := h
  refine ⟨by omega, ?_, ?_⟩
  all_goals
    rw [hsize]
    by_cases hzero : int32 (leAt mem (68 + 4 * i) 4) = 0
    · have : leAt mem (68 + 4 * i) 4 = 0 := by
        unfold int32 at hzero
        split at hzero <;> omega
      omega
    · rw [if_pos hzero, keeps_bind, keeps_copy] at h
      obtain ⟨-, ⟨-, hn, hin, hroom⟩, -⟩ := h
      unfold int32 at hn hin hroom
      rw [htable] at *
      split at hn <;> omega

theorem offset_inside {n : Nat} (h : ∀ i < n, EntryInside mem len i) :
    offset (repAt mem) n = 0 ∨ 404 + offset (repAt mem) n ≤ len := by
  induction n with
  | zero => exact .inl rfl
  | succ n ih =>
    have hbefore := ih fun i hi => h i (by omega)
    rw [offset]
    by_cases hzero : (repAt mem).tb_size n = 0
    · omega
    · have := (h n (Nat.lt_succ_self n)).pdu hzero
      omega

theorem entriesInside_of_keeps {Q : Int → DuRx → Prop} {n : Nat} (hn : n ≤ NB_RB_MAX)
    (hlen : len ≤ DU_BUF_SIZE) (h : Keeps (Access.Within len) (handleEntries mem n) s Q) :
    ∀ i < n, EntryInside mem len i := by
  induction n generalizing Q with
  | zero => exact fun i hi => absurd hi (Nat.not_lt_zero i)
  | succ n ih =>
    have hfirst := keeps_bind.1 h
    have hbefore := ih (by omega) hfirst
    -- the running offset is the sum of the sizes, so the last turn starts there
    have htotal : Keeps (fun _ => True) (handleEntries mem n) s fun total _ =>
        total = (offset (repAt mem) n : Nat) := by
      have hoff := offset_inside hbefore
      unfold DU_BUF_SIZE at hlen
      have hdata := length_bytesAt mem 404 (offset (repAt mem) n)
      exact (keeps_handleEntries (carries_repAt mem) (holds_bytesAt mem 404 _) (fun _ _ => trivial)
        (by omega) (by omega) hdata.ge fun _ _ _ => trivial).mono fun _ _ hall => hall.1
    obtain ⟨total, s', log, -, -, hlast, rfl⟩ := hfirst.and htotal
    intro i hi
    rcases Nat.lt_succ_iff_lt_or_eq.1 hi with hlt | rfl
    · exact hbefore i hlt
    · exact entryInside_of_keeps hlast

theorem pdusReceived_of_keeps {Q : Unit → DuRx → Prop} (hhead : sizeofSpHead ≤ len)
    (hlen : len ≤ DU_BUF_SIZE) (h : Keeps (Access.Within len) (duHandleStatusDataRep mem len) s Q) :
    PdusReceived mem len := by
  rw [duHandleStatusDataRep, spGenericIdentify_some hhead] at h
  have hinside := entriesInside_of_keeps le_rfl hlen (keeps_bind.1 h)
  have hfields := (hinside 13 (by decide)).fields
  have hoff := offset_inside hinside
  exact ⟨by omega, fun i hi => (hinside i hi).room⟩

end StatusReply

/-- What a whole datagram does to the DU. -/
structure DuDone (mem : Nat → Byte) (len : Nat) (s s' : DuRx × Rrc.DuRrc) : Prop where
  status : sizeofSpHead ≤ len → leAt mem 0 1 = S_PROTO_MR_STATUS_DATA_REP →
    s'.1.du = (handleChannels (bytesAt mem 404 (len - 404)) (repAt mem) s.1.du NB_RB_MAX).1 ∧
    s'.2 = s.2
  rrc : sizeofSpHead ≤ len → leAt mem 0 1 = S_PROTO_MR_RRC_DATA_REQ_REP →
    s' = (s.1, Rrc.macRrcHandleDataRep s.2 (drepAt mem))
  other : len < sizeofSpHead ∨
    leAt mem 0 1 ≠ S_PROTO_MR_STATUS_DATA_REP ∧ leAt mem 0 1 ≠ S_PROTO_MR_RRC_DATA_REQ_REP → s' = s

variable {s : DuRx × Rrc.DuRrc}

theorem keeps_macRlcDuRecv (h : DuWhole mem len) (hpos : 1 ≤ len) (hlen : len ≤ DU_BUF_SIZE) :
    Keeps (Access.Within len) (macRlcDuRecv mem len) s fun _ s' => DuDone mem len s s' := by
  refine keeps_bind.2 (keeps_read.2 ⟨hpos, ?_⟩)
  refine keeps_ite.2 ⟨fun htype => ?_, fun hstatus => keeps_ite.2 ⟨fun htype => ?_, fun hrrc => ?_⟩⟩
  · apply keeps_first.2
    by_cases hhead : sizeofSpHead ≤ len
    · refine (keeps_duHandleStatusDataRep hhead ((h hhead).1 htype) hlen).mono ?_
      intro _ s' hdu
      refine ⟨fun _ _ => ⟨hdu, rfl⟩, fun _ hrrc => absurd (htype.symm.trans hrrc) (by decide),
        fun hother => ?_⟩
      rcases hother with hshort | hother
      · omega
      · exact absurd htype hother.1
    · rw [duHandleStatusDataRep, spGenericIdentify_none hhead]
      exact keeps_pure.2 ⟨fun hh => absurd hh hhead, fun hh => absurd hh hhead, fun _ => rfl⟩
  · by_cases hhead : sizeofSpHead ≤ len
    · refine (keeps_duHandleRrcDataRep hhead hlen).2 ⟨(h hhead).2 htype, ?_⟩
      refine ⟨fun _ hst => absurd hst hstatus, fun _ _ => rfl, fun hother => ?_⟩
      rcases hother with hshort | hother
      · omega
      · exact absurd htype hother.2
    · rw [duHandleRrcDataRep, spGenericIdentify_none hhead]
      exact keeps_pure.2 ⟨fun hh => absurd hh hhead, fun hh => absurd hh hhead, fun _ => rfl⟩
  · exact keeps_pure.2 ⟨fun _ hst => absurd hst hstatus, fun _ hh => absurd hh hrrc, fun _ => rfl⟩

theorem duWhole_of_keeps {Q : Unit → DuRx × Rrc.DuRrc → Prop} (hlen : len ≤ DU_BUF_SIZE)
    (h : Keeps (Access.Within len) (macRlcDuRecv mem len) s Q) : DuWhole mem len := by
  simp only [macRlcDuRecv, keeps_bind, keeps_read, keeps_ite] at h
  obtain ⟨-, hstatus, hrest⟩ := h
  refine fun hhead => ⟨fun htype => ?_, fun htype => ?_⟩
  · exact pdusReceived_of_keeps hhead hlen (keeps_first.1 (hstatus htype))
  · have hrrc := (hrest (by rw [htype]; decide)).1 htype
    exact ((keeps_duHandleRrcDataRep hhead hlen).1 hrrc).1

end Whole

/-! ## Any datagram -/

def datagramMemory (datagram : List Byte) : Nat → Byte := received DU_BUF_SIZE datagram clearMemory

def srb0Reply : List Byte := [5, 1, 12, 0, 0, 0, 0, 0, 0, 0, 2, 0, 0, 0, 0, 0, 7, 9]

def cuStart : CuState (Int × List (List Byte)) where
  coll := fun _ => none
  carriers := fun _ => {}
  cu_outbuf := clearOutbuf
  cu_outbuf_rrc_dreq := []

end MacRlcSplit.Split
