-- COUNT at the two ends of a bearer: which one the sender takes for its next
-- PDU, which one the receiver takes for a PDU, and what both are if SN and
-- HFN are the two parts of one running number.
import MacRlcSplit.Lib.Counter
import MacRlcSplit.Pdcp.Data

namespace MacRlcSplit.Pdcp

open Lib List
open Am (Byte)

/-! ## Settings of a bearer -/

/-- What `rrc_pdcp_config_asn1_req` has `pdcp_config_req_asn1` set up. -/
inductive Setting where
  | srb (x : SrbToAddMod)
  | drb (drb_id : DrbIdentity) (v : Locals)
deriving DecidableEq

def Setting.config : Setting → BearerConfig
  | .srb x => srbConfig x
  | .drb drb_id v => drbConfig drb_id v

def Setting.size (setting : Setting) : Nat := snSize setting.config.rb_sn

theorem Setting.size_of_srb_flag {setting : Setting}
    (h : setting.config.srb_flag) : setting.size = 5 := by
  cases setting with
  | srb x => rfl
  | drb drb_id v => cases h

theorem Setting.size_cases (setting : Setting) : setting.size = 5 ∨ setting.size = 7 ∨
    setting.size = 12 := by
  unfold Setting.size snSize
  split
  · simp
  · split <;> simp

/-! ## Sizes -/

/-- The entity has been set up with one of the three sizes. -/
def Entity.Sized (p : Entity) : Prop := p.seq_num_size = 5 ∨ p.seq_num_size = 7 ∨
    p.seq_num_size = 12

variable {p : Entity} {sn k j : Nat}

theorem pdcpIsSeqNumSizeValid_iff : pdcpIsSeqNumSizeValid p ↔ p.Sized := by
  simp [pdcpIsSeqNumSizeValid, Entity.Sized]

theorem Entity.Sized.maxSn_succ (h : p.Sized) : p.maxSn + 1 = 2 ^ p.seq_num_size := by
  unfold Entity.maxSn
  rcases h with h | h | h <;> rw [h] <;> rfl

theorem Entity.Sized.le (h : p.Sized) : 2 ^ p.seq_num_size ≤ 2 ^ 12 := by
  rcases h with h | h | h <;> rw [h] <;> decide

theorem Setting.sized {setting : Setting} (h : p.seq_num_size = setting.size) : p.Sized := by
  rw [Entity.Sized, h]
  exact setting.size_cases

/-! ## COUNT as a number -/

theorem countOf_eq {bits hfn : Nat} (hsn : sn < 2 ^ bits) (hfit : hfn * 2 ^ bits < 2 ^ 32) :
    countOf bits hfn sn = hfn * 2 ^ bits + sn := by
  rw [countOf, Nat.mod_eq_of_lt hsn, Nat.shiftLeft_eq, Nat.mod_eq_of_lt hfit, ← Nat.shiftLeft_eq,
    ← Nat.shiftLeft_add_eq_or_of_lt hsn]

theorem countOf_mod {bits hfn m : Nat} (h : 2 ^ bits ∣ m) :
    countOf bits hfn (sn % m) = countOf bits hfn sn := by
  rw [countOf, countOf, Nat.mod_mod_of_dvd _ h]

/-- The two shifts: a size in bits is never the value of the enumeration. -/
theorem Entity.Sized.countBits_eq (h : p.Sized)
    (srb : Bool) : countBits p srb = if srb then 5 else 12 := by
  have hne : p.seq_num_size ≠ SnSize.len7bits.toNat := by
    rcases h with h | h | h <;> rw [h] <;> decide
  simp [countBits, hne]

/-! ## The sender -/

def Entity.txCount (p : Entity) (srb_flag : Bool) (mode : Mode) : Nat :=
  let (p', sn) := pdcpGetNextTxSeqNumber p
  pdcpGetNextCountTx p' srb_flag (txHeader srb_flag mode sn).2

/-- The entity with the number `k` for its next PDU. -/
def Entity.setTx (p : Entity) (k : Nat) : Entity :=
  { p with
    next_pdcp_tx_sn := k % 2 ^ p.seq_num_size
    tx_hfn := k / 2 ^ p.seq_num_size % 2 ^ 32 }

/-- SN and HFN are the two parts of the number `k`. -/
structure SendsAt (p : Entity) (k : Nat) : Prop where
  sized : p.Sized
  sn : p.next_pdcp_tx_sn = k % 2 ^ p.seq_num_size
  hfn : p.tx_hfn = k / 2 ^ p.seq_num_size % 2 ^ 32

theorem sendsAt_setTx (sized : p.Sized) (k : Nat) : SendsAt (p.setTx k) k := ⟨sized, rfl, rfl⟩

theorem SendsAt.setTx_self (h : SendsAt p k) : p.setTx k = p := by
  rw [Entity.setTx, ← h.sn, ← h.hfn]

theorem SendsAt.next (h : SendsAt p k) : pdcpGetNextTxSeqNumber p =
    (p.setTx (k + 1), k % 2 ^ p.seq_num_size) := by
  have hmax := h.sized.maxSn_succ
  have hle := h.sized.le
  have hpos : 0 < 2 ^ p.seq_num_size := by omega
  rw [pdcpGetNextTxSeqNumber, if_neg (by simp [pdcpIsSeqNumSizeValid_iff.2 h.sized]), h.sn, h.hfn]
  by_cases hlast : k % 2 ^ p.seq_num_size + 1 = 2 ^ p.seq_num_size
  · obtain ⟨hdiv, hmod⟩ := Counter.succ_of_last hlast
    rw [if_pos (by omega), Entity.setTx, hdiv, hmod, Nat.mod_add_mod]
  · obtain ⟨hdiv, hmod⟩ := Counter.succ_of_not_last hpos hlast
    rw [if_neg (by omega), Entity.setTx, hdiv, hmod, Nat.mod_eq_of_lt (by omega : _ < 2 ^ 16)]

theorem SendsAt.txCount (h : SendsAt p k) (srb : Bool) (mode : Mode) :
    p.txCount srb mode = countOf (if srb then 5 else 12) ((k + 1) / 2 ^ p.seq_num_size % 2 ^ 32)
      (k % 2 ^ p.seq_num_size) := by
  have hbits : countBits (p.setTx (k + 1)) srb = if srb then 5 else 12 :=
    Entity.Sized.countBits_eq h.sized srb
  rw [Entity.txCount, h.next]
  dsimp only
  rw [pdcpGetNextCountTx, hbits]
  cases srb with
  | false => rfl
  | true => exact countOf_mod (by decide)

theorem txHeader_sn_le (srb : Bool) (mode : Mode) (sn : Nat) : (txHeader srb mode sn).2 ≤ sn := by
  cases srb with
  | false => exact le_rfl
  | true => exact Nat.mod_le sn _

/-! ## The PDU of an SDU -/

theorem length_streamEncrypt (osa : Osa) (algorithm : Nat) (c : StreamCipher) (bytes : List Byte) :
    (streamEncrypt osa algorithm c bytes).length = bytes.length := by
  unfold streamEncrypt
  split
  · exact osa.length_eea1 c bytes
  · exact osa.length_eea2 c bytes
  · rfl

theorem length_streamComputeIntegrity {osa : Osa} {algorithm : Nat} {c : StreamCipher}
    {bytes mac_i : List Byte} (h : streamComputeIntegrity osa algorithm c bytes = some mac_i) :
    mac_i.length = 4 := by
  unfold streamComputeIntegrity at h
  split at h
  · cases h
    exact osa.length_eia1 c _
  · cases h
    exact osa.length_eia2 c _
  · cases h

/-- Security keeps the header and ciphers what follows it, which is the SDU and a tail. -/
theorem pdcpApplySecurity_eq (osa : Osa) (p : Entity) (srb : Bool) (rb_id sn : Nat)
    (header sdu : List Byte) :
    ∃ tail, tail.length = tailerLen srb ∧ pdcpApplySecurity osa p srb rb_id header.length sn
          (header ++ sdu ++ replicate (tailerLen srb) 0) sdu.length =
        header ++ streamEncrypt osa p.cipheringAlgorithm
          (cipherOf (if p.is_ue then .uplink else .downlink) rb_id (pdcpGetNextCountTx p srb sn)
            (p.encKey srb) sdu.length) (sdu ++ tail) := by
  have htake : ∀ tail, (header ++ sdu ++ tail).take (header.length + sdu.length) = header ++ sdu :=
    fun tail => by rw [← length_append, take_left]
  unfold pdcpApplySecurity cipherFrom
  cases srb with
  | false =>
    refine ⟨[], rfl, ?_⟩
    simp [tailerLen]
  | true =>
    simp only [if_true]
    split
    · refine ⟨replicate (tailerLen true) 0, length_replicate, ?_⟩
      simp
    case _ mac_i hmac =>
      refine ⟨mac_i, length_streamComputeIntegrity hmac, ?_⟩
      rw [htake, append_assoc, take_left, drop_left]

theorem Entity.dataReq_some {osa : Osa} {p' : Entity} {srb : Bool} {rb_id : Nat} {mode : Mode}
    {sdu pdu : List Byte} (h : p.dataReq osa srb rb_id mode sdu = (p', some pdu)) :
    p' = (pdcpGetNextTxSeqNumber p).1 ∧ ∃ tail, tail.length = tailerLen srb ∧
      pdu = (txHeader srb mode (pdcpGetNextTxSeqNumber p).2).1 ++ (if p'.secures then
          streamEncrypt osa p'.cipheringAlgorithm
            (cipherOf (if p'.is_ue then .uplink else .downlink) rb_id (p.txCount srb mode)
              (p'.encKey srb) sdu.length) (sdu ++ tail)
        else sdu ++ tail) := by
  unfold Entity.dataReq at h
  dsimp only at h
  split at h
  · cases h
  · obtain ⟨rfl, rfl⟩ := h
    refine ⟨rfl, ?_⟩
    split
    · exact pdcpApplySecurity_eq osa (pdcpGetNextTxSeqNumber p).1 srb rb_id _ _ sdu
    · exact ⟨replicate (tailerLen srb) 0, length_replicate, by rw [append_assoc]⟩

theorem SendsAt.dataReq (h : SendsAt p k) (osa : Osa) (srb : Bool) (rb_id : Nat) (mode : Mode)
    (sdu : List Byte) : ∃ pdu, p.dataReq osa srb rb_id mode sdu = (p.setTx (k + 1), some pdu) := by
  have hmax : (p.setTx (k + 1)).maxSn + 1 = 2 ^ p.seq_num_size := h.sized.maxSn_succ
  have hsn := txHeader_sn_le srb mode (k % 2 ^ p.seq_num_size)
  rw [Entity.dataReq, h.next]
  dsimp only
  rw [if_neg (by omega)]
  exact ⟨_, rfl⟩

/-! ## The receiver -/

def Entity.rxCount (p : Entity) (srb_flag : Bool) (pdu : List Byte) : Nat :=
  let sn := (rxHeader p srb_flag pdu).2
  (pdcpGetNextCountRx (pdcpIsRxSeqNumberValid sn p srb_flag).1 srb_flag sn).2

theorem length_txHeader (srb : Bool) (mode : Mode) (sn : Nat) :
    (txHeader srb mode sn).1.length = if srb then 1 else 2 := by
  cases srb <;> rfl

theorem rxHeader_txHeader {srb : Bool} {mode : Mode} {rest : List Byte}
    (h : srb ∧ sn < 2 ^ 5 ∨ srb = false ∧ p.seq_num_size = 12 ∧ sn < 2 ^ 12) :
    rxHeader p srb ((txHeader srb mode sn).1 ++ rest) = ((txHeader srb mode sn).1.length, sn) := by
  rcases h with ⟨rfl, hsn⟩ | ⟨rfl, hsize, hsn⟩
  · have hread : ∀ n < 2 ^ 5, ((UInt8.ofNat (n % 2 ^ 8) &&& 0x1F).toNat) % 32 = n := by
      decide +kernel
    simp only [rxHeader, txHeader, serializeSrbSn, getSrbSn, if_true, cons_append, nil_append,
      getD_cons_zero, length_singleton, Prod.mk.injEq, true_and]
    exact hread sn hsn
  · have hhigh : ∀ n < 16, ∀ d ∈ [(0x80 : UInt8), 0], (UInt8.ofNat n ||| d).toNat % 16 = n := by
      decide +kernel
    have hmode : (if mode = .data then (0x80 : UInt8) else 0) ∈ [(0x80 : UInt8), 0] := by
      cases mode <;> decide
    simp only [rxHeader, txHeader, serializeLongSn, getLongSn, hsize, Bool.false_eq_true, if_false,
      cons_append, nil_append, getD_cons_zero, getD_cons_succ, length_cons,
      length_nil, UInt8.toNat_ofNat', hhigh (sn / 256) (by omega) _ hmode]
    simp only [Nat.reduceEqDiff, if_false, if_true, Prod.mk.injEq, true_and]
    omega

/-! ## The numbers of the receiver -/

/-- The entity that expects the number `j`. -/
def Entity.setRx (p : Entity) (j : Nat) : Entity :=
  { p with
    next_pdcp_rx_sn := j % 2 ^ p.seq_num_size
    rx_hfn := j / 2 ^ p.seq_num_size % 2 ^ 32 }

theorem Entity.Sized.advance (sized : p.Sized) (hsn : p.next_pdcp_rx_sn = k % 2 ^ p.seq_num_size)
    (hhfn : p.rx_hfn = k / 2 ^ p.seq_num_size % 2 ^ 32) :
    pdcpAdvanceRxWindow p = p.setRx (k + 1) := by
  have hmax := sized.maxSn_succ
  have hle := sized.le
  have hpos := Nat.two_pow_pos p.seq_num_size
  rw [pdcpAdvanceRxWindow, if_neg (by simp [pdcpIsSeqNumSizeValid_iff.2 sized]), hsn, hhfn]
  by_cases hlast : k % 2 ^ p.seq_num_size + 1 = 2 ^ p.seq_num_size
  · obtain ⟨hdiv, hmod⟩ := Counter.succ_of_last hlast
    rw [if_pos (by omega), Entity.setRx, hdiv, hmod, Nat.mod_add_mod]
  · obtain ⟨hdiv, hmod⟩ := Counter.succ_of_not_last hpos hlast
    rw [if_neg (by omega), Entity.setRx, hdiv, hmod, Nat.mod_eq_of_lt (by omega : _ < 2 ^ 16)]

/-- SN and HFN are the two parts of the number that is expected. -/
structure ReceivesAt (p : Entity) (j : Nat) : Prop where
  sized : p.Sized
  sn : p.next_pdcp_rx_sn = j % 2 ^ p.seq_num_size
  hfn : p.rx_hfn = j / 2 ^ p.seq_num_size % 2 ^ 32
  offset : p.rx_hfn_offset = 0

theorem ReceivesAt.setRx (h : ReceivesAt p j) (k : Nat) : ReceivesAt (p.setRx k) k :=
  ⟨h.sized, rfl, rfl, h.offset⟩

/-- An SRB, or a DRB over RLC UM, goes on after any number that is less than all SNs ahead. -/
theorem ReceivesAt.receiveNext (h : ReceivesAt p j) (hjk : j ≤ k)
    (hlt : k < j + 2 ^ p.seq_num_size) :
    receiveNext p (k % 2 ^ p.seq_num_size) = p.setRx (k + 1) := by
  have hhfn :
      (if k % 2 ^ p.seq_num_size < p.next_pdcp_rx_sn then (p.rx_hfn + 1) % 2 ^ 32 else p.rx_hfn) =
      k / 2 ^ p.seq_num_size % 2 ^ 32 := by
    rw [Counter.div_of_ahead hjk hlt, h.sn, h.hfn, Nat.mod_add_mod]
    split <;> rfl
  unfold Pdcp.receiveNext
  rw [hhfn]
  exact Entity.Sized.advance (p := p.setRx k) h.sized rfl rfl

/-- A DRB over RLC AM goes on after a number with the same HFN in the window. -/
theorem ReceivesAt.receiveAm (h : ReceivesAt p j) (hjk : j ≤ k) (hsize : p.seq_num_size = 12)
    (hlt : k < j + 2048) (hsn : p.next_pdcp_rx_sn ≤ k % 2 ^ 12)
    (hwindow : ¬ outOfWindow p (k % 2 ^ 12)) :
    (receiveAm p (k % 2 ^ 12)).1 = p.setRx (k + 1) := by
  have hdiv := Counter.div_of_ahead (n := 2 ^ 12) hjk (by omega)
  have hnext := h.sn
  rw [hsize] at hnext
  rw [if_neg (by omega)] at hdiv
  have hwin : p.reorderingWindow = 2048 := by simp [Entity.reorderingWindow, hsize]
  have hdist : k % 2 ^ 12 - p.next_pdcp_rx_sn < 2048 := by omega
  have hset : { p with rx_hfn_offset := 0, next_pdcp_rx_sn := k % 2 ^ 12 } = p.setRx k := by
    rw [Entity.setRx, hsize, hdiv, ← h.offset, ← hsize, ← h.hfn]
  rw [Pdcp.receiveAm, if_neg hwindow, if_neg (by omega), if_neg (by omega), if_pos (by omega), hset]
  exact Entity.Sized.advance (p := p.setRx k) h.sized rfl rfl

theorem ReceivesAt.count (h : ReceivesAt p (k + 1)) (srb : Bool) :
    (pdcpGetNextCountRx p srb (k % 2 ^ p.seq_num_size)).2 =
      countOf (if srb then 5 else 12) ((k + 1) / 2 ^ p.seq_num_size % 2 ^ 32)
        (k % 2 ^ p.seq_num_size) := by
  have hmod : ((p.rx_hfn : Int) + p.rx_hfn_offset) % 2 ^ 32 = (p.rx_hfn : Int) := by
    rw [h.offset, h.hfn]
    omega
  rw [pdcpGetNextCountRx, h.sized.countBits_eq]
  rw [hmod, Int.toNat_natCast, h.hfn]

/-! ## A new bearer -/

section New

variable (ctxt : Ctxt) (setting : Setting) (sec : Security)

theorem configAdd_eq : ∃ ciphering integrity kRRCenc kRRCint kUPenc activated,
    configAdd ctxt setting.config sec =
        { is_ue := !ctxt.enb_flag
          is_srb := setting.config.srb_flag
          lcid := setting.config.lc_id
          rb_id := setting.config.rb_id
          header_compression_profile := setting.config.header_compression_profile
          status_report := setting.config.rb_report
          seq_num_size := setting.size
          rlc_mode := setting.config.rlc_mode
          last_submitted_pdcp_rx_sn := 4095
          cipheringAlgorithm := ciphering
          integrityProtAlgorithm := integrity
          kRRCenc := kRRCenc
          kRRCint := kRRCint
          kUPenc := kUPenc
          security_activated := activated } :=
  setSecurity_eq _ sec

theorem configAdd_size : (configAdd ctxt setting.config sec).seq_num_size = setting.size := by
  obtain ⟨_, _, _, _, _, _, heq⟩ := configAdd_eq ctxt setting sec
  rw [heq]

theorem configAdd_sendsAt : SendsAt (configAdd ctxt setting.config sec) 0 := by
  refine ⟨Setting.sized (configAdd_size ctxt setting sec), ?_, ?_⟩
  all_goals
    obtain ⟨_, _, _, _, _, _, heq⟩ := configAdd_eq ctxt setting sec
    simp [heq]

theorem configAdd_receivesAt : ReceivesAt (configAdd ctxt setting.config sec) 0 := by
  have hsized := Setting.sized (configAdd_size ctxt setting sec)
  obtain ⟨_, _, _, _, _, _, heq⟩ := configAdd_eq ctxt setting sec
  rw [heq] at hsized ⊢
  exact ⟨hsized, (Nat.zero_mod _).symm, by simp, rfl⟩

end New

/-! ## Settings for examples -/

def anEnb : Ctxt := { module_id := 0, rnti := 0x46, enb_flag := true }

def itsUe : Ctxt := { module_id := 0, rnti := 0x46, enb_flag := false }

def umDrb (size : SnSize) : Setting := .drb ⟨1, drb_one⟩ { rlc_type := .um, drb_sn := size.toNat }

def amDrb : Setting := .drb ⟨1, drb_one⟩ { rlc_type := .am, drb_sn := SnSize.len12bits.toNat }

def eea2 : Security := { security_mode := 0x02 }

end MacRlcSplit.Pdcp
