-- A PDCP entity, `pdcp_t`, and the collection `pdcp_coll_p` that keeps one
-- for each radio bearer under a computed key.
import MacRlcSplit.Am.Entity

namespace MacRlcSplit.Pdcp

open Am (Byte)

/-! ## The entity -/

/-- `rlc_mode_t`. -/
inductive RlcMode where
  | none
  | am
  | um
  | tm
deriving DecidableEq, Repr

/-- `pdcp_t`, as `calloc` leaves it unless fields are given. SNs are `uint16_t`, HFNs `uint32_t`. -/
structure Entity where
  header_compression_profile : Nat := 0
  is_ue : Bool := false
  is_srb : Bool := false
  cipheringAlgorithm : Nat := 0
  integrityProtAlgorithm : Nat := 0
  kUPenc : List Byte := []
  kRRCint : List Byte := []
  kRRCenc : List Byte := []
  security_activated : Bool := false
  rlc_mode : RlcMode := .none
  status_report : Nat := 0
  /-- In bits. -/
  seq_num_size : Nat := 0
  lcid : Nat := 0
  rb_id : Nat := 0
  next_pdcp_tx_sn : Nat := 0
  next_pdcp_rx_sn : Nat := 0
  next_pdcp_rx_sn_before_integrity : Nat := 0
  tx_hfn : Nat := 0
  rx_hfn : Nat := 0
  rx_hfn_offset : Int := 0
  last_submitted_pdcp_rx_sn : Nat := 0
deriving DecidableEq, Repr

/-! ## The collection -/

/-- What identifies a UE in `protocol_ctxt_t`. -/
structure Ctxt where
  module_id : UInt8
  rnti : UInt16
  enb_flag : Bool
deriving DecidableEq, Repr

/-- The number of DRBs, and with it the ids of DRBs that are accepted. -/
def maxDRB : Nat := 11

def NB_RB_MAX : Nat := maxDRB + 3

def collKey (ctxt : Ctxt) (rb_id : Nat) (is_srb : Bool) : Nat :=
  ctxt.module_id.toNat ||| ctxt.rnti.toNat <<< 8 ||| ctxt.enb_flag.toNat <<< 24 ||| rb_id <<< 25 |||
    is_srb.toNat <<< 33

/-- The hash table `pdcp_coll_p`. -/
abbrev Coll := Nat → Option Entity

theorem collKey_eq (ctxt : Ctxt) {rb_id : Nat} (h : rb_id < 2 ^ 8) (is_srb : Bool) :
    collKey ctxt rb_id is_srb = is_srb.toNat * 2 ^ 33 +
      (rb_id * 2 ^ 25 + (ctxt.enb_flag.toNat * 2 ^ 24 +
      (ctxt.rnti.toNat * 2 ^ 8 + ctxt.module_id.toNat))) := by
  have hmod := ctxt.module_id.toNat_lt
  have hrnti := ctxt.rnti.toNat_lt
  have henb := ctxt.enb_flag.toNat_le
  have place : ∀ {a b i : Nat}, b < 2 ^ i → b ||| a <<< i = a * 2 ^ i + b := fun hb => by
    rw [Nat.or_comm, ← Nat.shiftLeft_add_eq_or_of_lt hb, Nat.shiftLeft_eq]
  unfold collKey
  rw [place hmod, place (i := 24) (by omega), place (i := 25) (by omega), place (by omega)]

theorem collKey_inj {ctxt ctxt' : Ctxt} {rb_id rb_id' : Nat} {is_srb is_srb' : Bool}
    (h : rb_id < 2 ^ 8) (h' : rb_id' < 2 ^ 8)
    (heq : collKey ctxt rb_id is_srb = collKey ctxt' rb_id' is_srb') :
    ctxt = ctxt' ∧ rb_id = rb_id' ∧ is_srb = is_srb' := by
  rw [collKey_eq ctxt h, collKey_eq ctxt' h'] at heq
  have hmod := ctxt.module_id.toNat_lt
  have hmod' := ctxt'.module_id.toNat_lt
  have hrnti := ctxt.rnti.toNat_lt
  have hrnti' := ctxt'.rnti.toNat_lt
  have henb := ctxt.enb_flag.toNat_le
  have henb' := ctxt'.enb_flag.toNat_le
  have flag_inj : ∀ {a b : Bool}, a.toNat = b.toNat → a = b := by decide
  refine ⟨?_, by omega, flag_inj (by omega)⟩
  obtain ⟨module_id, rnti, enb_flag⟩ := ctxt
  obtain ⟨module_id', rnti', enb_flag'⟩ := ctxt'
  dsimp only at *
  simp only [Ctxt.mk.injEq]
  exact ⟨UInt8.toNat_inj.1 (by omega), UInt16.toNat_inj.1 (by omega), flag_inj (by omega)⟩

end MacRlcSplit.Pdcp
