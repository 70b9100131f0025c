-- Sequence numbering, `pdcp_sequence_manager.c`: which SN the next PDU gets,
-- and what an SN that arrives does to the receive window and the HFN.
import MacRlcSplit.Pdcp.Entity

namespace MacRlcSplit.Pdcp

/-! ## Sizes -/

def pdcpIsSeqNumSizeValid (p : Entity) : Bool :=
  p.seq_num_size = 5 ∨ p.seq_num_size = 7 ∨ p.seq_num_size = 12

/-- `max_seq_num` is a `uint16_t` that is shifted and then decremented. -/
def pdcpCalculateMaxSeqNumForGivenSize (seq_num_size : Nat) : Nat :=
  (2 ^ seq_num_size % 2 ^ 16 + 2 ^ 16 - 1) % 2 ^ 16

def pdcpIsSeqNumValid (seq_num seq_num_size : Nat) : Bool :=
  seq_num ≤ pdcpCalculateMaxSeqNumForGivenSize seq_num_size

def Entity.maxSn (p : Entity) : Nat := pdcpCalculateMaxSeqNumForGivenSize p.seq_num_size

/-! ## Sending -/

/-- The SN of the next PDU; -1 as a `uint16_t` if the size is none of the three. -/
def pdcpGetNextTxSeqNumber (p : Entity) : Entity × Nat :=
  if pdcpIsSeqNumSizeValid p = false then (p, 2 ^ 16 - 1)
  else if p.next_pdcp_tx_sn = p.maxSn then
    ({ p with next_pdcp_tx_sn := 0, tx_hfn := (p.tx_hfn + 1) % 2 ^ 32 }, p.next_pdcp_tx_sn)
  else
    ({ p with next_pdcp_tx_sn := (p.next_pdcp_tx_sn + 1) % 2 ^ 16 }, p.next_pdcp_tx_sn)

theorem pdcpGetNextTxSeqNumber_frame (p : Entity) :
    ∃ sn hfn, (pdcpGetNextTxSeqNumber p).1 = { p with next_pdcp_tx_sn := sn, tx_hfn := hfn } := by
  unfold pdcpGetNextTxSeqNumber
  split
  · exact ⟨_, _, rfl⟩
  · split <;> exact ⟨_, _, rfl⟩

/-! ## Receiving -/

def pdcpAdvanceRxWindow (p : Entity) : Entity :=
  if pdcpIsSeqNumSizeValid p = false then p
  else if p.next_pdcp_rx_sn = p.maxSn then
    { p with next_pdcp_rx_sn := 0, rx_hfn := (p.rx_hfn + 1) % 2 ^ 32 }
  else { p with next_pdcp_rx_sn := (p.next_pdcp_rx_sn + 1) % 2 ^ 16 }

/-- The window of a DRB, half of its SNs if these have 7 or 12 bits. -/
def Entity.reorderingWindow (p : Entity) : Int := if p.seq_num_size = 7 then 64 else 2048

/-- SRBs, and DRBs over RLC UM: an SN below the expected one starts the next HFN. -/
def receiveNext (p : Entity) (seq_num : Nat) : Entity := pdcpAdvanceRxWindow
    { p with
      rx_hfn := if seq_num < p.next_pdcp_rx_sn then (p.rx_hfn + 1) % 2 ^ 32 else p.rx_hfn
      next_pdcp_rx_sn := seq_num }

/-- The PDU was submitted before, or is too far from the last one that was. The subtractions are
made in `int`. -/
def outOfWindow (p : Entity) (seq_num : Nat) : Prop :=
  (seq_num : Int) - p.last_submitted_pdcp_rx_sn > p.reorderingWindow ∨
    0 ≤ (p.last_submitted_pdcp_rx_sn : Int) - seq_num ∧
      (p.last_submitted_pdcp_rx_sn : Int) - seq_num < p.reorderingWindow

instance (p : Entity) (seq_num : Nat) : Decidable (outOfWindow p seq_num) :=
  inferInstanceAs (Decidable (_ ∨ _ ∧ _))

/-- A DRB over RLC AM. -/
def receiveAm (p : Entity) (seq_num : Nat) : Entity × Bool :=
  if outOfWindow p seq_num then
    ({ p with rx_hfn_offset := if seq_num > p.next_pdcp_rx_sn then -1 else 0 }, false)
  else if (p.next_pdcp_rx_sn : Int) - seq_num > p.reorderingWindow then
    ({ p with
       rx_hfn := (p.rx_hfn + 1) % 2 ^ 32
       rx_hfn_offset := 0
       next_pdcp_rx_sn := (p.next_pdcp_rx_sn + 1) % 2 ^ 16 }, true)
  else if (seq_num : Int) - p.next_pdcp_rx_sn ≥ p.reorderingWindow then
    ({ p with rx_hfn_offset := -1 }, true)
  else if seq_num ≥ p.next_pdcp_rx_sn then
    (pdcpAdvanceRxWindow { p with rx_hfn_offset := 0, next_pdcp_rx_sn := seq_num }, true)
  else ({ p with rx_hfn_offset := 0 }, true)

/-- What an SN does to the state, and whether it is in accordance with the receive window. -/
def pdcpIsRxSeqNumberValid (seq_num : Nat) (p : Entity) (srb_flag : Bool) : Entity × Bool :=
  if pdcpIsSeqNumSizeValid p = false ∨ pdcpIsSeqNumValid seq_num p.seq_num_size =
    false then (p, false)
  else if srb_flag then
    (receiveNext
      { p with
        rx_hfn_offset := 0
        next_pdcp_rx_sn_before_integrity := p.next_pdcp_rx_sn } seq_num, true)
  else
    match p.rlc_mode with
    | .am => receiveAm p seq_num
    | .um => (receiveNext p seq_num, true)
    | .tm | .none => (p, false)

/-- The numbers of the receiver. -/
structure RxNumbers where
  next_pdcp_rx_sn : Nat
  next_pdcp_rx_sn_before_integrity : Nat
  rx_hfn : Nat
  rx_hfn_offset : Int

def Entity.withRx (p : Entity) (n : RxNumbers) : Entity :=
  { p with
    next_pdcp_rx_sn := n.next_pdcp_rx_sn
    next_pdcp_rx_sn_before_integrity := n.next_pdcp_rx_sn_before_integrity
    rx_hfn := n.rx_hfn
    rx_hfn_offset := n.rx_hfn_offset }

theorem pdcpAdvanceRxWindow_frame (p : Entity) : ∃ n, pdcpAdvanceRxWindow p = p.withRx n := by
  unfold pdcpAdvanceRxWindow
  split
  · exact ⟨⟨_, _, _, _⟩, rfl⟩
  · split <;> exact ⟨⟨_, _, _, _⟩, rfl⟩

theorem receiveNext_frame (p : Entity) (seq_num : Nat) :
    ∃ n, receiveNext p seq_num = p.withRx n := by
  obtain ⟨n, hn⟩ := pdcpAdvanceRxWindow_frame
    { p with
      rx_hfn := if seq_num < p.next_pdcp_rx_sn then (p.rx_hfn + 1) % 2 ^ 32 else p.rx_hfn
      next_pdcp_rx_sn := seq_num }
  exact ⟨n, hn⟩

theorem receiveAm_frame (p : Entity) (seq_num : Nat) : ∃ n,
    (receiveAm p seq_num).1 = p.withRx n := by
  unfold receiveAm
  split
  · exact ⟨⟨_, _, _, _⟩, rfl⟩
  split
  · exact ⟨⟨_, _, _, _⟩, rfl⟩
  split
  · exact ⟨⟨_, _, _, _⟩, rfl⟩
  split
  · obtain ⟨n, hn⟩ :=
      pdcpAdvanceRxWindow_frame { p with rx_hfn_offset := 0, next_pdcp_rx_sn := seq_num }
    exact ⟨n, hn⟩
  · exact ⟨⟨_, _, _, _⟩, rfl⟩

theorem pdcpIsRxSeqNumberValid_frame (seq_num : Nat) (p : Entity) (srb_flag : Bool) :
    ∃ n, (pdcpIsRxSeqNumberValid seq_num p srb_flag).1 = p.withRx n := by
  unfold pdcpIsRxSeqNumberValid
  split
  · exact ⟨⟨_, _, _, _⟩, rfl⟩
  split
  · obtain ⟨n, hn⟩ := receiveNext_frame
      { p with rx_hfn_offset := 0, next_pdcp_rx_sn_before_integrity := p.next_pdcp_rx_sn } seq_num
    exact ⟨n, hn⟩
  split
  · exact receiveAm_frame p seq_num
  · exact receiveNext_frame p seq_num
  all_goals exact ⟨⟨_, _, _, _⟩, rfl⟩

end MacRlcSplit.Pdcp
