-- `rlc_um_segment_5` on its own: whatever the queue and the grant, its PDU is
-- read back as the pieces of SDUs that it was cut from.
import MacRlcSplit.Um.Stream

namespace MacRlcSplit.Um

open Am List

variable {tx : Tx}

/-- An entity with a queue of at most 24 SDUs, the head possibly partly sent, and a grant. -/
structure ShortQueue (tx : Tx) : Prop extends TxOk tx where
  five : tx.tx_sn_length = .five
  ne : tx.input_sdus ≠ []
  few : tx.input_sdus.length ≤ 24
  sizes : ∀ x ∈ tx.input_sdus, x.sdu_size ≤ 2047
  two : 2 ≤ tx.nb_bytes_requested_by_mac

theorem ShortQueue.lisFit (h : ShortQueue tx) : LisFit tx := by
  obtain ⟨x, l, hq⟩ := exists_cons_of_ne_nil h.ne
  have hfew := h.few
  have hheader : tx.tx_sn_length.headerMinLength = 1 := by rw [h.five]; rfl
  have hmany := (plan_bounds h.left hq (by rw [hheader]; exact h.two)).1
  rw [hq, length_cons] at hfew
  refine ⟨by omega, fun y hy => ?_⟩
  have hsize := h.sizes y (mem_of_mem_take hy)
  unfold TxSdu.sdu_size at hsize
  unfold TxSdu.sdu_remaining_size
  omega

/-- The PDU is not above the grant and is read as the pieces of SDUs that left the queue. -/
theorem a_five_bit_pdu_is_read_back (h : ShortQueue tx) (junk : Mem) :
    ∃ tx' req cells, rlcUmSegment5 tx junk = (tx', some req) ∧
      req.tb_size ≤ tx.nb_bytes_requested_by_mac ∧
      queueCells tx.input_sdus = cells ++ queueCells tx'.input_sdus ∧
      ∀ tb : MacTbInd, tb.size = req.tb_size → (∀ a < req.tb_size, tb.data a = req.data a) →
        CarriesCells .five tb cells := by
  have htwo := h.two
  have hgrant := dataPduSize_le_grant tx
  have hsome : ∃ tx' req, rlcUmSegment5 tx junk = (tx', some req) ∧
      req.tb_size ≤ tx.nb_bytes_requested_by_mac := by
    unfold rlcUmSegment5
    rw [if_neg (not_or.2 ⟨by omega, h.ne⟩)]
    exact ⟨_, _, rfl, by dsimp only; omega⟩
  obtain ⟨tx', req, hreq, hsize⟩ := hsome
  obtain ⟨cells, sends⟩ := segment5_sends h.five h.toTxOk h.lisFit hreq
  refine ⟨tx', req, cells, hreq, hsize, sends.leaves, fun tb htb hread => ?_⟩
  rw [← h.five]
  exact (sends.carries tb htb hread).1

/-- Two SDUs, the first of them partly sent, with a grant for a part of the second one. -/
def aShortQueue : Tx where
  tx_sn_length := .five
  input_sdus := [{ data := [1, 2, 3], sdu_segmented_size := 1, more := by decide },
    { data := [4, 5, 6], more := by decide }]
  buffer_occupancy := 5
  nb_bytes_requested_by_mac := 6

theorem aShortQueue_ok : ShortQueue aShortQueue where
  tail := by decide
  left := by decide
  grant := by decide
  five := rfl
  ne := by decide
  few := by decide
  sizes := by decide
  two := by decide

theorem a_pdu_of_two_sdus_is_read_back :
    (rlcUmSegment5 aShortQueue fun _ => 0).2.map (fun req => req.data.read 0 req.tb_size) =
      some [0xE0, 0, 0x20, 2, 3, 4] ∧
    ∃ tx' req cells, rlcUmSegment5 aShortQueue (fun _ => 0) = (tx', some req) ∧ req.tb_size ≤ 6 ∧
      queueCells aShortQueue.input_sdus = cells ++ queueCells tx'.input_sdus ∧
      ∀ tb : MacTbInd, tb.size = req.tb_size → (∀ a < req.tb_size, tb.data a = req.data a) →
        CarriesCells .five tb cells :=
  ⟨by decide +kernel, a_five_bit_pdu_is_read_back aShortQueue_ok _⟩

end MacRlcSplit.Um
