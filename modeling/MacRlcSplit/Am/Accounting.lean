-- The counters of the transmitter against what they count. They can drift
-- in two ways: a NACK at the retransmission threshold gives up an SDU of
-- which bytes are still in the queue, and `retx_count` wraps. In a run with
-- neither, all five counters are exact.
import MacRlcSplit.Am.TxWindow
import MacRlcSplit.Lib.Table
import Mathlib.Algebra.BigOperators.Ring.Finset

namespace MacRlcSplit.Am

open Lib Function

/-! ## The queue -/

def TxSdu.queued (x : TxSdu) : Int := if x.mem_block.isSome then 1 else 0

def TxSdu.queuedBytes (x : TxSdu) : Int := if x.mem_block.isSome then x.sdu_remaining_size else 0

/-- The counters of the queue are what its slots add up to. -/
structure QueueExact (q : Sdus) : Prop where
  occupancy : q.sdu_buffer_occupancy = total 128 TxSdu.queuedBytes q.input_sdus
  no_segmented : q.nb_sdu_no_segmented = total 128 TxSdu.queued q.input_sdus
  next : q.next_sdu_index < 128
  beyond : ∀ i, 128 ≤ i → (q.input_sdus i).mem_block = none

/-- The slots without data in `q` have none in `q'` either. -/
def Sdus.Empties (q q' : Sdus) : Prop := ∀ i, (q.input_sdus i).mem_block = none →
    (q'.input_sdus i).mem_block = none

variable {x : TxSdu} {s : Entity} {b : Nat → Nat}

theorem queued_of_none (h : x.mem_block = none) : x.queued = 0 ∧ x.queuedBytes = 0 := by
  simp [TxSdu.queued, TxSdu.queuedBytes, h]

variable {q q' : Sdus} {i : Nat}

theorem Sdus.Empties.trans {q'' : Sdus} (h : q.Empties q') (h' : q'.Empties q'') : q.Empties q'' :=
  fun i hi => h' i (h i hi)

theorem empties_update (table : q'.input_sdus = update q.input_sdus i x)
    (h : (q.input_sdus i).mem_block = none → x.mem_block = none) : q.Empties q' := by
  intro j hj
  rw [table, update_apply]
  split
  · next heq => exact h (heq ▸ hj)
  · exact hj

theorem QueueExact.set (h : QueueExact q) (table : q'.input_sdus = update q.input_sdus i x)
    (occupancy : q'.sdu_buffer_occupancy = q.sdu_buffer_occupancy +
      (x.queuedBytes - (q.input_sdus i).queuedBytes))
    (no_segmented : q'.nb_sdu_no_segmented =
      q.nb_sdu_no_segmented + (x.queued - (q.input_sdus i).queued)) (next : q'.next_sdu_index < 128)
    (within : i < 128 ∨ x.mem_block = none) : QueueExact q' := by
  have weigh : i < 128 ∨ x.queued = (q.input_sdus i).queued ∧
      x.queuedBytes = (q.input_sdus i).queuedBytes := by
    by_cases hlt : i < 128
    · exact .inl hlt
    · have hnew := queued_of_none (within.resolve_left hlt)
      have hold := queued_of_none (h.beyond i (by omega))
      exact .inr ⟨by rw [hnew.1, hold.1], by rw [hnew.2, hold.2]⟩
  refine ⟨?_, ?_, next, ?_⟩
  · rw [occupancy, table, total_update _ _ _ (weigh.imp_right (·.2)), h.occupancy]
  · rw [no_segmented, table, total_update _ _ _ (weigh.imp_right (·.1)), h.no_segmented]
  · intro j hj
    rw [table, update_apply]
    split
    · next heq => exact within.resolve_left (by omega)
    · exact h.beyond j hj

theorem QueueExact.same (h : QueueExact q) (table : q'.input_sdus = update q.input_sdus i x)
    (mem_block : x.mem_block = (q.input_sdus i).mem_block)
    (remaining : x.sdu_remaining_size = (q.input_sdus i).sdu_remaining_size)
    (occupancy : q'.sdu_buffer_occupancy = q.sdu_buffer_occupancy)
    (no_segmented : q'.nb_sdu_no_segmented = q.nb_sdu_no_segmented)
    (next : q'.next_sdu_index = q.next_sdu_index) : QueueExact q' := by
  refine h.set table ?_ ?_ (next ▸ h.next) ?_
  · simp [TxSdu.queuedBytes, mem_block, remaining, occupancy]
  · simp [TxSdu.queued, mem_block, no_segmented]
  · by_cases hlt : i < 128
    · exact .inl hlt
    · right
      rw [mem_block]
      exact h.beyond i (by omega)

theorem QueueExact.freeInSdu (h : QueueExact q) (empty : (q.input_sdus i).queuedBytes = 0) :
    QueueExact (freeInSdu q i) := by
  refine h.set rfl ?_ ?_ h.next (.inr rfl)
  · rw [empty]
    simp [Am.freeInSdu, TxSdu.queuedBytes]
  · simp [Am.freeInSdu, TxSdu.queued, Int.sub_eq_add_neg]

theorem freeInSdu_empties (q : Sdus) (i : Nat) : q.Empties (freeInSdu q i) :=
  empties_update rfl (fun _ => rfl)

theorem QueueExact.ackSdu (h : QueueExact q) (i : Nat) : QueueExact (ackSdu q i) := by
  unfold Am.ackSdu
  dsimp only
  split
  · next hlast =>
    apply QueueExact.freeInSdu
    · exact h.same rfl rfl rfl rfl rfl rfl
    · simp [TxSdu.queuedBytes, Sdus.set, hlast.2]
  · exact h.same rfl rfl rfl rfl rfl rfl

theorem ackSdu_empties (q : Sdus) (i : Nat) : q.Empties (ackSdu q i) := by
  unfold ackSdu
  dsimp only
  split
  · refine Sdus.Empties.trans ?_ (freeInSdu_empties _ _)
    exact empties_update rfl (fun h => h)
  · exact empties_update rfl (fun h => h)

theorem QueueExact.discardSdu (h : QueueExact q) (none : (q.input_sdus i).mem_block = none) :
    QueueExact (discardSdu q i) := by
  unfold Am.discardSdu
  dsimp only
  split
  · apply QueueExact.freeInSdu
    · exact h.same rfl rfl rfl rfl rfl rfl
    · simp [TxSdu.queuedBytes, Sdus.set, none]
  · exact h.same rfl rfl rfl rfl rfl rfl

theorem discardSdu_empties (q : Sdus) (i : Nat) : q.Empties (discardSdu q i) := by
  unfold discardSdu
  dsimp only
  split
  · refine Sdus.Empties.trans ?_ (freeInSdu_empties _ _)
    exact empties_update rfl (fun h => h)
  · exact empties_update rfl (fun h => h)

theorem QueueExact.ackSdus (h : QueueExact q)
    (l : List Nat) : QueueExact (l.foldl Am.ackSdu q) := by
  induction l generalizing q with
  | nil => exact h
  | cons i l ih => exact ih (h.ackSdu i)

theorem ackSdus_empties (q : Sdus) (l : List Nat) : q.Empties (l.foldl ackSdu q) := by
  induction l generalizing q with
  | nil => exact fun _ h => h
  | cons i l ih => exact (ackSdu_empties q i).trans (ih _)

theorem QueueExact.discardSdus (h : QueueExact q) (l : List Nat)
    (none : ∀ i ∈ l, (q.input_sdus i).mem_block = none) : QueueExact (l.foldl Am.discardSdu q) := by
  induction l generalizing q with
  | nil => exact h
  | cons i l ih =>
    apply ih (h.discardSdu (none i List.mem_cons_self))
    intro j hj
    exact discardSdu_empties q i j (none j (List.mem_cons_of_mem i hj))

theorem discardSdus_empties (q : Sdus) (l : List Nat) : q.Empties (l.foldl discardSdu q) := by
  induction l generalizing q with
  | nil => exact fun _ h => h
  | cons i l ih => exact (discardSdu_empties q i).trans (ih _)

/-! ## A new PDU, and a new SDU -/

theorem QueueExact.cut (h : QueueExact q) {pdu n : Nat}
    (current : (q.input_sdus q.current_sdu_index).mem_block.isSome)
    (some_left : n < (q.input_sdus q.current_sdu_index).sdu_remaining_size) :
    QueueExact (q.cut pdu n) := by
  refine h.set rfl ?_ ?_ h.next ?_
  · simp only [Sdus.cut, TxSdu.queuedBytes, current, if_true]
    omega
  · simp [Sdus.cut, Sdus.set, TxSdu.queued, current]
  · by_cases hlt : q.current_sdu_index < 128
    · exact .inl hlt
    · rw [h.beyond _ (by omega)] at current
      cases current

theorem QueueExact.finish (h : QueueExact q) {pdu : Nat}
    (current : (q.input_sdus q.current_sdu_index).mem_block.isSome) :
    QueueExact (q.finish pdu) := by
  unfold Sdus.finish freeInSduData
  dsimp only
  rw [if_pos current]
  refine h.set rfl ?_ ?_ h.next (.inr rfl)
  · simp [TxSdu.queuedBytes, Sdus.set, current, Int.sub_eq_add_neg]
  · simp [TxSdu.queued, current, Int.sub_eq_add_neg]

theorem cutPdu_queue {junk : Mem} {plan : Plan} (h : QueueExact s.sdus)
    (planned : planPdu 31 s.sdus s.sdus.current_sdu_index (dataPduSize s - 2) 2 0 0 [] =
      some plan) : QueueExact (s.cutPdu junk plan).sdus := by
  apply cutPdu_rule planned
  · intro q n current _ some_left hq
    exact hq.cut current some_left
  · intro q current _ hq
    exact hq.finish current
  · refine planPdu_rule (P := fun q _ => QueueExact q) ?_ h planned
    intro q l i _ _ hq
    exact hq.same rfl rfl rfl rfl rfl rfl

theorem QueueExact.dataReq (h : QueueExact q)
    (req : RlcAmDataReq) : QueueExact (rlcAmDataReq q req) := by
  unfold rlcAmDataReq
  split
  · next room =>
    have free : (q.input_sdus q.next_sdu_index).mem_block = none := by
      simp [Sdus.hasRoom] at room
      exact room.1.1
    have hold := queued_of_none free
    refine h.set rfl ?_ ?_ (Nat.mod_lt _ (by decide)) (.inl h.next)
    · rw [hold.2]
      simp [TxSdu.queuedBytes]
    · rw [hold.1]
      simp [TxSdu.queued]
  · exact ⟨h.occupancy, h.no_segmented, h.next, h.beyond⟩

/-! ## The retransmission buffer -/

def TxPdu.heldCount (p : TxPdu) : Int := if p.held then 1 else 0

def TxPdu.heldBytes (p : TxPdu) : Int := if p.held then p.header_and_payload_size else 0

def TxPdu.nackedBytes (p : TxPdu) : Int :=
  if p.held ∧ p.retx_count ≥ 0 then p.header_and_payload_size else 0

/-- The counters of the retransmission buffer are what the held PDUs add up to. -/
structure RetransExact (r : Retrans) : Prop where
  num_pdus : r.retrans_num_pdus = total 1024 TxPdu.heldCount r.pdu_retrans_buffer
  num_bytes : r.retrans_num_bytes = total 1024 TxPdu.heldBytes r.pdu_retrans_buffer
  to_retransmit : r.retrans_num_bytes_to_retransmit =
    total 1024 TxPdu.nackedBytes r.pdu_retrans_buffer

variable {r r' : Retrans} {sn : Nat}

theorem RetransExact.keeps (h : RetransExact r) (keeps : r.Keeps r') : RetransExact r' := by
  have weigh : ∀ sn, (r.pdu_retrans_buffer sn).heldCount = (r'.pdu_retrans_buffer sn).heldCount ∧
      (r.pdu_retrans_buffer sn).heldBytes = (r'.pdu_retrans_buffer sn).heldBytes ∧
      (r.pdu_retrans_buffer sn).nackedBytes = (r'.pdu_retrans_buffer sn).nackedBytes := by
    intro sn
    unfold TxPdu.heldCount TxPdu.heldBytes TxPdu.nackedBytes
    rw [keeps.held sn]
    by_cases held : (r.pdu_retrans_buffer sn).held
    · have alike := keeps.entry sn held
      rw [alike.size, alike.retx_count]
      exact ⟨rfl, rfl, rfl⟩
    · simp [held]
  refine ⟨?_, ?_, ?_⟩
  · rw [keeps.num_pdus, h.num_pdus]
    exact total_congr fun sn _ => (weigh sn).1
  · rw [keeps.num_bytes, h.num_bytes]
    exact total_congr fun sn _ => (weigh sn).2.1
  · rw [keeps.to_retransmit, h.to_retransmit]
    exact total_congr fun sn _ => (weigh sn).2.2

theorem RetransExact.set {p : TxPdu} (h : RetransExact r) (lt : sn < 1024)
    (buffer : r'.pdu_retrans_buffer = update r.pdu_retrans_buffer sn p)
    (num_pdus : r'.retrans_num_pdus = r.retrans_num_pdus +
      (p.heldCount - (r.pdu_retrans_buffer sn).heldCount))
    (num_bytes : r'.retrans_num_bytes = r.retrans_num_bytes +
      (p.heldBytes - (r.pdu_retrans_buffer sn).heldBytes))
    (to_retransmit : r'.retrans_num_bytes_to_retransmit = r.retrans_num_bytes_to_retransmit +
      (p.nackedBytes - (r.pdu_retrans_buffer sn).nackedBytes)) : RetransExact r' := by
  refine ⟨?_, ?_, ?_⟩
  · rw [num_pdus, buffer, total_update _ _ _ (.inl lt), h.num_pdus]
  · rw [num_bytes, buffer, total_update _ _ _ (.inl lt), h.num_bytes]
  · rw [to_retransmit, buffer, total_update _ _ _ (.inl lt), h.to_retransmit]

theorem RetransExact.acked (h : RetransExact r) (lt : sn < 1024)
    (held : (r.pdu_retrans_buffer sn).held) : RetransExact (ackEntry r sn) := by
  have free : ∀ p : TxPdu, ({ p with retransmit := false, mem_block := none, ack := true } :
      TxPdu).held = false := fun _ => rfl
  refine h.set lt rfl ?_ ?_ ?_
  · simp only [TxPdu.heldCount, held, free]
    rfl
  · simp [ackEntry, TxPdu.heldBytes, held, free, Int.sub_eq_add_neg]
  · simp [ackEntry, TxPdu.nackedBytes, held, free, Int.sub_eq_add_neg]

theorem nackCount_eq {x : Int} (low : -1 ≤ x) (high : x < 127) : nackCount x = x + 1 := by
  unfold nackCount int8
  split <;> omega

theorem RetransExact.nacked (h : RetransExact r) (lt : sn < 1024)
    (held : (r.pdu_retrans_buffer sn).held) (low : -1 ≤ (r.pdu_retrans_buffer sn).retx_count)
    (high : (r.pdu_retrans_buffer sn).retx_count < 127) : RetransExact (r.nacked sn) := by
  have held' : ∀ (p : TxPdu) n, ({ p with retx_count := n } : TxPdu).held = p.held := fun _ _ => rfl
  refine h.set lt rfl ?_ ?_ ?_
  · simp [Retrans.nacked, Retrans.set, TxPdu.heldCount, held']
  · simp [Retrans.nacked, Retrans.set, TxPdu.heldBytes, held']
  · simp only [Retrans.nacked, TxPdu.nackedBytes, held, held', nackCount_eq low high, true_and]
    split <;> split <;> split <;> omega

theorem RetransExact.resent (h : RetransExact r) (lt : sn < 1024)
    (low : 0 ≤ (r.pdu_retrans_buffer sn).retx_count)
    (high : (r.pdu_retrans_buffer sn).retx_count < 127) : RetransExact (r.resent sn) := by
  have count : int8 ((r.pdu_retrans_buffer sn).retx_count + 1) =
      (r.pdu_retrans_buffer sn).retx_count + 1 := by
    unfold int8
    omega
  have held' : ∀ (p : TxPdu) n, ({ p with retx_count := n } : TxPdu).held = p.held := fun _ _ => rfl
  refine h.set lt rfl ?_ ?_ ?_
  · simp [Retrans.resent, Retrans.set, TxPdu.heldCount, held']
  · simp [Retrans.resent, Retrans.set, TxPdu.heldBytes, held']
  · have low' : 0 ≤ (r.pdu_retrans_buffer sn).retx_count + 1 := by omega
    simp [Retrans.resent, Retrans.set, TxPdu.nackedBytes, held', count, low, low']

theorem RetransExact.store {p : TxPdu} (h : RetransExact r) (lt : r.vt_s < 1024)
    (free : (r.pdu_retrans_buffer r.vt_s).held = false) (held : p.held)
    (fresh : p.retx_count = -1) : RetransExact (r.store p) := by
  refine h.set lt rfl ?_ ?_ ?_
  · simp [Retrans.store, TxPdu.heldCount, free, held]
  · simp [Retrans.store, TxPdu.heldBytes, free, held]
  · simp [Retrans.store, Retrans.set, TxPdu.nackedBytes, free, fresh]

/-! ## The law -/

/-- The counters are exact, and no hit that may still come makes them drift. -/
structure Exact (b : Nat → Nat) (s : Entity) : Prop where
  queue : QueueExact s.sdus
  retrans : RetransExact s.retrans
  low : ∀ sn, (s.retrans.pdu_retrans_buffer sn).held = true →
    -1 ≤ (s.retrans.pdu_retrans_buffer sn).retx_count
  high : ∀ sn, (s.retrans.pdu_retrans_buffer sn).held = true →
    (s.retrans.pdu_retrans_buffer sn).retx_count + b sn ≤ 127
  sent : ∀ sn, (s.retrans.pdu_retrans_buffer sn).held = true → 0 < b sn →
    (s.retrans.pdu_retrans_buffer sn).retx_count + b sn ≥ s.cfg.max_retx_threshold →
    ∀ i ∈ (s.retrans.pdu_retrans_buffer sn).sdus_index, (s.sdus.input_sdus i).mem_block = none

theorem Exact.same {s' : Entity} (same : TxSame s s') (h : Exact b s) : Exact b s' := by
  have held : ∀ {sn}, (s'.retrans.pdu_retrans_buffer sn).held →
      (s.retrans.pdu_retrans_buffer sn).held :=
    fun h => (same.retrans.held _).symm.trans h
  refine ⟨same.sdus ▸ h.queue, h.retrans.keeps same.retrans, ?_, ?_, ?_⟩
  all_goals
    intro sn hsn
    have hsn := held hsn
    have alike := same.retrans.entry sn hsn
    rw [alike.retx_count]
  · exact h.low sn hsn
  · exact h.high sn hsn
  · rw [alike.sdus_index, same.cfg, same.sdus]
    exact h.sent sn hsn

theorem Exact.less {b' : Nat → Nat} (le : ∀ sn, b' sn ≤ b sn) (h : Exact b s) : Exact b' s := by
  refine ⟨h.queue, h.retrans, h.low, ?_, ?_⟩
  · intro sn held
    have := h.high sn held
    have := le sn
    omega
  · intro sn held hit reach
    have := le sn
    exact h.sent sn held (by omega) (by omega)

theorem Exact.acked {sn : Nat} (win : TxWin s.retrans)
    (held : (s.retrans.pdu_retrans_buffer sn).held) (h : Exact b s) : Exact b (s.acked sn) := by
  have hlt := (win.inFlight_of_held held).1
  have other : ∀ {sn'}, ((s.acked sn).retrans.pdu_retrans_buffer sn').held →
      (s.acked sn).retrans.pdu_retrans_buffer sn' = s.retrans.pdu_retrans_buffer sn' := by
    intro sn' hsn'
    apply update_of_ne
    rintro rfl
    simp [Entity.acked, ackEntry, Retrans.set, TxPdu.held] at hsn'
  refine ⟨?_, h.retrans.acked hlt held, ?_, ?_, ?_⟩
  · apply QueueExact.ackSdus
    exact ⟨h.queue.occupancy, h.queue.no_segmented, h.queue.next, h.queue.beyond⟩
  all_goals
    intro sn' hsn'
    have heq := other hsn'
    rw [heq] at hsn' ⊢
  · exact h.low sn' hsn'
  · exact h.high sn' hsn'
  · intro hit reach i hi
    apply ackSdus_empties
    exact h.sent sn' hsn' hit reach i hi

theorem Exact.raised {s' : Entity} {sn : Nat} (h : Exact b s)
    (held : (s.retrans.pdu_retrans_buffer sn).held) (hit : 0 < b sn) (cfg : s'.cfg = s.cfg)
    (buffer : s'.retrans.pdu_retrans_buffer = update s.retrans.pdu_retrans_buffer sn
      { s.retrans.pdu_retrans_buffer sn with
        retx_count := (s.retrans.pdu_retrans_buffer sn).retx_count + 1 })
    (queue : QueueExact s'.sdus) (retrans : RetransExact s'.retrans)
    (empties : s.sdus.Empties s'.sdus) :
    Exact (update b sn (b sn - 1)) s' := by
  have hlow := h.low sn held
  have hhigh := h.high sn held
  refine ⟨queue, retrans, ?_, ?_, ?_⟩
  all_goals
    intro sn' hsn'
    rw [buffer] at hsn' ⊢
    by_cases heq : sn' = sn
  · subst heq
    rw [update_self]
    dsimp only
    omega
  · rw [update_of_ne heq] at hsn' ⊢
    exact h.low sn' hsn'
  · subst heq
    rw [update_self, update_self]
    dsimp only
    omega
  · rw [update_of_ne heq] at hsn' ⊢
    rw [update_of_ne heq]
    exact h.high sn' hsn'
  · subst heq
    rw [update_self, update_self, cfg]
    intro _ reach i hi
    apply empties
    exact h.sent sn' held hit (by dsimp only at reach; omega) i hi
  · rw [update_of_ne heq] at hsn' ⊢
    rw [update_of_ne heq, cfg]
    intro hit' reach i hi
    apply empties
    exact h.sent sn' hsn' hit' reach i hi

theorem Exact.nacked {sn : Nat} (win : TxWin s.retrans)
    (held : (s.retrans.pdu_retrans_buffer sn).held) (hit : 0 < b sn)
    (h : Exact b s) : Exact (update b sn (b sn - 1)) (s.nacked sn) := by
  have hlt := (win.inFlight_of_held held).1
  have hlow := h.low sn held
  have hhigh := h.high sn held
  have count := nackCount_eq hlow (by omega)
  have buffer : (s.nacked sn).retrans.pdu_retrans_buffer = update s.retrans.pdu_retrans_buffer sn
        { s.retrans.pdu_retrans_buffer sn with
          retx_count := (s.retrans.pdu_retrans_buffer sn).retx_count + 1 } := by
    rw [← count]
    rfl
  have retrans : RetransExact (s.nacked sn).retrans := h.retrans.nacked hlt held hlow (by omega)
  by_cases reach : nackCount (s.retrans.pdu_retrans_buffer sn).retx_count ≥ s.cfg.max_retx_threshold
  · have hsdus : (s.nacked sn).sdus =
        (s.retrans.pdu_retrans_buffer sn).sdus_index.foldl discardSdu s.sdus := if_pos reach
    refine h.raised held hit rfl buffer ?_ retrans ?_ <;> rw [hsdus]
    · apply h.queue.discardSdus
      exact h.sent sn held hit (by omega)
    · exact discardSdus_empties _ _
  · have hsdus : (s.nacked sn).sdus = s.sdus := if_neg reach
    refine h.raised held hit rfl buffer ?_ retrans ?_ <;> rw [hsdus]
    · exact h.queue
    · exact fun _ hi => hi

theorem Exact.resent {sn : Nat} (win : TxWin s.retrans)
    (held : (s.retrans.pdu_retrans_buffer sn).held) (hit : 0 < b sn)
    (again : (s.retrans.pdu_retrans_buffer sn).retx_count ≥ 0) (h : Exact b s) :
    Exact (update b sn (b sn - 1)) { s with retrans := s.retrans.resent sn } := by
  have hlt := (win.inFlight_of_held held).1
  have hhigh := h.high sn held
  have count : int8 ((s.retrans.pdu_retrans_buffer sn).retx_count + 1) =
      (s.retrans.pdu_retrans_buffer sn).retx_count + 1 := by
    unfold int8
    omega
  refine h.raised held hit rfl ?_ h.queue (h.retrans.resent hlt again (by omega)) (fun _ hi => hi)
  rw [← count]
  rfl

theorem Exact.cut {junk : Mem} {plan : Plan} (win : TxWin s.retrans)
    (planned : planPdu 31 s.sdus s.sdus.current_sdu_index (dataPduSize s - 2) 2 0 0 [] =
      some plan) (h : Exact (fun _ => 0) s) : Exact (fun _ => 0) (s.cutPdu junk plan) := by
  have free : (s.retrans.pdu_retrans_buffer s.retrans.vt_s).held = false :=
    (win.outside _ fun hin => lt_irrefl _ hin.2).1
  refine ⟨cutPdu_queue h.queue planned, h.retrans.store win.vt_s free rfl rfl, ?_, ?_, ?_⟩
  · intro sn held
    rw [Entity.cutPdu, store_apply] at held ⊢
    split
    · exact Int.le_refl (-1)
    · next hne =>
      rw [if_neg hne] at held
      exact h.low sn held
  · intro sn held
    rw [Entity.cutPdu, store_apply] at held ⊢
    split
    · exact (by decide : (-1 : Int) + 0 ≤ 127)
    · next hne =>
      rw [if_neg hne] at held
      exact h.high sn held
  · intro sn _ hit
    cases hit

theorem exact_law : Law Exact where
  same := Exact.same
  less := Exact.less
  acked := Exact.acked
  nacked := Exact.nacked
  resent := Exact.resent
  cut win _ _ planned h := h.cut win planned

theorem exact_configure (cfg : Config) : Exact (fun _ => 0) (rlcAmConfigure cfg) := by
  refine ⟨⟨?_, ?_, (by decide : 0 < 128), fun _ _ => rfl⟩, ⟨?_, ?_, ?_⟩, ?_, ?_, ?_⟩
  iterate 5 exact (total_eq_zero fun _ _ => rfl).symm
  all_goals
    intro sn held
    cases held

/-! ## The counters over whole runs -/

open Finset

/-- The five counters, and what each of them counts. -/
structure Accounts (s : Entity) : Prop where
  sdu_buffer_occupancy : s.sdus.sdu_buffer_occupancy =
    ∑ i ∈ range 128 with (s.sdus.input_sdus i).mem_block.isSome,
      ((s.sdus.input_sdus i).sdu_remaining_size : Int)
  nb_sdu_no_segmented : s.sdus.nb_sdu_no_segmented =
    ((range 128).filter fun i => (s.sdus.input_sdus i).mem_block.isSome).card
  retrans_num_pdus : s.retrans.retrans_num_pdus = ((range 1024).filter s.retrans.outstanding).card
  retrans_num_bytes : s.retrans.retrans_num_bytes = ∑ sn ∈ range 1024 with s.retrans.outstanding sn,
      ((s.retrans.pdu_retrans_buffer sn).header_and_payload_size : Int)
  retrans_num_bytes_to_retransmit : s.retrans.retrans_num_bytes_to_retransmit =
    ∑ sn ∈ range 1024 with s.retrans.outstanding sn ∧
    (s.retrans.pdu_retrans_buffer sn).retx_count ≥ 0,
      ((s.retrans.pdu_retrans_buffer sn).header_and_payload_size : Int)

/-- No hit of the call wraps the `retx_count` of the PDU, and none takes it to the threshold
while an SDU in the PDU has bytes in the queue. -/
def NoDriftAt (s : Entity) (e : Event) (sn : Nat) : Prop :=
  (s.retrans.pdu_retrans_buffer sn).retx_count + hits e sn ≤ 127 ∧
  (0 < hits e sn → (s.retrans.pdu_retrans_buffer sn).retx_count + hits e sn ≥
    s.cfg.max_retx_threshold →
    ∀ i ∈ (s.retrans.pdu_retrans_buffer sn).sdus_index, (s.sdus.input_sdus i).mem_block = none)

instance (s : Entity) (e : Event) (sn : Nat) : Decidable (NoDriftAt s e sn) :=
  inferInstanceAs (Decidable (_ ∧ _))

/-- The call makes no counter drift: that is so for every PDU in [VT(A), VT(S)) that is not
acknowledged. -/
def NoDrift (s : Entity) (e : Event) : Prop := ∀ sn ∈ s.retrans.flight, s.retrans.outstanding sn →
    NoDriftAt s e sn

instance (s : Entity) (e : Event) : Decidable (NoDrift s e) :=
  inferInstanceAs (Decidable (∀ sn ∈ _, _))

theorem Exact.accounts (win : TxWin s.retrans) (h : Exact b s) : Accounts s := by
  refine ⟨?_, ?_, ?_, ?_, ?_⟩
  · rw [h.queue.occupancy, sum_filter]
    rfl
  · rw [h.queue.no_segmented, natCast_card_filter]
    rfl
  · rw [h.retrans.num_pdus, natCast_card_filter]
    apply sum_congr rfl
    intro sn _
    simp only [TxPdu.heldCount, win.held_iff]
  · rw [h.retrans.num_bytes, sum_filter]
    apply sum_congr rfl
    intro sn _
    simp only [TxPdu.heldBytes, win.held_iff]
  · rw [h.retrans.to_retransmit, sum_filter]
    apply sum_congr rfl
    intro sn _
    simp only [TxPdu.nackedBytes, win.held_iff]

/-- The counters are exact after a run in which no counter of transmissions drifts. -/
theorem exact_of_run {cfg : Config} {es : List Event} {s : Entity}
    (meets : Meets step NoDrift (rlcAmConfigure cfg) es)
    (h : run step (rlcAmConfigure cfg) es = some s) : TxWin s.retrans ∧ Accounts s := by
  have room : ∀ s e, NoDrift s e → TxWin s.retrans → Exact (fun _ => 0) s → Exact (hits e) s := by
    intro s e hc win hp
    have at_held : ∀ sn, (s.retrans.pdu_retrans_buffer sn).held → NoDriftAt s e sn :=
      fun sn held => hc sn (win.mem_flight (win.inFlight_of_held held)) (win.held_iff.1 held)
    exact ⟨hp.queue, hp.retrans, hp.low, fun sn held => (at_held sn held).1,
      fun sn held => (at_held sn held).2⟩
  have accept : ∀ s req, NoDrift s (.dataReq req) → TxWin s.retrans → Exact (fun _ => 0) s →
      Exact (fun _ => 0) { s with sdus := rlcAmDataReq s.sdus req } := by
    intro s req _ _ hp
    refine ⟨hp.queue.dataReq req, hp.retrans, hp.low, hp.high, ?_⟩
    intro sn _ hit
    cases hit
  obtain ⟨win, hexact⟩ :=
    exact_law.run (txWin_configure cfg) (exact_configure cfg) room accept meets h
  exact ⟨win, hexact.accounts win⟩

/-- Data requests, segmentation, retransmission, ACK, NACK and the discard at the threshold
keep all five counters exact, as long as no call makes them drift. -/
theorem the_counters_are_exact_without_drift {cfg : Config} {es : List Event} {s : Entity}
    (meets : Meets step NoDrift (rlcAmConfigure cfg) es)
    (h : run step (rlcAmConfigure cfg) es = some s) : Accounts s := (exact_of_run meets h).2

/-- Three bytes in one PDU, NACKed, sent again, NACKed at the threshold and acknowledged. -/
def discardedRun : List Event := [.dataReq threeBytes, .macStatusIndication ⟨1, 0⟩ 7,
    .macDataRequest ⟨1, 0⟩ (fun _ => 0), .macDataIndication ⟨2, 0⟩ (statusTb 1 [wholeNack 0]),
    .macStatusIndication ⟨3, 0⟩ 7, .macDataRequest ⟨3, 0⟩ (fun _ => 0),
    .macDataIndication ⟨4, 0⟩ (statusTb 1 [wholeNack 0]),
    .macDataIndication ⟨5, 0⟩ (statusTb 1 [])]

theorem the_counters_are_exact_after_a_discard :
    Meets step NoDrift (rlcAmConfigure ⟨2, 4, 100, 20, 20, 20⟩) discardedRun ∧
      ∃ s, run step (rlcAmConfigure ⟨2, 4, 100, 20, 20, 20⟩) discardedRun = some s ∧
      Accounts s := by
  have meets : Meets step NoDrift (rlcAmConfigure ⟨2, 4, 100, 20, 20, 20⟩) discardedRun := by
    decide +kernel
  have alive : (run step (rlcAmConfigure ⟨2, 4, 100, 20, 20, 20⟩) discardedRun).any (fun _ =>
      decide True) := by
    decide +kernel
  obtain ⟨s, hs, -⟩ := run_decided alive
  exact ⟨meets, s, hs, the_counters_are_exact_without_drift meets hs⟩

/-- Five of ten bytes are sent in a PDU that is NACKed twice with a threshold of 1. -/
def halfSentRun : List Event := [.dataReq tenBytes, .macStatusIndication ⟨1, 0⟩ 7,
    .macDataRequest ⟨1, 0⟩ (fun _ => 0), .macDataIndication ⟨2, 0⟩ (statusTb 1 [wholeNack 0]),
    .macDataIndication ⟨3, 0⟩ (statusTb 1 [wholeNack 0])]

/-- The discard of an SDU that is only partly sent leaves its other bytes in
`sdu_buffer_occupancy`, although no slot has data any more. -/
theorem a_half_sent_sdu_stays_in_the_occupancy :
    ∃ s, run step (rlcAmConfigure ⟨1, 4, 100, 20, 20, 20⟩) halfSentRun = some s ∧
      s.sdus.sdu_buffer_occupancy = 5 ∧
      (∀ i ∈ range 128, (s.sdus.input_sdus i).mem_block.isSome = false) ∧ ¬ Accounts s := by
  obtain ⟨s, hs, five, empty⟩ : ∃ s, run step (rlcAmConfigure ⟨1, 4, 100, 20, 20, 20⟩) halfSentRun =
      some s ∧
      s.sdus.sdu_buffer_occupancy = 5 ∧ ∀ i ∈ range 128, (s.sdus.input_sdus i).mem_block.isSome =
        false := run_decided
      (by decide +kernel)
  refine ⟨s, hs, five, empty, ?_⟩
  intro accounts
  have nothing : ∑ i ∈ range 128 with (s.sdus.input_sdus i).mem_block.isSome,
      ((s.sdus.input_sdus i).sdu_remaining_size : Int) = 0 := by
    rw [filter_false_of_mem, sum_empty]
    intro i hi
    rw [empty i hi]
    exact Bool.false_ne_true
  rw [accounts.sdu_buffer_occupancy, nothing] at five
  cases five

end MacRlcSplit.Am
