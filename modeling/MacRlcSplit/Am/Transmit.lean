-- What the calls can do to the transmitter. Polling, copies, holes and
-- segments leave alone everything the laws speak of; what is left is one
-- case for each thing that `rlc_am_get_pdus` does, and the rule for the
-- loop over a STATUS report.
import MacRlcSplit.Am.System

namespace MacRlcSplit.Am

open Function Option

/-! ## Quiet changes -/

def TxPdu.held (p : TxPdu) : Bool := p.mem_block.isSome

/-- Two entries that differ at most in their bytes, their holes and `retransmit`. -/
structure TxPdu.Alike (p p' : TxPdu) : Prop where
  held : p'.held = p.held
  sdus_index : p'.sdus_index = p.sdus_index
  size : p'.header_and_payload_size = p.header_and_payload_size
  retx_count : p'.retx_count = p.retx_count
  ack : p'.ack = p.ack

theorem TxPdu.Alike.refl (p : TxPdu) : p.Alike p := ⟨rfl, rfl, rfl, rfl, rfl⟩

variable {p p' : TxPdu} {r : Retrans} {sn k rem li unused num_li : Nat} {s s' : Entity} {a b : Int}
  {ctxt : Ctxt} {junk : Mem} {q : Sdus} {l : List Nat} {plan : Plan} {pdus : List (List Byte)}

theorem TxPdu.Alike.trans {q r : TxPdu} (h : p.Alike q) (h' : q.Alike r) : p.Alike r :=
  ⟨h'.held.trans h.held, h'.sdus_index.trans h.sdus_index, h'.size.trans h.size,
    h'.retx_count.trans h.retx_count, h'.ack.trans h.ack⟩

/-- Two retransmission buffers with the same counters and alike entries. -/
structure Retrans.Touch (r r' : Retrans) : Prop where
  entry : ∀ sn, (r.pdu_retrans_buffer sn).Alike (r'.pdu_retrans_buffer sn)
  num_pdus : r'.retrans_num_pdus = r.retrans_num_pdus
  num_bytes : r'.retrans_num_bytes = r.retrans_num_bytes
  to_retransmit : r'.retrans_num_bytes_to_retransmit = r.retrans_num_bytes_to_retransmit
  vt_a : r'.vt_a = r.vt_a
  vt_ms : r'.vt_ms = r.vt_ms
  vt_s : r'.vt_s = r.vt_s
  sent : r'.sent = r.sent
  number : r'.number = r.number

theorem Retrans.Touch.refl (r : Retrans) : r.Touch r :=
  ⟨fun _ => .refl _, rfl, rfl, rfl, rfl, rfl, rfl, rfl, rfl⟩

theorem Retrans.Touch.trans {s t : Retrans} (h : r.Touch s) (h' : s.Touch t) : r.Touch t where
  entry sn := (h.entry sn).trans (h'.entry sn)
  num_pdus := h'.num_pdus.trans h.num_pdus
  num_bytes := h'.num_bytes.trans h.num_bytes
  to_retransmit := h'.to_retransmit.trans h.to_retransmit
  vt_a := h'.vt_a.trans h.vt_a
  vt_ms := h'.vt_ms.trans h.vt_ms
  vt_s := h'.vt_s.trans h.vt_s
  sent := h'.sent.trans h.sent
  number := h'.number.trans h.number

theorem alike_update {t : Nat → TxPdu} (h : (t sn).Alike p)
    (sn' : Nat) : (t sn').Alike (update t sn p sn') := by
  by_cases heq : sn' = sn
  · subst heq
    rw [update_self]
    exact h
  · rw [update_of_ne heq]
    exact .refl _

theorem touch_set (h : (r.pdu_retrans_buffer sn).Alike p) : r.Touch (r.set sn p) :=
  ⟨alike_update h, rfl, rfl, rfl, rfl, rfl, rfl, rfl, rfl⟩

/-- A change of the entity that no law speaks of. -/
structure Quiet (s s' : Entity) : Prop where
  cfg : s'.cfg = s.cfg
  rx : s'.rx = s.rx
  sdus : s'.sdus = s.sdus
  poll : s.poll.poll_sn < 1024 → s'.poll.poll_sn < 1024
  retrans : s.retrans.Touch s'.retrans

theorem Quiet.refl (s : Entity) : Quiet s s := ⟨rfl, rfl, rfl, id, .refl _⟩

theorem Quiet.trans {t u : Entity} (h : Quiet s t) (h' : Quiet t u) : Quiet s u :=
  ⟨h'.cfg.trans h.cfg, h'.rx.trans h.rx, h'.sdus.trans h.sdus, h'.poll ∘ h.poll,
    h.retrans.trans h'.retrans⟩

/-! ## Polling and copies -/

theorem pduPolling_quiet (s : Entity) (ctxt : Ctxt) (pdu : Mem)
    (n : Nat) : Quiet s (pduPolling s ctxt pdu n).1 := by
  unfold pduPolling
  dsimp only
  split
  · exact ⟨rfl, rfl, rfl, fun _ => Nat.mod_lt _ (by decide), .refl _⟩
  · exact ⟨rfl, rfl, rfl, id, .refl _⟩

theorem retransmitGetCopy_quiet (s : Entity) (ctxt : Ctxt)
    (sn : Nat) : Quiet s (retransmitGetCopy s ctxt sn).1 := by
  unfold retransmitGetCopy
  dsimp only
  split
  · exact .refl s
  · refine Quiet.trans ?_ (pduPolling_quiet _ _ _ _)
    exact ⟨rfl, rfl, rfl, id, touch_set ⟨rfl, rfl, rfl, rfl, rfl⟩⟩

theorem forcePoll_quiet (s : Entity) (ctxt : Ctxt) (pdu : Mem)
    (n : Nat) : Quiet s (forcePoll s ctxt pdu n).1 := by
  have h := pduPolling_quiet s ctxt pdu n
  exact ⟨h.cfg, h.rx, h.sdus, h.poll, h.retrans⟩

theorem stopPoll_quiet (s : Entity) (sn : Nat) : Quiet s (stopPoll s sn) := by
  unfold stopPoll
  split
  · exact ⟨rfl, rfl, rfl, id, .refl _⟩
  · exact .refl s

/-! ## Holes and segments -/

theorem addHole_alike (h : rlcAmAddHole p a b = some p') : p.Alike p' := by
  unfold rlcAmAddHole at h
  split at h
  · cases h
  split at h
  · split at h <;> cases h
    exact ⟨rfl, rfl, rfl, rfl, rfl⟩
  dsimp only at h
  split at h
  · split at h <;> cases h
    exact ⟨rfl, rfl, rfl, rfl, rfl⟩
  · obtain ⟨holes, -, h⟩ := bind_eq_some_iff.1 h
    obtain ⟨-, h⟩ := ite_none_right_eq_some.1 h
    cases h
    exact ⟨rfl, rfl, rfl, rfl, rfl⟩

theorem withHoles_alike (p : TxPdu) (holes : List (Int × Int)) : p.Alike (p.withHoles holes) := by
  unfold TxPdu.withHoles
  split <;> exact ⟨rfl, rfl, rfl, rfl, rfl⟩

theorem removeHole_alike (h : rlcAmRemoveHole p a b = some p') : p.Alike p' := by
  unfold rlcAmRemoveHole at h
  split at h
  · cases h
  split at h
  · split at h
    · cases h
    obtain ⟨-, h⟩ := ite_none_right_eq_some.1 h
    cases h
    split <;> exact ⟨rfl, rfl, rfl, rfl, rfl⟩
  · obtain ⟨⟨holes, returned⟩, -, h⟩ := bind_eq_some_iff.1 h
    obtain ⟨-, h⟩ := ite_none_right_eq_some.1 h
    cases h
    exact withHoles_alike p holes

theorem retransmitGetSubsegment_quiet {size : Nat} {m : Mem}
    (h : retransmitGetSubsegment s ctxt sn junk = some (s', m, size)) : Quiet s s' := by
  obtain ⟨orig, -, h⟩ := bind_eq_some_iff.1 h
  obtain ⟨info, -, h⟩ := bind_eq_some_iff.1 h
  obtain ⟨c, -, h⟩ := bind_eq_some_iff.1 h
  split at h
  · cases h
  obtain ⟨p', hp', h⟩ := map_eq_some_iff.1 h
  cases h
  refine Quiet.trans ?_ (pduPolling_quiet _ _ _ _)
  refine ⟨rfl, rfl, rfl, id, touch_set ?_⟩
  -- the entry changes in `nack_so_stop`, `retransmit` and its holes
  refine TxPdu.Alike.trans ?_ (removeHole_alike hp')
  split <;> split <;> exact ⟨rfl, rfl, rfl, rfl, rfl⟩

/-! ## NACK and ACK of one PDU -/

/-- The buffer after a NACK of a PDU that is held, but for its holes and flags. -/
def Retrans.nacked (r : Retrans) (sn : Nat) : Retrans :=
  let p := r.pdu_retrans_buffer sn
  { r.set sn { p with retx_count := nackCount p.retx_count } with
    retrans_num_bytes_to_retransmit := r.retrans_num_bytes_to_retransmit +
      if p.retx_count = -1 then (p.header_and_payload_size : Int) else 0 }

def Entity.nacked (s : Entity) (sn : Nat) : Entity :=
  let p := s.retrans.pdu_retrans_buffer sn
  { s with
    retrans := s.retrans.nacked sn
    sdus := if nackCount p.retx_count ≥ s.cfg.max_retx_threshold then
        p.sdus_index.foldl discardSdu s.sdus
      else s.sdus }

def Entity.acked (s : Entity) (sn : Nat) : Entity :=
  { s with
    sdus := (s.retrans.pdu_retrans_buffer sn).sdus_index.foldl ackSdu
      { s.sdus with log := .acked (s.retrans.number sn) :: s.sdus.log }
    retrans := ackEntry s.retrans sn }

theorem nackEntry_touch {r' : Retrans} (h : nackEntry r ctxt sn a b = some r') :
    (r.nacked sn).Touch r' := by
  obtain ⟨p', hp', h⟩ := map_eq_some_iff.1 h
  cases h
  have alike : (r.pdu_retrans_buffer sn).Alike p' := by
    refine TxPdu.Alike.trans ?_ (addHole_alike hp')
    split <;> exact ⟨rfl, rfl, rfl, rfl, rfl⟩
  refine ⟨?_, rfl, rfl, ?_, rfl, rfl, rfl, rfl, rfl⟩
  · intro sn'
    unfold Retrans.nacked Retrans.set
    by_cases heq : sn' = sn
    · subst heq
      simp only [update_self]
      refine ⟨alike.held, alike.sdus_index, alike.size, ?_, alike.ack⟩
      rw [alike.retx_count]
    · simp only [update_of_ne heq]
      exact .refl _
  · unfold Retrans.nacked
    rw [alike.retx_count, alike.size]

theorem nackPdu_cases (h : rlcAmNackPdu s ctxt sn a b = some s') :
    ((s.retrans.pdu_retrans_buffer sn).held = false ∧ s' = s) ∨
      ((s.retrans.pdu_retrans_buffer sn).held ∧ Quiet (s.nacked sn) s') := by
  unfold rlcAmNackPdu at h
  dsimp only at h
  split at h
  · next hnone =>
    left
    cases h
    exact ⟨by simpa [TxPdu.held] using hnone, rfl⟩
  · next hsome =>
    right
    obtain ⟨r', hr', h⟩ := map_eq_some_iff.1 h
    cases h
    refine ⟨?_, rfl, rfl, rfl, id, nackEntry_touch hr'⟩
    rw [TxPdu.held, isSome_iff_ne_none]
    simpa using hsome

theorem passFirstRetrans_touch (r : Retrans) (sn : Nat) : r.Touch (r.passFirstRetrans sn) := by
  unfold Retrans.passFirstRetrans
  split
  · exact ⟨fun _ => .refl _, rfl, rfl, rfl, rfl, rfl, rfl, rfl, rfl⟩
  · exact .refl r

theorem ackPdu_of_held (held : (s.retrans.pdu_retrans_buffer sn).held)
    (ack : (s.retrans.pdu_retrans_buffer sn).ack = false) :
    Quiet
      { s.acked sn with
        retrans := if sn = s.retrans.vt_a then (ackEntry s.retrans sn).slide
          else ackEntry s.retrans sn }
      (rlcAmAckPdu s sn) := by
  have cond : (!(s.retrans.pdu_retrans_buffer sn).ack &&
      (s.retrans.pdu_retrans_buffer sn).mem_block.isSome) := by
    simpa [TxPdu.held, ack] using held
  unfold rlcAmAckPdu
  simp only [cond, if_true]
  exact ⟨rfl, rfl, rfl, id, passFirstRetrans_touch _ _⟩

theorem ackPdu_of_not_held (held : (s.retrans.pdu_retrans_buffer sn).held = false)
    (ack : (s.retrans.pdu_retrans_buffer sn).ack → sn ≠ s.retrans.vt_a) :
    Quiet s (rlcAmAckPdu s sn) := by
  unfold rlcAmAckPdu
  have hnone : (s.retrans.pdu_retrans_buffer sn).mem_block = none := by
    simpa [TxPdu.held] using held
  rw [if_neg (by simp [hnone])]
  dsimp only
  rw [if_neg (fun hvt => ack hvt.1 hvt.2)]
  refine ⟨rfl, rfl, rfl, id, touch_set ⟨?_, rfl, rfl, rfl, rfl⟩⟩
  rw [held]
  rfl

/-! ## The two loops of `rlc_am_segment_10` -/

theorem planPdu_rule {P : Sdus → List Nat → Prop}
    (listed : ∀ q l i, (q.input_sdus i).mem_block.isSome →
      (q.input_sdus i).nb_pdus + 1 < 32 → P q l → P (q.listed i) (l ++ [i])) {i : Nat} (h : P q l)
    (hplan : planPdu k q i rem li unused num_li l = some plan) : P plan.sdus plan.sdus_index := by
  fun_induction planPdu k q i rem li unused num_li l
  case case1 =>
    cases hplan
    exact h
  case case2 => cases hplan
  case case6 ih => exact ih (listed _ _ _ (isSome_of_eq_some ‹_›) (by omega) h) hplan
  all_goals
    cases hplan
    exact listed _ _ _ (isSome_of_eq_some ‹_›) (by omega) h

/-- One turn of the test loop at a slot with data: the slot is listed, and the loop goes on if
the PDU has room for more. -/
theorem planPdu_turn {i : Nat} {sdu : List Byte} (hsdu : (q.input_sdus i).mem_block = some sdu)
    (planned : planPdu k q i rem li unused num_li l = some plan) :
    i ∈ plan.sdus_index ∧ ∀ k', k = k' + 1 → (q.input_sdus i).sdu_remaining_size + li < rem →
        planPdu k' (q.listed i) ((i + 1) % 128) (rem - ((q.input_sdus i).sdu_remaining_size + li))
          (3 - li) li (num_li + 1) (l ++ [i]) = some plan := by
  have last : i ∈ l ++ [i] := List.mem_append_right l (List.mem_singleton.2 rfl)
  have stays : ∀ {k q j rem li unused num_li}, planPdu k q j rem li unused num_li (l ++ [i]) =
      some plan → i ∈ plan.sdus_index :=
    planPdu_rule (P := fun _ l => i ∈ l) (fun _ _ _ _ _ hi => List.mem_append_left _ hi) last
  unfold planPdu at planned
  rw [hsdu] at planned
  dsimp only at planned
  split at planned
  · cases planned
  split at planned
  · cases planned
    exact ⟨last, fun k' _ hlt => by omega⟩
  split at planned
  · cases planned
    exact ⟨last, fun k' _ hlt => by omega⟩
  split at planned
  · cases k with
    | zero =>
      cases planned
      exact ⟨last, fun k' hk _ => by omega⟩
    | succ k =>
      refine ⟨stays planned, fun k' hk _ => ?_⟩
      cases hk
      exact planned
  · cases planned
    exact ⟨last, fun k' _ hlt => by omega⟩

/-- A queue that is `q`, but for slots that have been emptied. -/
def Sdus.Behind (q' q : Sdus) : Prop := ∀ i, (q'.input_sdus i).mem_block = none ∨
    ((q.input_sdus i).mem_block = (q'.input_sdus i).mem_block ∧
      (q.input_sdus i).sdu_remaining_size = (q'.input_sdus i).sdu_remaining_size)

theorem behind_finish {q' : Sdus} (h : q'.Behind q)
    (pdu i : Nat) : (q'.finish pdu).Behind (q.listed i) := by
  intro j
  have listed : ((q.listed i).input_sdus j).mem_block = (q.input_sdus j).mem_block ∧
      ((q.listed i).input_sdus j).sdu_remaining_size = (q.input_sdus j).sdu_remaining_size := by
    unfold Sdus.listed Sdus.set
    dsimp only
    rw [update_apply]
    split
    · next heq => rw [heq]; exact ⟨rfl, rfl⟩
    · exact ⟨rfl, rfl⟩
  rw [listed.1, listed.2]
  unfold Sdus.finish freeInSduData
  dsimp only
  split
  · dsimp only [Sdus.set]
    rw [update_apply]
    split
    · exact .inl rfl
    · exact h j
  · exact h j

/-- The fill loop cuts or finishes the current SDU, again and again, and comes only to SDUs
that the test loop has listed: both loops take the same turns. -/
theorem fillPdu_rule {P : Sdus → Prop} {pdu : Nat}
    (cut : ∀ q n, (q.input_sdus q.current_sdu_index).mem_block.isSome →
      q.current_sdu_index ∈ plan.sdus_index →
      n < (q.input_sdus q.current_sdu_index).sdu_remaining_size → P q → P (q.cut pdu n))
    (finish : ∀ q, (q.input_sdus q.current_sdu_index).mem_block.isSome →
      q.current_sdu_index ∈ plan.sdus_index → P q → P (q.finish pdu)) {test_num_li : Nat} {f : Fill}
    (planned : planPdu k q f.sdus.current_sdu_index rem li unused num_li l = some plan)
    (le : f.pdu_remaining_size ≤ rem) (behind : f.sdus.Behind q) (h : P f.sdus) :
    P (fillPdu k pdu test_num_li li f).sdus := by
  have turn : ∀ {q' q : Sdus} {k rem li unused num_li : Nat} {l : List Nat} {sdu : List Byte},
      (q'.input_sdus q'.current_sdu_index).mem_block = some sdu →
      planPdu k q q'.current_sdu_index rem li unused num_li l = some plan → q'.Behind q →
      q'.current_sdu_index ∈ plan.sdus_index ∧
      ∀ k', k = k' + 1 → (q'.input_sdus q'.current_sdu_index).sdu_remaining_size + li < rem →
        planPdu k' (q.listed q'.current_sdu_index) ((q'.current_sdu_index + 1) % 128)
          (rem - ((q'.input_sdus q'.current_sdu_index).sdu_remaining_size + li)) (3 - li) li
          (num_li + 1) (l ++ [q'.current_sdu_index]) = some plan := by
    intro q' q k rem li unused num_li l sdu hsdu planned behind
    obtain ⟨hmem, hrem⟩ := (behind q'.current_sdu_index).resolve_left (by simp [hsdu])
    rw [← hrem]
    exact planPdu_turn (hmem.trans hsdu) planned
  fun_induction fillPdu k pdu test_num_li li f generalizing q rem unused num_li l
  case case1 => exact h
  case case2 hlt =>
    exact cut _ _ (isSome_of_eq_some ‹_›) (turn ‹_› planned behind).1 hlt h
  case case5 hlt k ih =>
    obtain ⟨listed, goes_on⟩ := turn ‹_› planned behind
    exact ih (goes_on k rfl (Nat.lt_of_lt_of_le hlt le)) (Nat.sub_le_sub_right le _)
      (behind_finish behind _ _) (finish _ (isSome_of_eq_some ‹_›) listed h)
  all_goals
    exact finish _ (isSome_of_eq_some ‹_›) (turn ‹_› planned behind).1 h

/-! ## What one grant does -/

def Retrans.resent (r : Retrans) (sn : Nat) : Retrans :=
  let p := r.pdu_retrans_buffer sn
  r.set sn { p with retx_count := int8 (p.retx_count + 1) }

def Entity.cutPdu (s : Entity) (junk : Mem) (plan : Plan) : Entity :=
  { s with
    sdus := (fillPlan s junk plan).sdus
    retrans := s.retrans.store (pduOfFill s plan (fillPlan s junk plan)) }

theorem cutPdu_rule {P : Sdus → Prop}
    (planned : planPdu 31 s.sdus s.sdus.current_sdu_index (dataPduSize s - 2) 2 0 0 [] = some plan)
    (cut : ∀ q n, (q.input_sdus q.current_sdu_index).mem_block.isSome →
      q.current_sdu_index ∈ plan.sdus_index →
      n < (q.input_sdus q.current_sdu_index).sdu_remaining_size → P q →
      P (q.cut s.retrans.sent n))
    (finish : ∀ q, (q.input_sdus q.current_sdu_index).mem_block.isSome →
      q.current_sdu_index ∈ plan.sdus_index → P q → P (q.finish s.retrans.sent)) (h : P plan.sdus) :
    P (s.cutPdu junk plan).sdus := by
  obtain ⟨current, behind⟩ : plan.sdus.current_sdu_index = s.sdus.current_sdu_index ∧
      plan.sdus.Behind s.sdus := by
    refine planPdu_rule (P := fun q _ => q.current_sdu_index = s.sdus.current_sdu_index ∧
      q.Behind s.sdus) ?_ ⟨rfl, fun _ => .inr ⟨rfl, rfl⟩⟩ planned
    rintro q l i - - ⟨current, behind⟩
    refine ⟨current, ?_⟩
    intro j
    unfold Sdus.listed Sdus.set
    dsimp only
    rw [update_apply]
    split
    · next heq => exact heq ▸ behind j
    · exact behind j
  rw [← current] at planned
  exact fillPdu_rule cut finish planned (Nat.sub_le _ _) behind h

theorem touch_resent {r' : Retrans} (h : r.Touch r')
    (sn : Nat) : (r.resent sn).Touch (r'.resent sn) := by
  refine ⟨?_, h.num_pdus, h.num_bytes, h.to_retransmit, h.vt_a, h.vt_ms, h.vt_s, h.sent, h.number⟩
  intro sn'
  unfold Retrans.resent Retrans.set
  have alike := h.entry sn
  by_cases heq : sn' = sn
  · subst heq
    simp only [update_self]
    refine ⟨alike.held, alike.sdus_index, alike.size, ?_, alike.ack⟩
    rw [alike.retx_count]
  · simp only [update_of_ne heq]
    exact h.entry sn'

theorem touch_store (h : p.Alike p') : (r.store p).Touch (r.store p') := by
  refine ⟨?_, rfl, ?_, rfl, rfl, rfl, rfl, rfl, rfl⟩
  · intro sn
    unfold Retrans.store Retrans.set
    by_cases heq : sn = r.vt_s
    · subst heq
      simp only [update_self]
      exact h
    · simp only [update_of_ne heq]
      exact .refl _
  · unfold Retrans.store
    rw [h.size]

theorem sendPdu_quiet (s : Entity) (ctxt : Ctxt) (sdus : Sdus) {pdu : Mem}
    (hp : p.mem_block = some pdu) :
    Quiet { s with sdus := sdus, retrans := s.retrans.store p } (sendPdu s ctxt sdus p pdu).1 := by
  refine Quiet.trans ?_ (retransmitGetCopy_quiet _ _ _)
  have polled := pduPolling_quiet
    { s with sdus := sdus, retrans := { s.retrans with vt_s := (s.retrans.vt_s + 1) % 1024 } }
    ctxt pdu p.payload_size
  refine ⟨polled.cfg, polled.rx, polled.sdus, polled.poll, touch_store ⟨?_, rfl, rfl, rfl, rfl⟩⟩
  simp [TxPdu.held, hp]

theorem sendPdu_ne_nil (s : Entity) (ctxt : Ctxt) (sdus : Sdus) (p : TxPdu) (pdu : Mem) :
    (sendPdu s ctxt sdus p pdu).2 ≠ [] := by
  simp [sendPdu, retransmitGetCopy, Retrans.store, Retrans.set]

theorem segment10_cases (h : rlcAmSegment10 s ctxt junk = some (s', pdus)) : (s' = s ∧ pdus = []) ∨
      (pdus ≠ [] ∧ (s.sdus.input_sdus s.sdus.current_sdu_index).mem_block.isSome ∧
        ∃ plan, planPdu 31 s.sdus s.sdus.current_sdu_index (dataPduSize s - 2) 2 0 0 [] =
          some plan ∧ Quiet (s.cutPdu junk plan) s') := by
  unfold rlcAmSegment10 at h
  split at h
  · cases h
    exact .inl ⟨rfl, rfl⟩
  next hcond =>
  right
  obtain ⟨plan, hplan, h⟩ := bind_eq_some_iff.1 h
  dsimp only at h
  split at h
  · cases h
  have hsend : s' = (sendPdu s ctxt (fillPlan s junk plan).sdus
      (pduOfFill s plan (fillPlan s junk plan)) _).1 ∧ pdus = _ := Prod.ext_iff.1
    (some.inj h).symm
  refine ⟨?_, ?_, plan, hplan, ?_⟩
  · rw [hsend.2]
    exact sendPdu_ne_nil _ _ _ _ _
  · rw [isSome_iff_ne_none]
    intro hnone
    exact hcond (.inr (.inr (by rw [hnone]; rfl)))
  · rw [hsend.1]
    exact sendPdu_quiet _ _ _ rfl

theorem retransmitAnyPdu_cases (h : retransmitAnyPdu s ctxt junk = some (s', pdus)) :
    Quiet s s' ∨ ∃ sn, (s.retrans.pdu_retrans_buffer sn).held ∧ Quiet (s.nacked sn) s' := by
  have nacked : ∀ sn s₁, rlcAmNackPdu s ctxt sn 0 0x7FFF = some s₁ → Quiet s₁ s' →
      Quiet s s' ∨ ∃ sn, (s.retrans.pdu_retrans_buffer sn).held ∧ Quiet (s.nacked sn) s' := by
    intro sn s₁ hnack hquiet
    rcases nackPdu_cases hnack with ⟨-, rfl⟩ | ⟨held, hq⟩
    · exact .inl hquiet
    · exact .inr ⟨sn, held, hq.trans hquiet⟩
  unfold retransmitAnyPdu at h
  dsimp only at h
  split at h
  · cases h
    exact .inl (.refl s)
  · next sn _ =>
    obtain ⟨s₁, hnack, h⟩ := bind_eq_some_iff.1 h
    obtain ⟨pdu, -, h⟩ := map_eq_some_iff.1 h
    cases h
    exact nacked sn s₁ hnack ((retransmitGetCopy_quiet _ _ _).trans (forcePoll_quiet _ _ _ _))
  · next sn _ =>
    split at h
    · obtain ⟨s₁, hnack, h⟩ := bind_eq_some_iff.1 h
      obtain ⟨⟨s₂, m, size⟩, hsub, h⟩ := map_eq_some_iff.1 h
      cases h
      exact nacked sn s₁ hnack ((retransmitGetSubsegment_quiet hsub).trans
        (forcePoll_quiet _ _ _ _))
    · cases h
      exact .inl (.refl s)

/-- What a grant can do to the transmitter, but for quiet changes. -/
inductive Granted (s : Entity) (junk : Mem) : Entity → Prop where
  | idle : Granted s junk s
  | status (requested : Bool) (t : Timer) : Granted s junk
      { s with rx := { s.rx with status_requested := requested, t_status_prohibit := t } }
  | resent (sn : Nat) (again : (s.retrans.pdu_retrans_buffer sn).retx_count ≥ 0) :
    Granted s junk { s with retrans := s.retrans.resent sn }
  | cut (plan : Plan) (open_ : s.retrans.vt_s ≠ s.retrans.vt_ms)
    (current : (s.sdus.input_sdus s.sdus.current_sdu_index).mem_block.isSome = true)
    (planned : planPdu 31 s.sdus s.sdus.current_sdu_index (dataPduSize s - 2) 2 0 0 [] =
      some plan) : Granted s junk (s.cutPdu junk plan)
  | nacked (sn : Nat) (held : (s.retrans.pdu_retrans_buffer sn).held = true) :
    Granted s junk (s.nacked sn)

theorem resendPdu_granted (h : resendPdu s ctxt junk = some (some (s', pdus))) :
    ∃ t, Granted s junk t ∧ Quiet t s' := by
  unfold resendPdu at h
  split at h
  · cases h
  next sn _ =>
  dsimp only at h
  split at h
  · cases h
  split at h
  · next hcopy =>
    cases h
    refine ⟨_, .resent sn hcopy.2.1, ?_⟩
    have copied := retransmitGetCopy_quiet s ctxt sn
    exact ⟨copied.cfg, copied.rx, copied.sdus, copied.poll, touch_resent copied.retrans sn⟩
  split at h
  · obtain ⟨⟨s₁, m, size⟩, hsub, h⟩ := map_eq_some_iff.1 h
    cases h
    have cut := retransmitGetSubsegment_quiet hsub
    refine ⟨s, .idle, cut.trans ⟨rfl, rfl, rfl, id, ?_⟩⟩
    exact ⟨fun _ => .refl _, rfl, rfl, rfl, rfl, rfl, rfl, rfl, rfl⟩
  · cases h

theorem newPdu_granted (h : newPdu s ctxt junk = some (s', pdus)) :
    ∃ t, Granted s junk t ∧ Quiet t s' := by
  -- what is left to do when no new PDU was cut
  have any : ∀ pdus', (if pdus' = [] ∧ s.poll.t_poll_retransmit.timed_out ∧
        s.nb_bytes_requested_by_mac > 2 then retransmitAnyPdu s ctxt junk
      else some (s, pdus')) = some (s', pdus) → ∃ t, Granted s junk t ∧ Quiet t s' := by
    intro pdus' h
    split at h
    · rcases retransmitAnyPdu_cases h with quiet | ⟨sn, held, quiet⟩
      · exact ⟨s, .idle, quiet⟩
      · exact ⟨_, .nacked sn held, quiet⟩
    · cases h
      exact ⟨s, .idle, .refl s⟩
  obtain ⟨⟨s₁, pdus₁⟩, hseg, h⟩ := bind_eq_some_iff.1 h
  dsimp only at h
  split at hseg
  · next hopen =>
    rcases segment10_cases hseg with ⟨rfl, rfl⟩ | ⟨hne, current, plan, planned, quiet⟩
    · exact any [] h
    · rw [if_neg (fun hnil => hne hnil.1)] at h
      cases h
      exact ⟨_, .cut plan hopen.2 current planned, quiet⟩
  · cases hseg
    exact any [] h

theorem sendStatusPdu_eq {pdu : List Byte} (h : rlcAmSendStatusPdu s = some (s', pdu)) :
    ∃ n, s' = { s with nb_bytes_requested_by_mac := n } := by
  obtain ⟨⟨rep, ack_sn⟩, -, h⟩ := bind_eq_some_iff.1 h
  obtain ⟨-, h⟩ := ite_none_right_eq_some.1 h
  cases h
  exact ⟨_, rfl⟩

theorem getPdus_granted (h : rlcAmGetPdus s ctxt junk = some (s', pdus)) :
    ∃ t, Granted s junk t ∧ Quiet t s' := by
  unfold rlcAmGetPdus at h
  split at h
  · obtain ⟨⟨s₁, pdu⟩, hstatus, h⟩ := map_eq_some_iff.1 h
    obtain ⟨n, rfl⟩ := sendStatusPdu_eq hstatus
    cases h
    exact ⟨_, .status _ _, rfl, rfl, rfl, id, .refl _⟩
  · obtain ⟨again, hagain, h⟩ := bind_eq_some_iff.1 h
    rcases again with - | ⟨s₁, pdus₁⟩
    · exact newPdu_granted h
    · cases h
      exact resendPdu_granted hagain

end MacRlcSplit.Am
