-- The windows of an entity over whole runs: all state variables are SNs,
-- both windows are 512 wide, and their variables stay in order, as long as
-- every data PDU finds its place in the receive list.
import MacRlcSplit.Am.RxWindow
import MacRlcSplit.Am.TxWindow

namespace MacRlcSplit.Am

open Lib Option

/-- The state variables of both windows. `off 1024 a x` is the place of `x` in a window that
starts at `a`. -/
structure Windows (s : Entity) : Prop where
  vt_a : s.retrans.vt_a < 1024
  vt_s : s.retrans.vt_s < 1024
  vt_ms : s.retrans.vt_ms < 1024
  poll_sn : s.poll.poll_sn < 1024
  vr_r : s.rx.vr_r < 1024
  vr_mr : s.rx.vr_mr < 1024
  vr_x : s.rx.vr_x < 1024
  vr_ms : s.rx.vr_ms < 1024
  vr_h : s.rx.vr_h < 1024
  tx_size : s.retrans.vt_ms = (s.retrans.vt_a + 512) % 1024
  rx_size : s.rx.vr_mr = (s.rx.vr_r + 512) % 1024
  vt_s_le : off 1024 s.retrans.vt_a s.retrans.vt_s ≤ off 1024 s.retrans.vt_a s.retrans.vt_ms
  vr_ms_le : off 1024 s.rx.vr_r s.rx.vr_ms ≤ off 1024 s.rx.vr_r s.rx.vr_h
  vr_h_le : off 1024 s.rx.vr_r s.rx.vr_h ≤ off 1024 s.rx.vr_r s.rx.vr_mr
  buffered : ∀ c ∈ s.rx.receiver_buffer, c.info.sn < 1024 ∧
    off 1024 s.rx.vr_r c.info.sn < off 1024 s.rx.vr_r s.rx.vr_h

/-- A data PDU that arrives is one that the receive list is ready for. -/
def ReadyFor (s : Entity) : Event → Prop
  | .macDataIndication _ tb => (tb.data 0).toNat / 128 = 1 →
    ∀ x ∈ rlcAmGetDataPduInfos tb.data (tb.size % 2 ^ 16 : Nat), RxReady s.rx x
  | _ => True

instance (s : Entity) (e : Event) : Decidable (ReadyFor s e) := by
  rcases e with ⟨⟩ <;> dsimp only [ReadyFor] <;> infer_instance

/-! ## What the transmitter leaves alone -/

/-- The receiver is as it was, and POLL_SN is still an SN. -/
structure Aside (s s' : Entity) : Prop where
  rx : s'.rx = s.rx
  poll : s.poll.poll_sn < 1024 → s'.poll.poll_sn < 1024

variable {s s' : Entity} {ctxt : Ctxt}

theorem Aside.trans {t u : Entity} (h : Aside s t) (h' : Aside t u) : Aside s u :=
  ⟨h'.rx.trans h.rx, h'.poll ∘ h.poll⟩

theorem Quiet.aside (h : Quiet s s') : Aside s s' := ⟨h.rx, h.poll⟩

theorem ackPdu_aside (s : Entity) (sn : Nat) : Aside s (rlcAmAckPdu s sn) := by
  unfold rlcAmAckPdu
  dsimp only
  split <;> exact ⟨rfl, id⟩

theorem nackPdu_aside {sn : Nat} {x y : Int} (h : rlcAmNackPdu s ctxt sn x y = some s') :
    Aside s s' := by
  rcases nackPdu_cases h with ⟨-, rfl⟩ | ⟨-, quiet⟩
  · exact ⟨rfl, id⟩
  · exact ⟨quiet.rx, quiet.poll⟩

theorem processStatus_aside {ack_sn n sn : Nat} {last : Option Nat} {nacks : List NackSn}
    (h : processStatus ctxt ack_sn n s sn last nacks = some s') : Aside s s' := by
  induction n generalizing s sn last nacks with
  | zero => cases h
  | succ n ih =>
    unfold processStatus at h
    split at h
    · cases h
      exact ⟨rfl, id⟩
    refine (stopPoll_quiet s sn).aside.trans ?_
    cases nacks with
    | nil => exact (ackPdu_aside _ sn).trans (ih h)
    | cons nack rest =>
      dsimp only at h
      split at h
      · exact (ackPdu_aside _ sn).trans (ih h)
      · obtain ⟨s₁, hnack, h⟩ := bind_eq_some_iff.1 h
        exact (nackPdu_aside hnack).trans (ih h)

theorem controlPdu_aside {tb : MacTbInd} {left : Int}
    (h : rlcAmReceiveProcessControlPdu s ctxt tb = some (s', left)) : Aside s s' := by
  unfold rlcAmReceiveProcessControlPdu at h
  dsimp only at h
  split at h
  · cases h
    exact ⟨rfl, id⟩
  split at h
  · cases h
  split at h
  · obtain ⟨s₁, hloop, h⟩ := map_eq_some_iff.1 h
    cases h
    have kept := processStatus_aside hloop
    exact ⟨kept.rx, kept.poll⟩
  · cases h
    exact ⟨rfl, id⟩

/-! ## One call -/

def RxSide (s : Entity) : Prop := RxWin s.rx ∧ s.poll.poll_sn < 1024

/-- A call changes the receiver by its timers, by what a STATUS PDU records, or by a data PDU. -/
theorem step_rx {e : Event} (hs : step s e = some s') :
    (s.poll.poll_sn < 1024 → s'.poll.poll_sn < 1024) ∧
    (s'.rx = s.rx ∨ (∃ ctxt, s'.rx = (checkTimers s ctxt).rx) ∨
      (∃ requested t, s'.rx = { s.rx with status_requested := requested, t_status_prohibit := t }) ∨
      ∃ ctxt tb, e = .macDataIndication ctxt tb ∧ (tb.data 0).toNat / 128 = 1 ∧
        rlcAmReceiveProcessDataPdu s.rx ctxt tb = some s'.rx) := by
  cases e with
  | dataReq req =>
    cases hs
    exact ⟨id, .inl rfl⟩
  | macStatusIndication ctxt tb_size =>
    obtain ⟨⟨s₁, n⟩, hind, rfl⟩ := map_eq_some_iff.1 hs
    rw [macStatusIndication_eq hind]
    refine ⟨?_, .inr (.inl ⟨ctxt, rfl⟩)⟩
    unfold checkTimers rlcAmCheckTimerPollRetransmit
    split
    · dsimp only
      split <;> exact id
    · exact id
  | macDataRequest ctxt junk =>
    obtain ⟨⟨s₁, pdus⟩, hget, rfl⟩ := map_eq_some_iff.1 hs
    obtain ⟨t, granted, quiet⟩ := getPdus_granted hget
    rw [quiet.rx]
    cases granted with
    | idle | resent | cut | nacked => exact ⟨quiet.poll, .inl rfl⟩
    | status requested t => exact ⟨quiet.poll, .inr (.inr (.inl ⟨requested, t, rfl⟩))⟩
  | macDataIndication ctxt tb =>
    unfold step rlcAmReceiveRouting at hs
    dsimp only at hs
    split at hs
    · cases hs
      exact ⟨id, .inl rfl⟩
    split at hs
    · next hdata =>
      obtain ⟨rx, hrx, rfl⟩ := map_eq_some_iff.1 hs
      exact ⟨id, .inr (.inr (.inr ⟨ctxt, tb, rfl, hdata, hrx⟩))⟩
    · obtain ⟨⟨s₁, left⟩, hctl, hs⟩ := bind_eq_some_iff.1 hs
      obtain ⟨-, hs⟩ := ite_none_right_eq_some.1 hs
      cases hs
      have kept := controlPdu_aside hctl
      exact ⟨kept.poll, .inl kept.rx⟩

theorem checkTimers_win (ctxt : Ctxt) (h : RxWin s.rx) : RxWin (checkTimers s ctxt).rx := by
  unfold checkTimers
  split
  · exact checkTimerStatusProhibit_win (checkTimerReordering_win h ctxt) ctxt
  · exact h

theorem step_rxSide {e : Event} (h : RxSide s) (ready : ReadyFor s e)
    (hs : step s e = some s') : RxSide s' := by
  obtain ⟨poll, hrx⟩ := step_rx hs
  refine ⟨?_, poll h.2⟩
  rcases hrx with hrx | ⟨ctxt, hrx⟩ | ⟨requested, t, hrx⟩ | ⟨ctxt, tb, rfl, hdata, hrx⟩
  · exact hrx ▸ h.1
  · exact hrx ▸ checkTimers_win ctxt h.1
  · exact hrx ▸ h.1.of_eq rfl
  · exact processDataPdu_win h.1 (ready hdata) hrx

theorem true_law : Law fun _ _ => True :=
  ⟨fun _ => id, fun _ => id, fun _ _ => id, fun _ _ _ => id, fun _ _ _ _ => id,
    fun _ _ _ _ => id⟩

theorem step_txWin {e : Event} (h : TxWin s.retrans) (hs : step s e = some s') : TxWin s'.retrans :=
  (true_law.step (fun _ _ => trivial) ⟨h, trivial⟩ hs).1

theorem windows_of (tx : TxWin s.retrans) (rx : RxSide s) : Windows s := by
  have vt_ms : off 1024 s.retrans.vt_a s.retrans.vt_ms = 512 := by
    rw [tx.vt_ms]
    exact off_add tx.vt_a (by decide)
  have vr_mr : off 1024 s.rx.vr_r s.rx.vr_mr = 512 := by
    rw [rx.1.vr_mr]
    exact off_add rx.1.vr_r (by decide)
  refine ⟨tx.vt_a, tx.vt_s, ?_, rx.2, rx.1.vr_r, ?_, rx.1.vr_x, rx.1.vr_ms, rx.1.vr_h, tx.vt_ms,
    rx.1.vr_mr, vt_ms ▸ tx.le, rx.1.ms_le, vr_mr ▸ rx.1.h_le, ?_⟩
  · rw [tx.vt_ms]
    exact Nat.mod_lt _ (by decide)
  · rw [rx.1.vr_mr]
    exact Nat.mod_lt _ (by decide)
  · intro c hc
    exact ⟨(rx.1.kept.sn c hc).1, rx.1.below c hc⟩

/-! ## Runs -/

/-- SDU arrivals, grants, data PDUs, STATUS PDUs and timer checks keep both windows, as long as
every data PDU is one that the receive list is ready for. -/
theorem the_windows_stay_in_order {cfg : Config} {es : List Event} {s : Entity}
    (meets : Meets step ReadyFor (rlcAmConfigure cfg) es)
    (h : run step (rlcAmConfigure cfg) es = some s) : Windows s := by
  have keep : ∀ s e t, (TxWin s.retrans ∧ RxSide s) → ReadyFor s e → step s e = some t →
      TxWin t.retrans ∧ RxSide t := by
    rintro s e t ⟨tx, rx⟩ ready hs
    exact ⟨step_txWin tx hs, step_rxSide rx ready hs⟩
  have start : TxWin (rlcAmConfigure cfg).retrans ∧ RxSide (rlcAmConfigure cfg) :=
    ⟨txWin_configure cfg, rxWin_configure cfg, (by decide : 0 < 1024)⟩
  obtain ⟨tx, rx⟩ := run_invariant keep start meets h
  exact windows_of tx rx

/-- A data PDU with an SDU of one byte. -/
def dataTb (sn : Nat) : MacTbInd where
  data := fun
    | 0 => UInt8.ofNat (128 + sn / 256)
    | 1 => UInt8.ofNat sn
    | _ => 7
  size := 3

def dataRun (sns : List Nat) : List Event := sns.map fun sn => .macDataIndication ⟨1, 0⟩ (dataTb sn)

/-- SN 1 and 2 arrive late, after a PDU was sent, acknowledged, and t-Reordering expired. -/
def reorderedRun : List Event := [.dataReq threeBytes, .macStatusIndication ⟨1, 0⟩ 7,
    .macDataRequest ⟨1, 0⟩ (fun _ => 0), .macDataIndication ⟨2, 0⟩ (statusTb 1 [])] ++
  dataRun [0, 3] ++ [.macStatusIndication ⟨9, 0⟩ 7] ++ dataRun [2, 1]

theorem the_windows_after_a_reordering :
    Meets step ReadyFor (rlcAmConfigure ⟨4, 4, 100, 20, 20, 20⟩) reorderedRun ∧
      ∃ s, run step (rlcAmConfigure ⟨4, 4, 100, 20, 20, 20⟩) reorderedRun = some s ∧
        s.retrans.vt_a = 1 ∧ s.rx.vr_r = 4 ∧ Windows s := by
  have meets : Meets step ReadyFor (rlcAmConfigure ⟨4, 4, 100, 20, 20, 20⟩) reorderedRun := by
    decide +kernel
  obtain ⟨s, hs, vt_a, vr_r⟩ : ∃ s, run step (rlcAmConfigure ⟨4, 4, 100, 20, 20, 20⟩) reorderedRun =
      some s ∧ s.retrans.vt_a = 1 ∧ s.rx.vr_r = 4 := run_decided (by decide +kernel)
  exact ⟨meets, s, hs, vt_a, vr_r, the_windows_stay_in_order meets hs⟩

/-- With VR(R) = 514, SN 1 and then SN 0 arrive, and later SN 0 again. -/
def wrappedRun : List Event := dataRun (List.range 514 ++ [1, 0] ++ List.range' 514 510 ++ [0])

/-- SN 0 is added after SN 1 to the list, and stays in it when VR(R) and VR(H) have passed
it. -/
theorem a_passed_sn_stays_in_the_receive_list :
    ∃ s, run step (rlcAmConfigure ⟨4, 4, 100, 20, 20, 20⟩) wrappedRun = some s ∧
      s.rx.vr_r = 2 ∧ s.rx.vr_h = 2 ∧ s.rx.receiver_buffer.map (·.info.sn) = [0] ∧ ¬ Windows s := by
  obtain ⟨s, hs, vr_r, vr_h, list⟩ : ∃ s,
      run step (rlcAmConfigure ⟨4, 4, 100, 20, 20, 20⟩) wrappedRun = some s ∧
      s.rx.vr_r = 2 ∧ s.rx.vr_h = 2 ∧ s.rx.receiver_buffer.map (·.info.sn) = [0] :=
        run_decided (by decide +kernel)
  refine ⟨s, hs, vr_r, vr_h, list, ?_⟩
  intro windows
  obtain ⟨c, hc⟩ := List.exists_mem_of_ne_nil s.rx.receiver_buffer (by
    rintro hnil
    rw [hnil] at list
    cases list)
  have below := (windows.buffered c hc).2
  rw [vr_r, vr_h] at below
  exact absurd below (Nat.not_lt_zero _)

/-! ## Whatever comes from the peer -/

/-- In every run, the buffer holds the PDUs that are sent and not acknowledged, at most 512 of them,
and VT(A) waits for an acknowledgement. -/
theorem the_buffer_holds_the_outstanding_pdus {cfg : Config} {es : List Event} {s : Entity}
    (h : run step (rlcAmConfigure cfg) es = some s) :
    (∀ sn, (s.retrans.pdu_retrans_buffer sn).held ↔ s.retrans.outstanding sn) ∧
      s.retrans.flight.length ≤ 512 ∧
      (s.retrans.pdu_retrans_buffer s.retrans.vt_a).ack = false := by
  have tx : TxWin s.retrans := run_always (fun _ _ _ => step_txWin) (txWin_configure cfg) h
  refine ⟨fun sn => tx.held_iff, ?_, tx.oldest⟩
  rw [Retrans.flight, List.length_map, List.length_range]
  exact tx.le

/-- After the reordering a STATUS PDU is sent, and another SDU in the PDU with SN 1. -/
def outstandingRun : List Event := reorderedRun ++ [.macDataRequest ⟨9, 0⟩ (fun _ => 0),
  .dataReq threeBytes, .macStatusIndication ⟨10, 0⟩ 7, .macDataRequest ⟨10, 0⟩ (fun _ => 0)]

theorem the_buffer_after_a_reordering :
    ∃ s, run step (rlcAmConfigure ⟨4, 4, 100, 20, 20, 20⟩) outstandingRun = some s ∧
      s.retrans.flight = [1] ∧ s.retrans.outstanding 1 ∧
      ∀ sn, (s.retrans.pdu_retrans_buffer sn).held ↔ s.retrans.outstanding sn := by
  obtain ⟨s, hs, hflight, hout⟩ : ∃ s,
      run step (rlcAmConfigure ⟨4, 4, 100, 20, 20, 20⟩) outstandingRun = some s ∧
      s.retrans.flight = [1] ∧ s.retrans.outstanding 1 := run_decided (by decide +kernel)
  exact ⟨s, hs, hflight, hout, (the_buffer_holds_the_outstanding_pdus hs).1⟩

end MacRlcSplit.Am
