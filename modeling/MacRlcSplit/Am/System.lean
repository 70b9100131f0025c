-- An AM entity between its upper layer and the MAC: the five calls that
-- reach it, and its runs over any interleaving of them.
import MacRlcSplit.Am.Resegment
import MacRlcSplit.Am.Status
import MacRlcSplit.Lib.Run

namespace MacRlcSplit.Am

/-! ## `rlc_am_get_pdus` -/

/-- The loop that moves `first_retrans_pdu_sn` to the next PDU flagged for retransmission. -/
def nextFlagged (r : Retrans) : Nat → Nat → Nat
  | 0, sn => sn
  | n + 1, sn =>
    if sn ≠ r.vt_s ∧ (r.pdu_retrans_buffer sn).retransmit = false then
      nextFlagged r n ((sn + 1) % 1024)
    else sn

/-- Retransmission: `none` inside says that nothing could be sent again and new data is
tried. -/
def resendPdu (s : Entity) (ctxt : Ctxt) (junk : Mem) :
    Option (Option (Entity × List (List Byte))) :=
  match s.retrans.first_retrans_pdu_sn with
  | none => some none
  | some sn =>
    let p := s.retrans.pdu_retrans_buffer sn
    if s.nb_bytes_requested_by_mac ≤ 2 ∨ sn = s.retrans.vt_s then some none
    else if (p.header_and_payload_size : Int) ≤ s.nb_bytes_requested_by_mac ∧ p.retx_count ≥ 0 ∧
        p.nack_so_start = 0 ∧ p.nack_so_stop = 0x7FFF then
      let (s, copy) := retransmitGetCopy s ctxt sn
      let p := s.retrans.pdu_retrans_buffer sn
      some (some
        ({ s with
          retrans := s.retrans.set sn { p with retx_count := int8 (p.retx_count + 1) }
          nb_bytes_requested_by_mac := s.nb_bytes_requested_by_mac - p.header_and_payload_size },
        copy.toList.map fun m => m.read 0 p.header_and_payload_size))
    else if p.retx_count ≥ 0 ∧ s.nb_bytes_requested_by_mac ≥ 8 then
      (retransmitGetSubsegment s ctxt sn junk).map fun (s, pdu, size) =>
        let next := nextFlagged s.retrans 1024 sn
        some ({ s with retrans := { s.retrans with
            first_retrans_pdu_sn := if next = s.retrans.vt_s then none else some next } },
          [pdu.read 0 size])
    else some none

/-- New data, or, when t-PollRetransmit has expired, any PDU. -/
def newPdu (s : Entity) (ctxt : Ctxt) (junk : Mem) : Option (Entity × List (List Byte)) :=
  (if s.nb_bytes_requested_by_mac > 2 ∧ s.retrans.vt_s ≠ s.retrans.vt_ms then
      rlcAmSegment10 s ctxt junk
    else some (s, [])).bind fun (s, pdus) =>
    if pdus = [] ∧ s.poll.t_poll_retransmit.timed_out ∧ s.nb_bytes_requested_by_mac > 2 then
      retransmitAnyPdu s ctxt junk
    else some (s, pdus)

/-- `rlc_am_get_pdus`: a STATUS PDU before retransmissions before new data. `junk` is what is
in the block that the pool gives. -/
def rlcAmGetPdus (s : Entity) (ctxt : Ctxt) (junk : Mem) : Option (Entity × List (List Byte)) :=
  if s.nb_bytes_requested_by_mac > 2 ∧ s.rx.status_requested ∧
    s.rx.t_status_prohibit.running = false then
    (rlcAmSendStatusPdu s).map fun (s, pdu) =>
      ({ s with rx := { s.rx with
          status_requested := false
          t_status_prohibit := s.rx.t_status_prohibit.start ctxt.ms } }, [pdu])
  else
    (resendPdu s ctxt junk).bind fun
      | some (s, pdus) => some (s, pdus)
      | none => newPdu s ctxt junk

/-! ## The MAC's calls -/

def rlcAmCheckTimerPollRetransmit (poll : Poll) (ctxt : Ctxt) : Poll :=
  let t := poll.t_poll_retransmit
  if t.running ∧ t.elapsed ctxt.ms then
    { poll with
      force_poll := true
      t_poll_retransmit := { t with running := false, timed_out := true
                                    ms_time_out := (ctxt.ms + t.ms_duration) % 2 ^ 32 } }
  else poll

/-- `rlc_am_get_buffer_occupancy_in_bytes`, a `uint32_t`. -/
def rlcAmGetBufferOccupancyInBytes (s : Entity) : Nat :=
  if s.rx.status_requested ∧ s.rx.t_status_prohibit.running = false then
    (15 + s.retrans.num_nack_sn * 11 + s.retrans.num_nack_so * 31 + 7) / 8 % 2 ^ 32
  else
    ((s.retrans.retrans_num_bytes_to_retransmit + s.sdus.sdu_buffer_occupancy +
      maxLiOverhead s.sdus + if s.sdus.sdu_buffer_occupancy = 0 then 0 else 2) % 2 ^ 32).toNat

def checkTimers (s : Entity) (ctxt : Ctxt) : Entity :=
  if s.last_frame_status_indication ≠ ctxt.frame then
    { s with
      poll := rlcAmCheckTimerPollRetransmit s.poll ctxt
      rx := rlcAmCheckTimerStatusProhibit (rlcAmCheckTimerReordering s.rx ctxt) ctxt }
  else s

/-- `rlc_am_mac_status_indication`: the entity and the buffer occupancy that it reports. The
search for a PDU to report does not move, so that it never ends unless the first one is
held. -/
def rlcAmMacStatusIndication (s : Entity) (ctxt : Ctxt) (tb_size : Nat) : Option (Entity × Nat) :=
  let s := { checkTimers s ctxt with
    last_frame_status_indication := ctxt.frame
    nb_bytes_requested_by_mac := (tb_size % 2 ^ 16 : Nat) }
  let occupancy := rlcAmGetBufferOccupancyInBytes s
  let r := s.retrans
  if s.poll.t_poll_retransmit.timed_out ∧ occupancy = 0 ∧
      (s.sdus.input_sdus s.sdus.current_sdu_index).mem_block.isNone ∧ s.sdus.nb_sdu > 0 ∧
      r.vt_s ≠ r.vt_a then
    let p := r.pdu_retrans_buffer ((r.vt_s + 1023) % 1024)
    if p.mem_block.isSome then some (s, p.header_and_payload_size) else none
  else some (s, occupancy)

/-- One transport block of `rlc_am_receive_routing`. -/
def rlcAmReceiveRouting (s : Entity) (ctxt : Ctxt) (tb : MacTbInd) : Option Entity :=
  if tb.size = 0 then some s
  else if (tb.data 0).toNat / 128 = 1 then
    (rlcAmReceiveProcessDataPdu s.rx ctxt tb).map fun rx => { s with rx := rx }
  else
    (rlcAmReceiveProcessControlPdu s ctxt tb).bind fun (s, left) =>
      -- AssertFatal( tb_size_in_bytes == 0, ...)
      if left = 0 then some s else none

/-! ## Runs -/

/-- The calls that reach the entity. A `mac_data_ind` with several transport blocks is one
`macDataIndication` after the other. -/
inductive Event where
  | dataReq (req : RlcAmDataReq)
  | macStatusIndication (ctxt : Ctxt) (tb_size : Nat)
  | macDataRequest (ctxt : Ctxt) (junk : Mem)
  | macDataIndication (ctxt : Ctxt) (tb : MacTbInd)

/-- One call. It gives `none` where an assertion fails, the process crashes or the call does
not return. -/
def step (s : Entity) : Event → Option Entity
  | .dataReq req => some { s with sdus := rlcAmDataReq s.sdus req }
  | .macStatusIndication ctxt tb_size =>
    (rlcAmMacStatusIndication s ctxt tb_size).map (·.1)
  | .macDataRequest ctxt junk => (rlcAmGetPdus s ctxt junk).map (·.1)
  | .macDataIndication ctxt tb => rlcAmReceiveRouting s ctxt tb

end MacRlcSplit.Am
