-- STATUS reports: what `rlc_am_receive_process_control_pdu` does with one,
-- and how `rlc_am_send_status_pdu` builds one from the receive list.
import MacRlcSplit.Am.Receiver

namespace MacRlcSplit.Am

/-! ## A STATUS PDU received -/

/-- A STATUS that covers POLL_SN stops t-PollRetransmit. -/
def stopPoll (s : Entity) (sn : Nat) : Entity :=
  if sn = s.poll.poll_sn then
    { s with poll := { s.poll with t_poll_retransmit := s.poll.t_poll_retransmit.reset } }
  else s

/-- The loop from VT(A) to ACK_SN. `nacks` is the rest of the NACK list and `last` the SN of
the entry before it. Each turn moves the cursor or uses up an entry, so that `n` never runs
out. -/
def processStatus (ctxt : Ctxt) (ack_sn : Nat) : Nat → Entity → Nat → Option Nat → List NackSn →
    Option Entity
  | 0, _, _, _, _ => none
  | n + 1, s, sn, last, nacks =>
    if sn = ack_sn then some s
    else
      let s := stopPoll s sn
      match nacks with
      | [] => processStatus ctxt ack_sn n (rlcAmAckPdu s sn) ((sn + 1) % 1024) last []
      | nack :: rest =>
        if sn ≠ nack.nack_sn then
          -- with the list started, the cursor waits at a repeated SN
          let sn' := if last = some nack.nack_sn then sn else (sn + 1) % 1024
          processStatus ctxt ack_sn n (rlcAmAckPdu s sn) sn' last (nack :: rest)
        else
          (rlcAmNackPdu s ctxt sn nack.so_start nack.so_end).bind fun s =>
            let sn' := if (rest.head?.map (·.nack_sn)) = some nack.nack_sn then sn
              else (sn + 1) % 1024
            processStatus ctxt ack_sn n s sn' (some nack.nack_sn) rest

/-- `rlc_am_receive_process_control_pdu`: the entity, and how many bytes of the transport block
were not used. -/
def rlcAmReceiveProcessControlPdu (s : Entity) (ctxt : Ctxt)
    (tb : MacTbInd) : Option (Entity × Int) :=
  let (info, left) := rlcAmGetControlPduInfos tb.data tb.size
  match info with
  | none => some (s, left)
  | some info =>
    -- assert(rlc_pP->control_pdu_info.num_nack < RLC_AM_MAX_NACK_IN_STATUS_PDU)
    if info.nack_list.length ≥ 1023 then none
    else if rlcAmInTxWindow s.retrans info.ack_sn then
      let s := { s with retrans := { s.retrans with num_nack_so := 0, num_nack_sn := 0 } }
      (processStatus ctxt info.ack_sn (1025 + info.nack_list.length) s s.retrans.vt_a none
        info.nack_list).map fun s => (s, left)
    else some (s, left)

/-! ## A STATUS PDU built -/

/-- The report so far, and the bits that are left for it. -/
structure Report where
  bits : Int
  nack_list : List NackSn := []

/-- One more entry; `nack_list` has room for 1023. -/
def Report.push (rep : Report) (bits : Int) (nack : NackSn) : Option Report :=
  if rep.nack_list.length < 1023 then
    some { bits := rep.bits - bits, nack_list := rep.nack_list ++ [nack] }
  else none

/-- PDUs of which no byte has come, up to `sn`: the last SN covered, and whether the room
ended there. -/
def nackMissing (sn : Nat) : Nat → Report → Nat → Option (Report × Nat × Bool)
  | 0, rep, previous => some (rep, previous, false)
  | n + 1, rep, previous =>
    if (previous + 1) % 1024 = sn then some (rep, previous, false)
    else if rep.bits > 12 then
      (rep.push 12 ⟨(previous + 1) % 1024, true, false, 0, 0x7FF⟩).bind fun rep =>
        nackMissing sn n rep ((previous + 1) % 1024)
    else some (rep, previous, true)

/-- Where the walk over the list stands: ended with an ACK_SN, or at an element. -/
inductive Walk where
  | done (rep : Report) (ack_sn : Nat)
  | go (rep : Report) (previous : Nat) (l : List RxPdu)

/-- The SO that is waited for after a segment. -/
def waitedAfter (x : PduInfo) : Int := if x.lsf then 0x7FFF else x.so + x.payload_size

/-- The missing segments of an SN that is not complete. `waited` is the next byte that has
not come. -/
def reportSegments (sn : Nat) : Report → Nat → Int → List RxPdu → Option Walk
  | rep, previous, _, [] => some (.done rep previous)
  | rep, previous, waited, c :: l =>
    if c.info.sn ≠ sn then
      -- the last segment has not come
      if waited ≠ 0x7FFF then
        if rep.bits ≥ 42 then
          (rep.push 42 ⟨sn, true, true, (waited % 32768).toNat, 0x7FFF⟩).map fun rep =>
            .go rep sn (c :: l)
        else some (.done rep sn)
      else some (.go rep sn (c :: l))
    else
      let previous' := if l = [] then previous else sn
      if (c.info.so : Int) > waited then
        if rep.bits ≥ 42 then
          (rep.push 42 ⟨sn, true, true, (waited % 32768).toNat,
            (((c.info.so : Int) - 1) % 32768).toNat⟩).bind fun rep =>
            reportSegments sn rep previous' (waitedAfter c.info) l
        else some (.done rep sn)
      else reportSegments sn rep previous' (waitedAfter c.info) l

/-- The loop over the receive list, which each turn shortens. -/
def reportList : Nat → Report → Nat → List RxPdu → Option (Report × Nat)
  | 0, rep, previous, _ => some (rep, (previous + 1) % 1024)
  | n + 1, rep, previous, l =>
    if l = [] ∨ rep.bits < 12 then some (rep, (previous + 1) % 1024)
    else
      match l.dropWhile fun c => c.info.sn = previous with
      | [] => some (rep, (previous + 1) % 1024)
      | c :: l =>
        (nackMissing c.info.sn 1024 rep previous).bind fun (rep, previous, full) =>
          if full then some (rep, (previous + 1) % 1024)
          else if c.all_segments_received then reportList n rep c.info.sn l
          else
            (reportSegments c.info.sn rep previous 0 (c :: l)).bind fun
              | .done rep ack_sn => some (rep, ack_sn)
              | .go rep previous l => reportList n rep previous l

/-- The elements before the receive window are passed over. The end of the list is not looked
for. -/
def skipOutside (rx : Rx) : Nat → List RxPdu → Option (Nat × List RxPdu)
  | _, [] => none
  | previous, c :: l =>
    if rlcAmInRxWindow rx c.info.sn then some (previous, c :: l) else skipOutside rx c.info.sn l

def closeNacks : List NackSn → List NackSn
  | [] => []
  | [nack] => [{ nack with e1 := false }]
  | nack :: l => nack :: closeNacks l

/-- The report that fits into `grant` bytes. -/
def statusReport (rx : Rx) (grant : Int) : Option (Report × Nat) :=
  let rep : Report := { bits := grant * 8 - 15 }
  if rx.receiver_buffer = [] then some (rep, rx.vr_r)
  else
    (skipOutside rx ((rx.vr_r + 1023) % 1024) rx.receiver_buffer).bind fun (previous, l) =>
      reportList l.length rep previous l

/-- `rlc_am_send_status_pdu`: the entity and the PDU. -/
def rlcAmSendStatusPdu (s : Entity) : Option (Entity × List Byte) :=
  (statusReport s.rx s.nb_bytes_requested_by_mac).bind fun (rep, ack_sn) =>
    let (m, pdu_size) := rlcAmWriteStatusPdu ⟨ack_sn, closeNacks rep.nack_list⟩
    -- assert(pdu_size == (rlc_pP->nb_bytes_requested_by_mac - (nb_bits_to_transmit >> 3)))
    if (pdu_size : Int) = s.nb_bytes_requested_by_mac - rep.bits / 8 then
      some ({ s with nb_bytes_requested_by_mac := s.nb_bytes_requested_by_mac - pdu_size },
        m.read 0 pdu_size)
    else none

end MacRlcSplit.Am
