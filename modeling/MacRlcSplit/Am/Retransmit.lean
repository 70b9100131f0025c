-- Acknowledgement and retransmission: the holes of a NACKed PDU, ACK and
-- NACK of one PDU, and the whole PDUs and AMD PDU segments sent again.
import MacRlcSplit.Am.Codec
import MacRlcSplit.Am.Segment

namespace MacRlcSplit.Am

/-! ## Windows (`rlc_am_windows.c`) -/

/-- An SN seen from a base: `((rlc_usn_t)(sn - base)) % RLC_AM_SN_MODULO`. -/
def shifted (sn base : Nat) : Nat := (sn + 65536 - base) % 65536 % 1024

def rlcAmInTxWindow (r : Retrans) (sn : Nat) : Bool :=
  sn < 1024 ∧ shifted sn r.vt_a < shifted r.vt_ms r.vt_a

def rlcAmTxSn1GtSn2 (r : Retrans) (sn1 sn2 : Nat) : Bool :=
  sn1 < 1024 ∧ sn2 < 1024 ∧ shifted sn1 r.vt_a > shifted sn2 r.vt_a

/-! ## Holes (`rlc_am_segments_holes.c`) -/

/-- The loop of `rlc_am_add_hole`: the hole goes before the first one that starts after it,
or last. `prev` is where the hole before ends. -/
def insertHole (a b : Int) : Option Int → List (Int × Int) → Option (List (Int × Int))
  | prev, [] => if prev.all (· < a) then some [(a, b)] else none
  | prev, h :: holes =>
    if b < h.1 then if prev.all (· < a) then some ((a, b) :: h :: holes) else none
    else (insertHole a b (some h.2) holes).map (h :: ·)

/-- `rlc_am_add_hole`; `none` where an assertion fails. -/
def rlcAmAddHole (p : TxPdu) (so_start so_stop : Int) : Option TxPdu :=
  if so_start > so_stop ∨ so_start ≥ 0x7FFF ∨ so_stop > 0x7FFF then none
  else if so_start = 0 ∧ (so_stop = 0x7FFF ∨ so_stop = (p.payload_size : Int) - 1) then
    -- the whole PDU is missing
    if (0 : Int) < p.payload_size then
      some { p with holes := [], nack_so_start := so_start, nack_so_stop := so_stop }
    else none
  else
    let so_stop := if so_stop = 0x7FFF then (p.payload_size : Int) - 1 else so_stop
    match p.holes with
    | [] =>
      if so_start < p.payload_size then
        some { p with holes := [(so_start, so_stop)], nack_so_start := so_start
                      nack_so_stop := so_stop }
      else none
    | h :: _ =>
      (insertHole so_start so_stop none p.holes).bind fun holes =>
        let start := if so_stop < h.1 then so_start else p.nack_so_start
        let stop := if p.holes.all (fun h => h.1 ≤ so_stop) then so_stop else p.nack_so_stop
        if holes.length < 32 ∧ start < p.payload_size then
          some { p with holes := holes, nack_so_start := start, nack_so_stop := stop }
        else none

/-- The loop of `rlc_am_remove_hole`, after `kept` holes: the holes that are left, and
whether it returned in the middle. -/
def removeHoles (a b : Int) : Nat → List (Int × Int) → Option (List (Int × Int) × Bool)
  | _, [] => some ([], false)
  | kept, (x, y) :: holes =>
    if a ≤ x then
      if b ≥ y then removeHoles a b kept holes else some ((b, y) :: holes, true)
    else if a ≤ y then
      if b < y then
        -- one hole becomes two, and the next turn shortens the second and returns
        if kept + holes.length + 2 < 32 then some ((x, a - 1) :: (b, y) :: holes, true) else none
      else (removeHoles a b (kept + 1) holes).map fun l => ((x, a) :: l.1, l.2)
    else (removeHoles a b (kept + 1) holes).map fun l => ((x, y) :: l.1, l.2)

/-- The NACKed range after a change of the holes. -/
def TxPdu.withHoles (p : TxPdu) (holes : List (Int × Int)) : TxPdu :=
  match holes.head?, holes.getLast? with
  | some h, some l => { p with holes := holes, nack_so_start := h.1, nack_so_stop := l.2 }
  | _, _ => { p with holes := [], nack_so_start := 0, nack_so_stop := 0x7FFF }

def rlcAmRemoveHole (p : TxPdu) (so_start so_stop : Int) : Option TxPdu :=
  if so_start > so_stop then none
  else if p.holes = [] then
    if so_start ≠ p.nack_so_start ∨ so_stop > p.nack_so_stop then none
    else
      let p := if so_stop + 1 ≥ p.nack_so_stop then
          { p with nack_so_start := 0, nack_so_stop := 0x7FFF }
        else { p with nack_so_start := so_stop + 1 }
      if p.nack_so_start < p.payload_size then some p else none
  else
    (removeHoles so_start so_stop 0 p.holes).bind fun (holes, returned) =>
      let p := p.withHoles holes
      if returned ∨ p.nack_so_start < p.payload_size then some p else none

def rlcAmGetNextHole (p : TxPdu) : Int × Int :=
  match p.holes with
  | [] => (p.nack_so_start, p.nack_so_stop)
  | h :: _ => h

/-! ## NACK of one PDU -/

/-- A NACK at the retransmission threshold counts as an acknowledgement for each SDU of the
PDU, and the last one gives it up. -/
def discardSdu (q : Sdus) (i : Nat) : Sdus :=
  let x := q.input_sdus i
  let x' := { x with nb_pdus_ack := (x.nb_pdus_ack + 1) % 256 }
  let q' := q.set i x'
  if x'.nb_pdus_ack = x'.nb_pdus then
    freeInSdu { q' with
      stat_tx_pdcp_sdu_discarded := (q.stat_tx_pdcp_sdu_discarded + 1) % 2 ^ 32
      stat_tx_pdcp_bytes_discarded := (q.stat_tx_pdcp_bytes_discarded + x.sdu_size) % 2 ^ 32
      log := .conf (q.owner i) (q.dataConf x.mui .no) :: q.log } i
  else q'

/-- `retx_count` after one more NACK. -/
def nackCount (retx_count : Int) : Int :=
  if retx_count = -1 then 0 else int8 (retx_count + 1)

/-- What a NACK does to the entry of a PDU that is held. -/
def nackEntry (r : Retrans) (ctxt : Ctxt) (sn : Nat) (so_start so_end : Int) : Option Retrans :=
  let p := r.pdu_retrans_buffer sn
  let p := if p.last_nack_time ≠ ctxt.frame then
      { p with last_nack_time := ctxt.frame, holes := [] }
    else p
  (rlcAmAddHole p so_start so_end).map fun p =>
    { r.set sn { p with retransmit := true, retx_count := nackCount p.retx_count } with
      num_nack_sn := (r.num_nack_sn + 1) % 2 ^ 32
      num_nack_so := if so_start = 0 ∧ so_end = 0x7FFF then r.num_nack_so
        else (r.num_nack_so + 1) % 2 ^ 32
      first_retrans_pdu_sn := match r.first_retrans_pdu_sn with
        | none => some sn
        | some first => some (if rlcAmTxSn1GtSn2 r first sn then sn else first)
      retrans_num_bytes_to_retransmit := r.retrans_num_bytes_to_retransmit +
        if p.retx_count = -1 then (p.header_and_payload_size : Int) else 0 }

def rlcAmNackPdu (s : Entity) (ctxt : Ctxt) (sn : Nat) (so_start so_end : Int) : Option Entity :=
  let p := s.retrans.pdu_retrans_buffer sn
  if p.mem_block.isNone then some s
  else
    (nackEntry s.retrans ctxt sn so_start so_end).map fun r =>
      { s with
        retrans := r
        sdus := if nackCount p.retx_count ≥ s.cfg.max_retx_threshold then
            p.sdus_index.foldl discardSdu s.sdus
          else s.sdus }

/-! ## ACK of one PDU -/

/-- One more PDU of an SDU is acknowledged; the last one confirms it. -/
def ackSdu (q : Sdus) (i : Nat) : Sdus :=
  let x := q.input_sdus i
  let x' := { x with nb_pdus_ack := (x.nb_pdus_ack + 1) % 256 }
  let q' := q.set i x'
  if x'.nb_pdus_ack = x'.nb_pdus ∧ x.sdu_remaining_size = 0 then
    freeInSdu { q' with log := .conf (q.owner i) (q.dataConf x.mui .yes) :: q.log } i
  else q'

def Retrans.passVtA (r : Retrans) : Retrans :=
  { r.set r.vt_a {} with
    first_retrans_pdu_sn := if r.first_retrans_pdu_sn = some r.vt_a then some ((r.vt_a + 1) % 1024)
      else r.first_retrans_pdu_sn
    vt_a := (r.vt_a + 1) % 1024 }

/-- The do-while loop that moves VT(A) over acknowledged PDUs. It meets VT(S) within 1024
turns. -/
def slideVtA : Nat → Retrans → Retrans
  | 0, r => r
  | n + 1, r =>
    let r := r.passVtA
    if (r.pdu_retrans_buffer r.vt_a).ack ∧ r.vt_a ≠ r.vt_s then slideVtA n r else r

def Retrans.slide (r : Retrans) : Retrans :=
  let r := slideVtA 1024 r
  { r with vt_ms := (r.vt_a + 512) % 1024 }

/-- The do-while loop that looks for the next PDU to send again. -/
def nextRetrans (r : Retrans) : Nat → Nat → Nat
  | 0, sn => sn
  | n + 1, sn =>
    let sn := (sn + 1) % 1024
    if (r.pdu_retrans_buffer sn).retx_count ≥ 0 ∨ sn = r.vt_s then sn else nextRetrans r n sn

/-- `first_retrans_pdu_sn` after that PDU was acknowledged. -/
def Retrans.passFirstRetrans (r : Retrans) (sn : Nat) : Retrans :=
  if r.first_retrans_pdu_sn = some sn then
    let next := nextRetrans r 1024 sn
    { r with first_retrans_pdu_sn := if next = r.vt_s then none else some next }
  else r

/-- An ACK for a PDU that is held and not acknowledged yet. -/
def ackEntry (r : Retrans) (sn : Nat) : Retrans :=
  let p := r.pdu_retrans_buffer sn
  { r.set sn { p with retransmit := false, mem_block := none, ack := true } with
    retrans_num_pdus := r.retrans_num_pdus - 1
    retrans_num_bytes := r.retrans_num_bytes - p.header_and_payload_size
    retrans_num_bytes_to_retransmit := r.retrans_num_bytes_to_retransmit -
      if p.retx_count ≥ 0 then (p.header_and_payload_size : Int) else 0 }

def rlcAmAckPdu (s : Entity) (sn : Nat) : Entity :=
  let p := s.retrans.pdu_retrans_buffer sn
  if !p.ack && p.mem_block.isSome then
    let r := ackEntry s.retrans sn
    let r := if sn = r.vt_a then r.slide else r
    { s with
      sdus :=
        p.sdus_index.foldl ackSdu { s.sdus with log := .acked (s.retrans.number sn) :: s.sdus.log }
      retrans := r.passFirstRetrans sn }
  else
    let r := s.retrans.set sn { p with retransmit := false, mem_block := none }
    { s with retrans := if p.ack ∧ sn = r.vt_a then r.slide else r }

end MacRlcSplit.Am
