-- New data: `rlc_am_data_req` stores an SDU, and `rlc_am_segment_10` cuts
-- the next AMD PDU from the SDUs in the queue. A test loop first lists the
-- SDUs that will be in the PDU, then a second loop fills it.
import MacRlcSplit.Am.Entity

namespace MacRlcSplit.Am

open Function

/-! ## The queue of input SDUs (`rlc_am_in_sdu.c`, `rlc_am_data_req`) -/

/-- An SDU as `rlc_data_req` hands it on. `DevCheck` stops an empty one, and `data_size` is
a `uint16_t`. -/
structure RlcAmDataReq where
  mui : Nat
  data : List Byte
  pos : 0 < data.length
  fits : data.length < 2 ^ 16

/-- The slot the next SDU goes into looks free. -/
def Sdus.hasRoom (q : Sdus) : Bool := (q.input_sdus q.next_sdu_index).mem_block.isNone &&
    !(q.input_sdus q.next_sdu_index).segmented &&
    (q.next_sdu_index + 1) % 128 ≠ q.current_sdu_index

def rlcAmDataReq (q : Sdus) (req : RlcAmDataReq) : Sdus :=
  if q.hasRoom then
    { q.set q.next_sdu_index
        { mem_block := some req.data, mui := req.mui, sdu_size := req.data.length
          sdu_remaining_size := req.data.length } with
      stat_tx_pdcp_sdu := (q.stat_tx_pdcp_sdu + 1) % 2 ^ 32
      stat_tx_pdcp_bytes := (q.stat_tx_pdcp_bytes + req.data.length) % 2 ^ 32
      sdu_buffer_occupancy := q.sdu_buffer_occupancy + req.data.length
      nb_sdu := q.nb_sdu + 1
      nb_sdu_no_segmented := q.nb_sdu_no_segmented + 1
      next_sdu_index := (q.next_sdu_index + 1) % 128
      accepted := q.accepted + 1
      owner := update q.owner q.next_sdu_index q.accepted }
  else
    { q with
      stat_tx_pdcp_sdu_discarded := (q.stat_tx_pdcp_sdu_discarded + 1) % 2 ^ 32
      stat_tx_pdcp_bytes_discarded := (q.stat_tx_pdcp_bytes_discarded + req.data.length) % 2 ^ 32 }

/-- The loop of `rlc_am_free_in_sdu` over slots already confirmed; it meets `next` within a
turn of the ring. -/
def skipSent (input_sdus : Nat → TxSdu) (next : Nat) : Nat → Nat → Nat
  | 0, i => i
  | n + 1, i =>
    if i ≠ next ∧ (input_sdus i).transmitted_successfully then
      skipSent input_sdus next n ((i + 1) % 128)
    else i

def freeInSdu (q : Sdus) (i : Nat) : Sdus :=
  let input_sdus := update q.input_sdus i { transmitted_successfully := true }
  let current := if q.current_sdu_index = i then (i + 1) % 128 else q.current_sdu_index
  { q with
    input_sdus := input_sdus
    nb_sdu := q.nb_sdu - 1
    nb_sdu_no_segmented :=
      q.nb_sdu_no_segmented - if (q.input_sdus i).mem_block.isSome then 1 else 0
    current_sdu_index := skipSent input_sdus q.next_sdu_index 128 current }

def freeInSduData (q : Sdus) (i : Nat) : Sdus :=
  if (q.input_sdus i).mem_block.isSome then
    { q.set i { q.input_sdus i with mem_block := none, sdu_remaining_size := 0 } with
      nb_sdu_no_segmented := q.nb_sdu_no_segmented - 1 }
  else q

/-! ## Polling -/

/-- `rlc_am_pdu_polling`: the counters after one more PDU, and the PDU with its P bit. -/
def pduPolling (s : Entity) (ctxt : Ctxt) (pdu : Mem) (payload_size : Nat) : Entity × Mem :=
  let pdus := (s.poll.c_pdu_without_poll + 1) % 2 ^ 32
  let bytes := (s.poll.c_byte_without_poll + payload_size) % 2 ^ 32
  if pdus ≥ s.cfg.poll_pdu ∨ bytes ≥ s.cfg.poll_byte ∨
      (s.sdus.sdu_buffer_occupancy = 0 ∧ s.retrans.retrans_num_bytes_to_retransmit = 0) ∨
      s.retrans.vt_s = s.retrans.vt_ms ∨ s.poll.force_poll then
    ({ s with
      poll := { force_poll := false, c_pdu_without_poll := 0, c_byte_without_poll := 0
                poll_sn := (s.retrans.vt_s + 1023) % 1024
                t_poll_retransmit := s.poll.t_poll_retransmit.start ctxt.ms } },
      pdu.set 0 (pdu 0 ||| 0x20))
  else
    ({ s with poll := { s.poll with c_pdu_without_poll := pdus, c_byte_without_poll := bytes } },
      pdu.set 0 (pdu 0 &&& 0xDF))

/-- `rlc_am_retransmit_get_copy`: a copy of a PDU that is still held. -/
def retransmitGetCopy (s : Entity) (ctxt : Ctxt) (sn : Nat) : Entity × Option Mem :=
  let p := s.retrans.pdu_retrans_buffer sn
  match p.mem_block with
  | none => (s, none)
  | some pdu =>
    let (s, copy) :=
      pduPolling { s with retrans := s.retrans.set sn { p with retransmit := false } }
      ctxt pdu p.payload_size
    (s, some copy)

/-! ## The test loop -/

def Sdus.listed (q : Sdus) (i : Nat) : Sdus :=
  q.set i { q.input_sdus i with nb_pdus := (q.input_sdus i).nb_pdus + 1 }

/-- What the test loop leaves: the SDUs with their PDU counted, `sdus_index`,
`test_num_li`, and how much it took from `pdu_remaining_size`. -/
structure Plan where
  sdus : Sdus
  sdus_index : List Nat
  test_num_li : Nat
  shrink : Nat

/-- The loop that computes how many SDUs fill the PDU. `k` is how many LIs the PDU still
takes, `li` the length of the next one, and `unused` that of the LI that goes if the queue
ends here. -/
def planPdu (k : Nat) (q : Sdus) (i rem li unused num_li : Nat)
    (sdus_index : List Nat) : Option Plan :=
  match (q.input_sdus i).mem_block with
  | none => some ⟨q, sdus_index, if unused > 0 then num_li - 1 else num_li, unused⟩
  | some _ =>
    let r := (q.input_sdus i).sdu_remaining_size
    let q' := q.listed i
    let sdus_index' := sdus_index ++ [i]
    -- assert(sdu_mngt_p->nb_pdus < RLC_AM_MAX_SDU_FRAGMENTS)
    if (q.input_sdus i).nb_pdus + 1 ≥ 32 then none
    else if r ≥ rem then some ⟨q', sdus_index', num_li, 0⟩
    else if r + li = rem then some ⟨q', sdus_index', num_li, li⟩
    else if r + li < rem then
      match k with
      | 0 => some ⟨q', sdus_index', num_li, 1⟩
      | k + 1 => planPdu k q' ((i + 1) % 128) (rem - (r + li)) (3 - li) li (num_li + 1) sdus_index'
    else some ⟨q', sdus_index', num_li, 1⟩

/-! ## The fill loop -/

/-- The variables of the fill loop. `data` and `e_li` are offsets in the PDU. -/
structure Fill where
  sdus : Sdus
  mem : Mem
  data : Nat
  e_li : Nat
  payload_size : Nat := 0
  fill_num_li : Nat := 0
  pdu_remaining_size : Nat
  last_byte_is_last : Bool := false

/-- The current SDU gives `n` of its bytes to a PDU and stays current. -/
def Sdus.cut (q : Sdus) (pdu n : Nat) : Sdus :=
  let i := q.current_sdu_index
  let x := q.input_sdus i
  { q.set i { x with sdu_remaining_size := x.sdu_remaining_size - n
                     sdu_segmented_size := x.sdu_segmented_size + n } with
    sdu_buffer_occupancy := q.sdu_buffer_occupancy - n
    log := .carried pdu (q.owner i) :: q.log }

/-- The current SDU gives its last bytes to a PDU, and the next one is current. -/
def Sdus.finish (q : Sdus) (pdu : Nat) : Sdus :=
  let i := q.current_sdu_index
  let q' := freeInSduData { q with
    sdu_buffer_occupancy := q.sdu_buffer_occupancy - (q.input_sdus i).sdu_remaining_size
    log := .carried pdu (q.owner i) :: q.log } i
  { q' with current_sdu_index := (i + 1) % 128 }

/-- The LI of `r` bytes: 12 bits in `b1`, `b2`, or 12 bits in `b2`, `b3` of the same
`rlc_am_e_li_t`. -/
def writeLi (m : Mem) (e_li li r : Nat) (last : Bool) : Mem :=
  if li = 2 then
    (m.set e_li ((if last then 0 else 0x80) ||| UInt8.ofNat (r / 16))).set (e_li + 1)
      (UInt8.ofNat (r * 16))
  else
    (m.set (e_li + 1) (m (e_li + 1) ||| (if last then 0 else 0x08) ||| UInt8.ofNat (r / 256))).set
      (e_li + 2) (UInt8.ofNat r)

/-- The loop that fills the PDU, from the current SDU on. -/
def fillPdu (k pdu test_num_li li : Nat) (f : Fill) : Fill :=
  let x := f.sdus.input_sdus f.sdus.current_sdu_index
  match x.mem_block with
  | none => f
  | some sdu =>
    let r := x.sdu_remaining_size
    let bytes := fun n => (sdu.drop x.sdu_segmented_size).take n
    if r > f.pdu_remaining_size then
      { f with
        mem := f.mem.copy f.data (bytes f.pdu_remaining_size)
        payload_size := f.payload_size + f.pdu_remaining_size
        sdus := f.sdus.cut pdu f.pdu_remaining_size
        last_byte_is_last := false
        pdu_remaining_size := 0 }
    else
      let f' := { f with
        mem := f.mem.copy f.data (bytes r)
        payload_size := f.payload_size + r
        sdus := f.sdus.finish pdu }
      if r = f.pdu_remaining_size then
        { f' with last_byte_is_last := true, pdu_remaining_size := 0 }
      else if r + li < f.pdu_remaining_size then
        match k with
        | 0 => { f' with last_byte_is_last := true, pdu_remaining_size := 0 }
        | k + 1 =>
          fillPdu k pdu test_num_li (3 - li)
            { f' with
              data := f.data + r
              mem := writeLi f'.mem f.e_li li r (f.fill_num_li + 1 = test_num_li)
              e_li := if li = 2 then f.e_li else f.e_li + 3
              fill_num_li := f.fill_num_li + 1
              pdu_remaining_size := f.pdu_remaining_size - (r + li) }
      -- `assert(1!=1)` stands here under `USER_MODE`
      else { f' with last_byte_is_last := true, pdu_remaining_size := f.pdu_remaining_size - r }

/-! ## `rlc_am_segment_10` -/

/-- What the LIs of all queued SDUs could take. -/
def maxLiOverhead (q : Sdus) : Int :=
  if q.nb_sdu_no_segmented ≤ 1 then 0
  else (q.nb_sdu_no_segmented - 1) * 3 / 2 + (q.nb_sdu_no_segmented - 1) % 2

/-- `data_pdu_size`: all there is to send, if the grant allows it. -/
def dataPduSize (s : Entity) : Nat :=
  let all := s.sdus.sdu_buffer_occupancy + 2 + maxLiOverhead s.sdus
  (if s.nb_bytes_requested_by_mac ≥ all then all else s.nb_bytes_requested_by_mac).toNat

def writeHeader (m : Mem) (first last li : Bool) (vt_s : Nat) : Mem :=
  let fi := (if first then 0 else 2) + if last then 0 else 1
  (m.set 0 (m 0 ||| UInt8.ofNat (fi * 8) ||| (if li then 0x04 else 0) ||| 0x80 |||
    UInt8.ofNat (vt_s / 256))).set 1 (UInt8.ofNat vt_s)

/-- A PDU that has been filled takes SN VT(S) in the retransmission buffer. -/
def Retrans.store (r : Retrans) (p : TxPdu) : Retrans :=
  { r.set r.vt_s p with
    vt_s := (r.vt_s + 1) % 1024
    retrans_num_pdus := r.retrans_num_pdus + 1
    retrans_num_bytes := r.retrans_num_bytes + p.header_and_payload_size
    sent := r.sent + 1
    number := update r.number r.vt_s r.sent }

/-- What is left of the fill loop, for a plan. -/
def fillPlan (s : Entity) (junk : Mem) (plan : Plan) : Fill :=
  fillPdu 31 s.retrans.sent plan.test_num_li 2
    { sdus := plan.sdus
      -- the block is fresh from the pool, and only the first bytes are cleared
      mem := junk.copy 0 [0, 0, 0, 0]
      data := 2 + (plan.test_num_li * 3 + 1) / 2
      e_li := 2
      pdu_remaining_size := dataPduSize s - 2 - plan.shrink }

/-- The PDU that the filled block becomes, before its P bit is set. -/
def pduOfFill (s : Entity) (plan : Plan) (f : Fill) : TxPdu :=
  let x := s.sdus.input_sdus s.sdus.current_sdu_index
  { mem_block := some (writeHeader f.mem (x.sdu_remaining_size = x.sdu_size) f.last_byte_is_last
      (f.fill_num_li > 0) s.retrans.vt_s)
    payload := 2 + (plan.test_num_li * 3 + 1) / 2
    sdus_index := plan.sdus_index
    header_and_payload_size := dataPduSize s - f.pdu_remaining_size
    payload_size := f.payload_size
    retx_count := -1 }

/-- The PDU is polled for, stored and copied for the MAC. -/
def sendPdu (s : Entity) (ctxt : Ctxt) (sdus : Sdus) (p : TxPdu)
    (pdu : Mem) : Entity × List (List Byte) :=
  let vt_s := s.retrans.vt_s
  let (s', pdu') := pduPolling
    { s with sdus := sdus, retrans := { s.retrans with vt_s := (vt_s + 1) % 1024 } }
    ctxt pdu p.payload_size
  let (s'', copy) := retransmitGetCopy
    { s' with retrans := s.retrans.store { p with mem_block := some pdu' } } ctxt vt_s
  (s'', copy.toList.map fun m => m.read 0 p.header_and_payload_size)

def rlcAmSegment10 (s : Entity) (ctxt : Ctxt) (junk : Mem) : Option (Entity × List (List Byte)) :=
  if s.sdus.sdu_buffer_occupancy ≤ 0 ∨ s.nb_bytes_requested_by_mac ≤ 0 ∨
      (s.sdus.input_sdus s.sdus.current_sdu_index).mem_block.isNone then some (s, [])
  else
    (planPdu 31 s.sdus s.sdus.current_sdu_index (dataPduSize s - 2) 2 0 0 []).bind fun plan =>
      let f := fillPlan s junk plan
      let p := pduOfFill s plan f
      -- assert(pdu_tb_req_p->tb_size < RLC_SDU_MAX_SIZE)
      if p.header_and_payload_size ≥ 9000 then none
      else p.mem_block.map fun pdu => sendPdu s ctxt f.sdus p pdu

end MacRlcSplit.Am
