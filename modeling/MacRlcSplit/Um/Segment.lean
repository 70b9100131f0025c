-- New data: `rlc_um_data_req` queues an SDU, and `rlc_um_segment_10` or
-- `rlc_um_segment_5` cuts the next UMD PDU from the queue. As in AM, a test
-- loop first counts the LIs and a second loop fills the PDU. LIs have the
-- layout they have in AM.
import MacRlcSplit.Am.Segment
import MacRlcSplit.Um.Entity

namespace MacRlcSplit.Um

open Am (Byte Mem writeLi)

/-! ## The queue -/

/-- An SDU as `rlc_data_req` hands it on. `DevCheck` stops an empty one, and `data_size` is a
`uint16_t`. -/
structure RlcUmDataReq where
  data : List Byte
  pos : 0 < data.length
  fits : data.length < 2 ^ 16

def rlcUmDataReq (tx : Tx) (req : RlcUmDataReq) : Tx :=
  { tx with
    buffer_occupancy := tx.buffer_occupancy + req.data.length
    input_sdus := tx.input_sdus ++ [{ data := req.data, more := req.pos }] }

/-! ## The test loop -/

/-- What the test loop leaves: `test_num_li`, and how much it took from `pdu_remaining_size` and
from `data_pdu_size`, which only `rlc_um_segment_5` does. -/
structure Plan where
  test_num_li : Nat
  shrink : Nat
  sizeShrink : Nat
deriving DecidableEq, Repr

/-- The loop that computes how many SDUs fill the PDU. `rem` is `test_pdu_remaining_size`, `li`
the length of the next LI, and `unused` that of the LI that goes if the queue ends here. -/
def planPdu (rem li unused num_li : Nat) : List TxSdu → Plan
  | [] => ⟨if unused > 0 then num_li - 1 else num_li, unused, 0⟩
  | x :: l =>
    let r := x.sdu_remaining_size
    if r ≥ rem then ⟨num_li, 0, 0⟩
    else if r + li = rem then ⟨num_li, li, li⟩
    else if r + li < rem then planPdu (rem - (r + li)) (3 - li) li (num_li + 1) l
    else ⟨num_li, 1, 1⟩

/-! ## The fill loop -/

/-- The variables of the fill loop. `data` and `e_li` are offsets in the PDU. -/
structure Fill where
  input_sdus : List TxSdu := []
  buffer_occupancy : Nat
  mem : Mem
  data : Nat
  e_li : Nat
  fill_num_li : Nat := 0
  pdu_remaining_size : Nat
  last_byte_is_last : Bool := false

def TxSdu.bytes (x : TxSdu) (n : Nat) : List Byte := (x.data.drop x.sdu_segmented_size).take n

/-- An SDU gives `n` of its bytes to a PDU and stays in the queue. -/
def TxSdu.cut (x : TxSdu) (n : Nat) (h : n < x.sdu_remaining_size) : TxSdu where
  data := x.data
  sdu_segmented_size := x.sdu_segmented_size + n
  more := by
    unfold sdu_remaining_size at h
    omega

/-- The loop that fills the PDU from the queue. -/
def fillPdu (test_num_li li : Nat) : List TxSdu → Fill → Fill
  | [], f => { f with input_sdus := [] }
  | x :: l, f =>
    let r := x.sdu_remaining_size
    if h : f.pdu_remaining_size < r then
      { f with
        mem := f.mem.copy f.data (x.bytes f.pdu_remaining_size)
        input_sdus := x.cut f.pdu_remaining_size h :: l
        buffer_occupancy := f.buffer_occupancy - f.pdu_remaining_size
        last_byte_is_last := false
        pdu_remaining_size := 0 }
    else
      let f' := { f with
        mem := f.mem.copy f.data (x.bytes r)
        input_sdus := l
        buffer_occupancy := f.buffer_occupancy - r }
      if r = f.pdu_remaining_size then
        { f' with last_byte_is_last := true, pdu_remaining_size := 0 }
      else if r + li < f.pdu_remaining_size then
        fillPdu test_num_li (3 - li) l
          { f' with
            data := f.data + r
            mem := writeLi f'.mem f.e_li li r (f.fill_num_li + 1 = test_num_li)
            e_li := if li = 2 then f.e_li else f.e_li + 3
            fill_num_li := f.fill_num_li + 1
            pdu_remaining_size := f.pdu_remaining_size - (r + li) }
      -- `assert(1!=1)` stands here under `USER_MODE`, with 10 bits also under `!EXMIMO`
      else { f' with last_byte_is_last := true, pdu_remaining_size := f.pdu_remaining_size - r }

/-! ## The two functions -/

/-- What the LIs of all queued SDUs could take. -/
def maxLiOverhead (n : Nat) : Nat := if n ≤ 1 then 0 else (n - 1) * 3 / 2 + (n - 1) % 2

/-- `data_pdu_size` at first: all there is to send, if the grant allows it. -/
def dataPduSize (tx : Tx) : Nat :=
  let all := tx.buffer_occupancy + tx.tx_sn_length.headerMinLength +
    maxLiOverhead tx.input_sdus.length
  if tx.nb_bytes_requested_by_mac ≥ all then all else tx.nb_bytes_requested_by_mac

/-- The plan of the next PDU, whose header without LIs takes `header` bytes. -/
def planOf (tx : Tx) (header : Nat) : Plan := planPdu (dataPduSize tx - header) 2 0 0 tx.input_sdus

/-- What is left of the fill loop. The block is fresh from the pool, and only its first bytes are
cleared. -/
def fillOf (tx : Tx) (header : Nat) (junk : Mem) : Fill :=
  let plan := planOf tx header
  fillPdu plan.test_num_li 2 tx.input_sdus
    { buffer_occupancy := tx.buffer_occupancy
      mem := junk.copy 0 [0, 0, 0, 0]
      data := header + (plan.test_num_li * 3 + 1) / 2
      e_li := header
      pdu_remaining_size := dataPduSize tx - header - plan.shrink }

/-- The FI field: 2 for a PDU that does not start with an SDU, 1 for one that does not end
with one. -/
def framingInfo (tx : Tx) (f : Fill) : Nat :=
  (if tx.input_sdus.head?.any fun x => x.sdu_remaining_size = x.sdu_size then 0 else 2) +
    if f.last_byte_is_last then 0 else 1

/-- The queue after a PDU has been filled. `vt_us` is a `uint16_t`. -/
def Tx.filled (tx : Tx) (f : Fill) : Tx :=
  { tx with
    vt_us := (tx.vt_us + 1) % 2 ^ 16
    input_sdus := f.input_sdus
    buffer_occupancy := f.buffer_occupancy }

/-- A PDU as the MAC gets it. -/
structure TbReq where
  data : Mem
  tb_size : Nat

def rlcUmSegment10 (tx : Tx) (junk : Mem) : Tx × Option TbReq :=
  if tx.nb_bytes_requested_by_mac < 3 ∨ tx.input_sdus = [] then (tx, none)
  else
    let f := fillOf tx 2 junk
    let b1 := UInt8.ofNat (framingInfo tx f * 8) ||| (if f.fill_num_li > 0 then 0x04 else 0) |||
      UInt8.ofNat (tx.vt_us / 256 % 4)
    (tx.filled f, some
      { data := (f.mem.set 0 b1).set 1 (UInt8.ofNat tx.vt_us)
        tb_size := dataPduSize tx - f.pdu_remaining_size })

/-- This one takes from `data_pdu_size` what the test loop takes from `pdu_remaining_size`. -/
def rlcUmSegment5 (tx : Tx) (junk : Mem) : Tx × Option TbReq :=
  if tx.nb_bytes_requested_by_mac < 2 ∨ tx.input_sdus = [] then (tx, none)
  else
    let f := fillOf tx 1 junk
    let b1 := UInt8.ofNat (framingInfo tx f * 64) ||| (if f.fill_num_li > 0 then 0x20 else 0) |||
      UInt8.ofNat (tx.vt_us % 32)
    (tx.filled f, some
      { data := f.mem.set 0 b1
        tb_size := dataPduSize tx - (planOf tx 1).sizeShrink - f.pdu_remaining_size })

def rlcUmGetPdus (tx : Tx) (junk : Mem) : Tx × Option TbReq :=
  match tx.tx_sn_length with
  | .ten => rlcUmSegment10 tx junk
  | .five => rlcUmSegment5 tx junk

end MacRlcSplit.Um
