-- Sending again: an AMD PDU segment cut from a PDU that is held
-- (`rlc_am_retransmit_get_subsegment`), and the PDU that is sent when
-- t-PollRetransmit has expired (`rlc_am_retransmit_any_pdu`).
import MacRlcSplit.Am.Retransmit

namespace MacRlcSplit.Am

/-! ## The LIs of a segment -/

/-- The variables of the loop over the LIs of the original PDU. `first` and `last` are the
two bits of `not_test_fi`, and `li` is the length that the next LI would take. -/
structure Cut where
  remaining : Int
  max : Int
  start : Int
  copy : Int := 0
  li_sum : Int := 0
  li_list : List Nat := []
  li : Nat := 2
  first : Bool
  last : Bool := false
  continue_fill : Bool := true

/-- One turn of the loop; `none` where an assertion fails. -/
def cutLi (c : Cut) (l : Nat) : Option Cut :=
  let max := min c.max c.remaining
  let sum := c.li_sum + l
  let c := { c with max := max, li_sum := sum }
  if max < 0 ∨ c.remaining < 0 then none
  else if c.start < sum then
    if max + c.start < sum then
      if max > 0 then
        some { c with continue_fill := false, copy := c.copy + max, start := c.start + max
                      last := false, max := 0 }
      else none
    else if max + c.start = sum then
      if max > 0 then
        some { c with continue_fill := false, copy := c.copy + max, start := c.start + max
                      last := true, max := 0 }
      else none
    else if max + c.start - c.li > sum then
      some { c with li_list := c.li_list ++ [(sum - c.start).toNat], copy := c.copy + sum - c.start
                    remaining := c.remaining - sum + c.start - c.li
                    max := max - sum + c.start - c.li, li := 3 - c.li, start := sum }
    else
      some { c with continue_fill := false, copy := c.copy + sum - c.start
                    remaining := c.remaining - sum + c.start, max := max - sum + c.start
                    start := sum, last := true }
  else if c.start = sum ∧ c.li_list = [] ∧ c.copy = 0 then some { c with first := true }
  else some c

def cutLis : List Nat → Cut → Option Cut
  | [], c => some c
  | l :: ls, c => if c.continue_fill then (cutLi c l).bind (cutLis ls) else some c

/-- What comes after the last LI. -/
def cutHidden (c : Cut) (hidden_size : Int) (orig_last : Bool) : Cut :=
  if c.continue_fill ∧ hidden_size > 0 ∧ c.remaining > 0 ∧ c.max > 0 then
    let max := min c.max c.remaining
    if max + c.start ≥ hidden_size + c.li_sum then
      { c with max := max, copy := c.copy + (hidden_size + c.li_sum - c.start)
               start := hidden_size + c.li_sum, last := orig_last }
    else { c with max := max, copy := c.copy + max, start := c.start + max, last := false }
  else c

/-- The LIs of the segment, each with where it and the payload after it start. -/
def writeLis : List Nat → Nat → Mem → Nat → Mem × Nat
  | [], _, m, e_li => (m, e_li)
  | [l], li, m, e_li => (writeLi m e_li li l true, if li = 2 then e_li + 2 else e_li + 3)
  | l :: ls, li, m, e_li =>
    writeLis ls (3 - li) (writeLi m e_li li l false) (if li = 2 then e_li else e_li + 3)

def liBytes (n : Nat) : Nat := (n * 3 + 1) / 2

/-! ## The segment -/

/-- The hole that is sent next, and how much of it there is room for, `size` being the grant
without the fixed part of the header. -/
def cutHole (p : TxPdu) (info : PduInfo) (size : Int) : Option Cut :=
  let (start, stop) := rlcAmGetNextHole p
  let max := stop - start + 1
  if max ≤ 0 ∨ size ≤ 0 then none
  else
    let max := min max size
    let c : Cut := { remaining := size, max := max, start := start
                     first := start = 0 ∧ info.fi / 2 = 0 }
    if info.li_list = [] then
      some { c with copy := max
                    last := stop = start + max - 1 ∧ stop = (p.payload_size : Int) - 1 ∧
                      info.fi % 2 = 0 }
    else
      (cutLis info.li_list c).map fun c => cutHidden c info.hidden_size (info.fi % 2 = 0)

/-- The bytes of the segment, and how many. The SO is `nack_so_start`, and the block is fresh
from the pool. -/
def segmentOf (p : TxPdu) (orig junk : Mem) (c : Cut) : Mem × Nat :=
  let start := (rlcAmGetNextHole p).1
  let so := p.nack_so_start.toNat
  let fi := (if c.first then 0 else 2) + if c.last then 0 else 1
  let b1 := (orig 0 &&& 0x83) ||| 0x40 ||| UInt8.ofNat (fi * 8) |||
    if c.li_list = [] then 0 else 0x04
  let lsf : Byte := if c.copy + start = p.payload_size then 0x80 else 0
  let m := (((junk.set 0 b1).set 1 (orig 1)).set 2 (UInt8.ofNat (so / 256) ||| lsf)).set 3
    (UInt8.ofNat so)
  let (m, payload) := writeLis c.li_list 2 m 4
  (m.copy payload (orig.read (p.payload + start.toNat) c.copy.toNat), payload + c.copy.toNat)

/-- `rlc_am_retransmit_get_subsegment`: the segment and its size. `none` is also a PDU that is
not held (an assertion) or cannot be read (the callers go through the null pointer). -/
def retransmitGetSubsegment (s : Entity) (ctxt : Ctxt) (sn : Nat)
    (junk : Mem) : Option (Entity × Mem × Nat) :=
  let p := s.retrans.pdu_retrans_buffer sn
  p.mem_block.bind fun orig =>
  (rlcAmGetDataPduInfos orig p.header_and_payload_size).bind fun info =>
    let p := if p.nack_so_stop = 0x7FFF then { p with nack_so_stop := (p.payload_size : Int) - 1 }
      else p
    (cutHole p info (s.nb_bytes_requested_by_mac - 4)).bind fun c =>
      if c.copy < 0 then none
      else
        let start := (rlcAmGetNextHole p).1
        let (m, size) := segmentOf p orig junk c
        let p := if c.copy + start = p.payload_size then { p with retransmit := false } else p
        (rlcAmRemoveHole p start (c.copy + start - 1)).map fun p =>
          let (s, m) := pduPolling
            { s with
              retrans := s.retrans.set sn p
              nb_bytes_requested_by_mac := s.nb_bytes_requested_by_mac - 4 -
                liBytes c.li_list.length - c.copy }
            ctxt m c.copy.toNat
          (s, m, size)

/-! ## After t-PollRetransmit -/

/-- The loop of `rlc_am_retransmit_any_pdu`, `n` SNs downwards from `sn`: the first PDU that
is held and fits the grant, or else the first one that is held. -/
def findAny (r : Retrans) (grant : Int) : Nat → Nat → Option Nat → Option (Nat × Bool)
  | 0, _, found => found.map fun sn => (sn, false)
  | n + 1, sn, found =>
    let p := r.pdu_retrans_buffer sn
    if p.mem_block.isSome then
      if (p.header_and_payload_size : Int) ≤ grant then some (sn, true)
      else findAny r grant n ((sn + 1023) % 1024) (found <|> some sn)
    else findAny r grant n ((sn + 1023) % 1024) found

/-- The poll that goes with it. -/
def forcePoll (s : Entity) (ctxt : Ctxt) (pdu : Mem) (size : Nat) : Entity × Mem :=
  let (s, pdu) := pduPolling s ctxt pdu size
  ({ s with poll := { s.poll with
      c_pdu_without_poll := 0, c_byte_without_poll := 0
      t_poll_retransmit := s.poll.t_poll_retransmit.start ctxt.ms } },
    pdu.set 0 (pdu 0 ||| 0x20))

def retransmitAnyPdu (s : Entity) (ctxt : Ctxt) (junk : Mem) : Option (Entity × List (List Byte)) :=
  let r := s.retrans
  match findAny r s.nb_bytes_requested_by_mac (shifted r.vt_s r.vt_a) ((r.vt_s + 1023) % 1024)
    none with
  | none => some (s, [])
  | some (sn, true) =>
    let size := (r.pdu_retrans_buffer sn).header_and_payload_size
    (rlcAmNackPdu s ctxt sn 0 0x7FFF).bind fun s =>
      let (s, copy) := retransmitGetCopy s ctxt sn
      copy.map fun pdu =>
        let (s, pdu) := forcePoll s ctxt pdu size
        (s, [pdu.read 0 size])
  | some (sn, false) =>
    if s.nb_bytes_requested_by_mac > 4 then
      (rlcAmNackPdu s ctxt sn 0 0x7FFF).bind fun s =>
        (retransmitGetSubsegment s ctxt sn junk).map fun (s, pdu, size) =>
          let (s, pdu) := forcePoll s ctxt pdu
            (r.pdu_retrans_buffer sn).header_and_payload_size
          (s, [pdu.read 0 size])
    else some (s, [])

end MacRlcSplit.Am
