-- The receiver: the window tests, the sorted list of received PDUs, the
-- reassembly of SDUs, and what a data PDU and t-Reordering do to the state
-- variables.
import MacRlcSplit.Am.Retransmit

namespace MacRlcSplit.Am

/-! ## Windows -/

def rlcAmInRxWindow (rx : Rx) (sn : Nat) : Bool :=
  sn < 1024 ∧ shifted sn rx.vr_r < shifted rx.vr_mr rx.vr_r

def rlcAmSnGteVrH (rx : Rx) (sn : Nat) : Bool :=
  sn < 1024 ∧ shifted sn rx.vr_r ≥ shifted rx.vr_h rx.vr_r

def rlcAmSnGteVrX (rx : Rx) (sn : Nat) : Bool :=
  sn < 1024 ∧ shifted sn rx.vr_r ≥ shifted rx.vr_x rx.vr_r

def rlcAmSnGtVrMs (rx : Rx) (sn : Nat) : Bool :=
  sn < 1024 ∧ shifted sn rx.vr_r > shifted rx.vr_ms rx.vr_r

/-! ## The receive list (`rlc_am_rx_list.c`)

`rlc_am_rx_list_insert_pdu` gives the elements before and after the new one, or `none` where
it returns a negative value. -/

/-- The last byte of a segment, as the overlap tests compute it. -/
def PduInfo.lastByte (x : PduInfo) : Int := x.so + x.payload_size - 1

/-- The new PDU `x` comes before an element with a greater SN. `prev` is the element before
that one. -/
def dropBefore (x : PduInfo) (prev : Option RxPdu) : Bool :=
  match prev with
  | none => false
  | some c => c.info.sn = x.sn ∧ (x.rf ≠ c.info.rf ∨ (x.rf ∧ c.info.lastByte ≥ x.so))

/-- What to do with the new PDU at an element with the same SN. -/
inductive Same where
  | insert
  | drop
  | next
deriving DecidableEq, Repr

/-- The test at an element `c` with the SN of the new PDU, on the way forward. -/
def sameForward (x : PduInfo) (prev : Option RxPdu) (c : PduInfo) : Same :=
  if c.rf = false then .drop
  else if x.rf then
    if x.lastByte < c.so then
      match prev with
      | none => .insert
      | some p => if p.info.sn = c.sn ∧ p.info.lastByte ≥ x.so then .drop else .insert
    else if x.so ≤ c.so then .drop else .next
  else .drop

/-- The same on the way backward, where `prev` is the element after `c`. -/
def sameBackward (x : PduInfo) (prev : Option RxPdu) (c : PduInfo) : Same :=
  if c.rf = false then .drop
  else if x.rf then
    if c.lastByte < x.so then
      match prev with
      | none => .insert
      | some p => if p.info.sn = c.sn ∧ x.lastByte ≥ p.info.so then .drop else .insert
    else if c.so ≤ x.so then .drop else .next
  else .drop

/-- The end of the list in the wrapped case: whether the new PDU is added to the tail, `c`
being the last element looked at. -/
def addsTail (x c : PduInfo) : Bool :=
  c.rf = false || if x.rf && c.rf && x.sn = c.sn then c.lastByte < x.so else x.sn ≠ c.sn

/-- VR(MR) > VR(R). `pre` holds the elements already passed, latest first. -/
def insertPlain (x : PduInfo) : List RxPdu → List RxPdu → Option (List RxPdu × List RxPdu)
  | pre, [] =>
    match pre with
    | [] => some ([], [])
    | c :: _ =>
      if x.sn = c.info.sn ∧ c.info.lastByte ≥ x.so then none else some (pre.reverse, [])
  | pre, c :: l =>
    if x.sn < c.info.sn then
      if dropBefore x pre.head? then none else some (pre.reverse, c :: l)
    else if x.sn = c.info.sn then
      match sameForward x pre.head? c.info with
      | .insert => some (pre.reverse, c :: l)
      | .drop => none
      | .next => insertPlain x (c :: pre) l
    else insertPlain x (c :: pre) l

/-- VR(MR) < VR(R) and SN >= VR(R): the way from the head, through the SNs from VR(R) on. -/
def insertHigh (vr_r : Nat) (x : PduInfo) : List RxPdu → List RxPdu →
    Option (List RxPdu × List RxPdu)
  | pre, [] =>
    match pre with
    | [] => some ([], [])
    | c :: _ => if addsTail x c.info then some (pre.reverse, []) else none
  | pre, c :: l =>
    if c.info.sn < vr_r then some (pre.reverse, c :: l)
    else if x.sn < c.info.sn then
      if dropBefore x pre.head? then none else some (pre.reverse, c :: l)
    else if x.sn = c.info.sn then
      match sameForward x pre.head? c.info with
      | .insert => some (pre.reverse, c :: l)
      | .drop => none
      | .next => insertHigh vr_r x (c :: pre) l
    else insertHigh vr_r x (c :: pre) l

/-- VR(MR) < VR(R) and SN < VR(R): the way from the tail, through the SNs below VR(R). The
list is reversed, and `post` holds the elements already passed. -/
def insertLow (vr_r : Nat) (x : PduInfo) : List RxPdu → List RxPdu →
    Option (List RxPdu × List RxPdu)
  | post, [] =>
    match post with
    | [] => some ([], [])
    -- the head has been passed, and the PDU is added to the tail
    | c :: _ => if addsTail x c.info then some (post, []) else none
  | post, c :: l =>
    if c.info.sn ≥ vr_r then some ((c :: l).reverse, post)
    else if x.sn > c.info.sn then
      -- the test compares the element after `c` with `c`, not with the new PDU
      match post.head? with
      | some p =>
        if p.info.sn = c.info.sn ∧ (x.rf ≠ p.info.rf ∨ (x.rf ∧ x.lastByte ≥ p.info.so)) then none
        else some ((c :: l).reverse, post)
      | none => some ((c :: l).reverse, post)
    else if x.sn = c.info.sn then
      match sameBackward x post.head? c.info with
      | .insert => some ((c :: l).reverse, post)
      | .drop => none
      | .next => insertLow vr_r x (c :: post) l
    else insertLow vr_r x (c :: post) l

def rlcAmRxListInsertPdu (rx : Rx) (x : PduInfo) : Option (List RxPdu × List RxPdu) :=
  if rx.vr_mr < rx.vr_r then
    if x.sn ≥ rx.vr_r then insertHigh rx.vr_r x [] rx.receiver_buffer
    else insertLow rx.vr_r x [] rx.receiver_buffer.reverse
  else insertPlain x [] rx.receiver_buffer

/-! ## Completeness -/

/-- The loop of `rlc_am_rx_check_all_byte_segments` after the first segment: whether
`rlc_am_rx_mark_all_segments_received` is called. -/
def allContiguous (sn : Nat) (last_end_so : Int) : List RxPdu → Bool
  | [] => false
  | c :: l =>
    c.info.sn = sn && c.info.rf && decide ((c.info.so : Int) ≤ last_end_so) &&
      (c.info.lsf || allContiguous sn (c.info.so + c.info.payload_size) l)

/-- `rlc_am_rx_mark_all_segments_received` from the first segment on. -/
def markAll (sn : Nat) : List RxPdu → List RxPdu
  | [] => []
  | c :: l => if c.info.sn = sn then { c with all_segments_received := true } :: markAll sn l
    else c :: l

/-- `rlc_am_rx_check_all_byte_segments` for an element `tb` between `pre` and `post`: the list
in three parts, with the flags set. The way back to the first segment splits `pre`. -/
def rlcAmRxCheckAllByteSegments (pre : List RxPdu) (tb : RxPdu)
    (post : List RxPdu) : List RxPdu × List RxPdu :=
  if tb.info.rf = false then (pre, { tb with all_segments_received := true } :: post)
  else
    let group := (pre.reverse.takeWhile fun c => c.info.sn = tb.info.sn).reverse
    let before := (pre.reverse.dropWhile fun c => c.info.sn = tb.info.sn).reverse
    let first := (group ++ [tb]).headD tb
    let rest := (group ++ tb :: post).tail
    if first.info.so = 0 ∧ allContiguous tb.info.sn first.info.payload_size rest then
      let marked := markAll tb.info.sn (group ++ tb :: post)
      (before ++ marked.take group.length, marked.drop group.length)
    else (pre, tb :: post)

/-! ## State variables (`rlc_am_receiver.c`) -/

/-- The loop of `rlc_am_rx_update_vr_ms`: the first SN not completely received, or the one
after the last. `vr_ms` is what it is so far. -/
def updateVrMs (vr_ms : Nat) : List RxPdu → Nat
  | [] => vr_ms
  | c :: l =>
    if c.all_segments_received then updateVrMs ((c.info.sn + 1) % 1024) l else c.info.sn

def updateVrR (vr_r : Nat) : List RxPdu → Nat
  | [] => vr_r
  | c :: l =>
    if c.all_segments_received = false ∨ vr_r ≠ c.info.sn then vr_r
    else updateVrR (if c.info.rf = false ∨ c.info.lsf then (vr_r + 1) % 1024 else vr_r) l

/-! ## Reassembly (`rlc_am_reassembly.c`) -/

/-- `rlc_am_reassembly`. A negative length makes `memcpy` run away. -/
def reassembly (rx : Rx) (src : Mem) (off : Nat) (length : Int) : Option Rx :=
  let sdu := rx.output_sdu_in_construction.getD []
  if (sdu.length : Int) + length ≤ 9000 then
    if length < 0 then none
    else some { rx with output_sdu_in_construction := some (sdu ++ src.read off length.toNat) }
  else some { rx with output_sdu_in_construction := some [] }

/-- `rlc_am_send_sdu`. An allocated SDU without a byte is fatal. -/
def rlcAmSendSdu (rx : Rx) : Option Rx :=
  match rx.output_sdu_in_construction with
  | none => some rx
  | some [] => none
  | some sdu =>
    some { rx with output_sdu_in_construction := none, delivered := rx.delivered ++ [sdu] }

/-- The loop over the LIs of a PDU, each the end of an SDU, `j` bytes into the payload. -/
def reassembleLis (src : Mem) : Nat → List Nat → Rx → Option (Rx × Nat)
  | j, [], rx => some (rx, j)
  | j, l :: ls, rx =>
    (reassembly rx src j l).bind fun rx => (rlcAmSendSdu rx).bind (reassembleLis src (j + l) ls)

/-- `rlc_am_reassemble_pdu`. With FI 0 or 1 the payload starts an SDU, with FI 0 or 2 it ends
one. -/
def rlcAmReassemblePdu (rx : Rx) (c : RxPdu) : Option Rx :=
  let x := c.info
  (if x.fi < 2 then rlcAmSendSdu rx else some rx).bind fun rx =>
    if x.e then
      (reassembleLis c.data x.payload x.li_list rx).bind fun (rx, j) =>
        if x.hidden_size > 0 then
          (reassembly rx c.data j x.hidden_size).bind fun rx =>
            if x.fi % 2 = 0 then rlcAmSendSdu rx else some rx
        else some rx
    else
      (reassembly rx c.data x.payload x.payload_size).bind fun rx =>
        if x.fi % 2 = 0 then rlcAmSendSdu rx else some rx

/-- `rlc_am_rx_list_reassemble_rlc_sdus`: complete PDUs leave the head of the list as long as
the next one follows. -/
def reassembleRlcSdus : List RxPdu → Rx → Option Rx
  | [], rx => some { rx with receiver_buffer := [] }
  | c :: l, rx =>
    if c.all_segments_received then
      (rlcAmReassemblePdu rx c).bind fun rx =>
        match l with
        | [] => some { rx with receiver_buffer := [] }
        | d :: l' =>
          if d.info.sn = (c.info.sn + 1) % 1024 ∨
            (d.info.sn = c.info.sn ∧ d.all_segments_received) then
            reassembleRlcSdus (d :: l') rx
          else some { rx with receiver_buffer := d :: l' }
    else some { rx with receiver_buffer := c :: l }

/-! ## A data PDU -/

/-- What follows the insertion of `tb`: VR(H), completeness, VR(MS), VR(R), VR(MR), and the
SDUs that can be delivered. -/
def rxPlaced (rx : Rx) (pre : List RxPdu) (tb : RxPdu) (post : List RxPdu) : Option Rx :=
  let sn := tb.info.sn
  let vr_h := if rlcAmSnGteVrH rx sn then (sn + 1) % 1024 else rx.vr_h
  let (pre, from_tb) := rlcAmRxCheckAllByteSegments pre tb post
  let complete := (from_tb.headD tb).all_segments_received
  let vr_ms := if sn = rx.vr_ms ∧ complete then updateVrMs rx.vr_ms from_tb else rx.vr_ms
  let rx' := { rx with receiver_buffer := pre ++ from_tb, vr_h := vr_h, vr_ms := vr_ms }
  if sn = rx.vr_r then
    let vr_r := updateVrR rx.vr_r from_tb
    reassembleRlcSdus (pre ++ from_tb)
      (if complete then { rx' with vr_r := vr_r, vr_mr := (vr_r + 512) % 1024 } else rx')
  else some rx'

/-- The end of `rlc_am_receive_process_data_pdu`: t-Reordering. -/
def rxReordering (rx : Rx) (ctxt : Ctxt) (sn : Nat) : Rx :=
  let t := if rx.t_reordering.running ∧ (rx.vr_x = rx.vr_r ∨
      (rlcAmInRxWindow rx sn = false ∧ rx.vr_x ≠ rx.vr_mr)) then rx.t_reordering.reset
    else rx.t_reordering
  if !t.running && rx.vr_h ≠ rx.vr_r then
    { rx with t_reordering := t.start ctxt.ms, vr_x := rx.vr_h }
  else { rx with t_reordering := t }

def rlcAmReceiveProcessDataPdu (rx : Rx) (ctxt : Ctxt) (tb : MacTbInd) : Option Rx :=
  match rlcAmGetDataPduInfos tb.data (tb.size % 2 ^ 16 : Nat) with
  | none => some rx
  | some x =>
    if rlcAmInRxWindow rx x.sn then
      let rx := { rx with status_requested := rx.status_requested || x.p }
      match rlcAmRxListInsertPdu rx x with
      | none => some { rx with status_requested := true }
      | some (pre, post) =>
        (rxPlaced rx pre { info := x, data := tb.data } post).map fun rx =>
          rxReordering rx ctxt x.sn
    else some { rx with status_requested := true }

/-! ## Timers -/

/-- The loop of `rlc_am_check_timer_reordering` over the list. -/
def reorderingVrMs (rx : Rx) (vr_ms : Nat) : List RxPdu → Nat
  | [] => vr_ms
  | c :: l =>
    if rlcAmSnGteVrX rx c.info.sn ∧ c.all_segments_received = false then c.info.sn
    else reorderingVrMs rx ((c.info.sn + 1) % 1024) l

/-- `rlc_am_check_timer_reordering`. The timer is not started again: only `ms_time_out` is. -/
def rlcAmCheckTimerReordering (rx : Rx) (ctxt : Ctxt) : Rx :=
  if rx.t_reordering.running ∧ rx.t_reordering.elapsed ctxt.ms then
    let rx := { rx with
      t_reordering := { rx.t_reordering with running := false, timed_out := true }
      vr_ms := reorderingVrMs rx rx.vr_ms rx.receiver_buffer
      status_requested := true }
    if rlcAmSnGtVrMs rx rx.vr_h then
      { rx with
        vr_x := rx.vr_h
        t_reordering := { rx.t_reordering with
          ms_time_out := (ctxt.ms + rx.t_reordering.ms_duration) % 2 ^ 32 } }
    else rx
  else rx

def rlcAmCheckTimerStatusProhibit (rx : Rx) (ctxt : Ctxt) : Rx :=
  if rx.t_status_prohibit.ms_duration > 0 ∧ rx.t_status_prohibit.running ∧
    rx.t_status_prohibit.elapsed ctxt.ms then
    { rx with t_status_prohibit := rx.t_status_prohibit.reset }
  else rx

end MacRlcSplit.Am
