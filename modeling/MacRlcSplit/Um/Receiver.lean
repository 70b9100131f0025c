-- The receiver (`rlc_um_dar.c`, `rlc_um_reassembly.c`): the window tests,
-- the reassembly of SDUs from the PDUs in `dar_buffer`, and what a UMD PDU
-- and t-Reordering do to the state variables.
import MacRlcSplit.Um.Entity

namespace MacRlcSplit.Um

open Am (Byte Mem Ctxt Timer MacTbInd)

/-! ## Windows -/

/-- A number counted from VR(UH) - UM_Window_Size, with the remainder of C: what is behind that
edge may be negative. -/
def Rx.fromEdge (rx : Rx) (x : Int) : Int := (x - ((rx.vr_uh : Int) - rx.windowSize)).tmod rx.modulo

/-- What `rlc_um_in_window` returns, from -2 to 3. -/
inductive InWindow where
  | belowLower
  | aboveHigher
  | inside
  | atLower
  | atHigher
  | atBoth
deriving DecidableEq, Repr

def rlcUmInWindow (rx : Rx) (lower sn higher : Int) : InWindow :=
  if rx.fromEdge lower > rx.fromEdge sn then .belowLower
  else if rx.fromEdge higher < rx.fromEdge sn then .aboveHigher
  else if rx.fromEdge lower = rx.fromEdge sn then
    if rx.fromEdge higher = rx.fromEdge sn then .atBoth else .atLower
  else if rx.fromEdge higher = rx.fromEdge sn then .atHigher
  else .inside

/-- Whether `rlc_um_in_reordering_window` returns 0. -/
def rlcUmInReorderingWindow (rx : Rx) (sn : Nat) : Bool :=
  0 ≤ rx.fromEdge sn && rx.fromEdge sn < rx.windowSize

/-! ## Headers -/

def SnLength.sn (n : SnLength) (m : Mem) : Nat :=
  match n with
  | .ten => (m 0).toNat % 4 * 256 + (m 1).toNat
  | .five => (m 0).toNat % 32

def SnLength.fi (n : SnLength) (m : Mem) : Nat :=
  match n with
  | .ten => (m 0).toNat / 8 % 4
  | .five => (m 0).toNat / 64

def SnLength.e (n : SnLength) (m : Mem) : Bool :=
  match n with
  | .ten => (m 0).toNat / 4 % 2 = 1
  | .five => (m 0).toNat / 32 % 2 = 1

/-- The loop of `rlc_um_read_length_indicators`, with room for `n` more pairs of LIs; a last pair
that is complete makes `RLC_UM_SEGMENT_NB_MAX_LI_PER_PDU`, and the return is negative. -/
def readLengthIndicators (m : Mem) : Nat → Nat → Option (List Nat)
  | 0, _ => none
  | n + 1, e_li =>
    let b1 := (m e_li).toNat
    let b2 := (m (e_li + 1)).toNat
    let b3 := (m (e_li + 2)).toNat
    let li1 := b1 % 128 * 16 + b2 / 16
    let li2 := b2 % 8 * 256 + b3
    if b1 / 128 = 0 then some [li1]
    else if n = 0 then none
    else if b2 / 8 % 2 = 0 then some [li1, li2]
    else (readLengthIndicators m n (e_li + 3)).map fun l => li1 :: li2 :: l

/-! ## Reassembly -/

/-- `reassembly_missing_sn_detected` is set or cleared. -/
def Output.setMissing (o : Output) (missing : Bool) : Output :=
  { o with reassembly_missing_sn_detected := missing }

def rlcUmClearRxSdu (o : Output) : Output := { o with output_sdu := [] }

def rlcUmReassembly (cfg : Config) (o : Output) (src : Mem) (off : Nat) (length : Int) : Output :=
  if length ≤ 0 then o
  else if o.output_sdu.length + length ≤ cfg.sduMaxSize then
    { o with output_sdu := o.output_sdu ++ src.read off length.toNat }
  -- SDU SIZE OVERFLOW SDU GARBAGED
  else { o with output_sdu := [] }

def rlcUmSendSdu (o : Output) : Output :=
  if o.output_sdu = [] then o
  else { o with output_sdu := [], delivered := o.delivered ++ [o.output_sdu] }

/-- The loop over the LIs of a PDU, each the end of an SDU. -/
def reassembleLis (cfg : Config) (src : Mem) : Nat → List Nat → Output → Output
  | _, [], o => o
  | j, l :: ls, o =>
    reassembleLis cfg src (j + l) ls (rlcUmSendSdu (rlcUmReassembly cfg o src j l))

/-- What is at the end of a PDU, which ends an SDU for FI 0 and 2. -/
def reassembleLast (cfg : Config) (o : Output) (fi : Nat) (src : Mem) (off : Nat)
    (length : Int) : Output :=
  let o := rlcUmReassembly cfg o src off length
  if fi % 2 = 0 then rlcUmSendSdu o else o

/-- The body of the loop of `rlc_um_try_reassembly` for a PDU. With FI 0 or 1 the payload starts
an SDU, and what was gathered goes; with FI 2 or 3 the first piece goes instead if an SN is
missing. A PDU whose LIs cannot be read is passed over. -/
def reassemblePdu (cfg : Config) (o : Output) (tb : MacTbInd) : Option Output :=
  let header := cfg.rx_sn_length.headerMinLength
  let size : Int := (tb.size % 2 ^ 16 : Nat) - (header : Int)
  let fi := cfg.rx_sn_length.fi tb.data
  let lost : Bool := fi ≥ 2 && o.reassembly_missing_sn_detected
  let started := if fi < 2 then rlcUmClearRxSdu o else o
  if cfg.rx_sn_length.e tb.data = false then
    if lost then some (started.setMissing (fi = 3))
    else some ((reassembleLast cfg started fi tb.data header size).setMissing false)
  else
    match readLengthIndicators tb.data 12 header with
    | none => some o
    | some lis =>
      let payload := header + (lis.length * 3 + 1) / 2
      let o := if lost then reassembleLis cfg tb.data (payload + lis.headD 0) lis.tail started
        else reassembleLis cfg tb.data payload lis started
      let size := size - (lis.sum + (lis.length * 3 + 1) / 2 : Nat)
      if size > 0 then
        some ((reassembleLast cfg o fi tb.data (payload + lis.sum) size).setMissing false)
      -- AssertFatal( 0 !=0, ...)
      else if fi = 3 then none
      else some (o.setMissing false)

/-- What one turn of the loop of `rlc_um_try_reassembly` does with a slot. -/
def visitSlot (cfg : Config) (o : Output) (sn : Nat) : Option MacTbInd → Option Output
  | some tb =>
    let o := if (o.last_reassemblied_sn + 1) % cfg.rx_sn_length.modulo ≠ sn then rlcUmClearRxSdu o
      else o
    reassemblePdu cfg { o with last_reassemblied_sn := sn } tb
  | none =>
    some { (rlcUmClearRxSdu o).setMissing true with last_reassemblied_missing_sn := sn }

/-- One turn of the loop, after which the slot is empty. -/
def visitSn (rx : Rx) (sn : Nat) : Option Rx :=
  (visitSlot rx.cfg rx.out sn (rx.dar_buffer sn)).map fun o =>
    { rx with out := o, dar_buffer := Function.update rx.dar_buffer sn none }

/-- The loop of `rlc_um_try_reassembly`, which meets `end_sn` within a turn of the circle. -/
def visitUntil (end_sn : Nat) : Nat → Nat → Rx → Option Rx
  | 0, _, _ => none
  | n + 1, sn, rx =>
    (visitSn rx sn).bind fun rx =>
      let sn := (sn + 1) % rx.modulo
      if sn = rx.vr_uh ∨ sn = end_sn then some rx else visitUntil end_sn n sn rx

/-- No caller of `rlc_um_try_reassembly` gives it a negative bound. -/
def rlcUmTryReassembly (rx : Rx) (start_sn end_sn : Nat) : Option Rx :=
  if start_sn = end_sn then some rx else visitUntil end_sn rx.modulo start_sn rx

/-! ## t-Reordering -/

/-- `rlc_um_start_timer_reordering`, which a running timer does not stop. -/
def startTimerReordering (t : Timer) (now : Nat) : Timer :=
  if t.ms_duration > 0 then
    { t with timed_out := false, running := true, ms_time_out :=
      (now + t.ms_duration) % 2 ^ 32, ms_start := now }
  else { t with timed_out := false }

/-- The walk of `rlc_um_check_timer_dar_time_out` to the first SN without a PDU. With a PDU in
every slot it would never end. -/
def firstMissing (rx : Rx) : Nat → Nat → Option Nat
  | 0, _ => none
  | n + 1, sn =>
    if (rx.dar_buffer sn).isSome then firstMissing rx n ((sn + 1) % rx.modulo) else some sn

def rlcUmCheckTimerDarTimeOut (rx : Rx) (ctxt : Ctxt) : Option Rx :=
  if rx.t_reordering.running ∧ rx.t_reordering.elapsed ctxt.ms then
    (firstMissing rx rx.modulo rx.vr_ux).bind fun vr_ur =>
      (rlcUmTryReassembly { rx with vr_ur := vr_ur } rx.vr_ur vr_ur).map fun rx =>
        if rlcUmInWindow rx rx.vr_ur rx.vr_uh rx.vr_uh = .atHigher then
          { rx with t_reordering := startTimerReordering rx.t_reordering ctxt.ms
                    vr_ux := rx.vr_uh }
        else { rx with t_reordering := rx.t_reordering.reset }
  else some rx

/-! ## A UMD PDU (`rlc_um_receive_process_dar`) -/

/-- VR(UH) - UM_Window_Size as an SN. -/
def Rx.edge (rx : Rx) : Nat :=
  if rx.vr_uh < rx.windowSize then rx.vr_uh + rx.modulo - rx.windowSize
  else rx.vr_uh - rx.windowSize

/-- An SN outside of the reordering window moves it, and what falls out is reassembled. -/
def moveWindow (rx : Rx) (sn : Nat) : Option Rx :=
  if rlcUmInReorderingWindow rx sn then some rx
  else
    let rx := { rx with vr_uh := (sn + 1) % rx.modulo }
    if rlcUmInReorderingWindow rx rx.vr_ur then some rx
    else (rlcUmTryReassembly rx rx.vr_ur rx.edge).map fun rx => { rx with vr_ur := rx.edge }

/-- The walk to the next SN without a PDU, which stops at VR(UH). -/
def nextMissing (rx : Rx) : Nat → Nat → Option Nat
  | 0, _ => none
  | n + 1, sn =>
    let sn := (sn + 1) % rx.modulo
    if (rx.dar_buffer sn).isSome ∧ sn ≠ rx.vr_uh then nextMissing rx n sn else some sn

/-- VR(UR) moves on only if the PDU just received is the one it waits for. -/
def moveVrUr (rx : Rx) (sn : Nat) : Option Rx :=
  if sn = rx.vr_ur ∧ (rx.dar_buffer rx.vr_ur).isSome then
    (nextMissing rx rx.modulo rx.vr_ur).bind fun vr_ur =>
      rlcUmTryReassembly { rx with vr_ur := vr_ur } sn vr_ur
  else some rx

/-- t-Reordering after a PDU: it is stopped twice over, and started. -/
def reordering (rx : Rx) (ctxt : Ctxt) : Rx :=
  let t := if rx.t_reordering.running ∧ rx.vr_uh ≠ rx.vr_ux ∧
      rlcUmInReorderingWindow rx rx.vr_ux = false then rx.t_reordering.reset
    else rx.t_reordering
  let place := rlcUmInWindow rx rx.vr_ur rx.vr_ux rx.vr_uh
  let t := if t.running ∧ (place = .belowLower ∨ place = .atLower) then t.reset else t
  if t.running = false ∧ rlcUmInWindow rx rx.vr_ur rx.vr_uh rx.vr_uh = .atHigher then
    { rx with t_reordering := startTimerReordering t ctxt.ms, vr_ux := rx.vr_uh }
  else { rx with t_reordering := t }

/-- A PDU that is not dropped takes its slot, whatever was there. -/
def placed (rx : Rx) (ctxt : Ctxt) (tb : MacTbInd) (sn : Nat) : Option Rx :=
  (moveWindow { rx with dar_buffer := Function.update rx.dar_buffer sn (some tb) } sn).bind
    fun rx => (moveVrUr rx sn).map fun rx => reordering rx ctxt

def rlcUmReceiveProcessDar (rx : Rx) (ctxt : Ctxt) (tb : MacTbInd) : Option Rx :=
  let sn := rx.cfg.rx_sn_length.sn tb.data
  let place := rlcUmInWindow rx ((rx.vr_uh : Int) - rx.windowSize) sn rx.vr_ur
  if place = .atLower ∨ place = .inside then some rx
  else if (rx.dar_buffer sn).isSome ∧ rlcUmInWindow rx rx.vr_ur sn rx.vr_uh = .inside then some rx
  else placed rx ctxt tb sn

end MacRlcSplit.Um
