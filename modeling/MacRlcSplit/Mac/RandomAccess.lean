-- Random access at the eNB: the processes of `RA_template` from the preamble to
-- the acknowledgement of Msg4, through `initiate_ra_proc`, `fill_rar`, `rx_sdu`,
-- `schedule_RA`, `cancel_ra_proc` and `rrc_mac_remove_ue`.
import MacRlcSplit.Mac.Attribution

namespace MacRlcSplit.Mac

open Am List

/-! ## The state -/

def NOT_A_RNTI : Nat := 0

def P_RNTI : Nat := 0xFFFE

def SI_RNTI : Nat := 0xFFFF

abbrev RaSlot := Nat × Fin NB_RA_PROC_MAX

/-- The fields of `RA_TEMPLATE` that uplink blocks do not use. -/
structure RaFields where
  generate_rar : Bool := false
  timing_offset : Int := 0
  RA_rnti : Nat := 0
  preamble_index : Nat := 0
  RRC_timer : Nat := 0

/-- The eNB with its random access processes. A process has a number from its preamble on, so that
the history can tell which one had its Msg4 sent, acknowledged or was given up. -/
structure RaEnb where
  enb : Enb
  ra : RaSlot → RaFields := fun _ => {}
  started : Nat := 0
  proc : RaSlot → Nat := fun _ => 0
  /-- The UE of the last Msg3 of a process. -/
  owner : Nat → Option Nat := fun _ => none
  sent : List Nat := []
  /-- With the UE that was marked configured. -/
  acked : List (Nat × Nat) := []
  dropped : List Nat := []

namespace RaEnb

variable (s : RaEnb)

def template (x : RaSlot) : RaTemplate := s.enb.RA_template x.1 x.2

def modify (x : RaSlot) (f : RaTemplate → RaTemplate) (g : RaFields → RaFields) : RaEnb :=
  { s with
    enb := s.enb.modifyRa x.1 x.2 f
    ra := Function.update s.ra x (g (s.ra x)) }

/-- The process waits for a message, or for the acknowledgement of its Msg4. -/
def InUse (x : RaSlot) : Prop := (s.template x).RA_active = true ∨
    (s.template x).wait_ack_Msg4 = true

instance (x : RaSlot) : Decidable (s.InUse x) := inferInstanceAs (Decidable (_ ∨ _))

/-- `wait_ack_Msg4`, as `schedule_RA` looks at it. -/
def Awaiting (x : RaSlot) : Prop := (s.template x).RA_active = false ∧
    (s.template x).wait_ack_Msg4 = true

instance (x : RaSlot) : Decidable (s.Awaiting x) := inferInstanceAs (Decidable (_ ∧ _))

/-! ## Preambles and responses -/

/-- The place that a preamble gets. -/
def freeProc (CC_id : Nat) : Option (Fin NB_RA_PROC_MAX) :=
  (finRange NB_RA_PROC_MAX).find? fun i => !(s.enb.RA_template CC_id i).RA_active

def startTemplate (rnti : Nat) (ra : RaTemplate) : RaTemplate :=
  { ra with RA_active := true, generate_Msg4 := false, wait_ack_Msg4 := false, rnti := rnti }

def start (x : RaSlot) (preamble_index : Nat) (timing_offset : Int) (RA_rnti rnti : Nat) : RaEnb :=
  { s.modify x (startTemplate rnti) fun f =>
      { f with
        generate_rar := true
        timing_offset := timing_offset
        RA_rnti := RA_rnti
        preamble_index := preamble_index } with
    started := s.started + 1
    proc := Function.update s.proc x (s.started + 1) }

/-- `initiate_ra_proc`, with the value that `taus` gives. -/
def initiateRaProc (CC_id preamble_index : Nat) (timing_offset : Int)
    (subframe f_id taus : Nat) : RaEnb :=
  match s.freeProc CC_id with
  | none => s
  | some i => s.start (CC_id, i) preamble_index timing_offset (1 + subframe + 10 * f_id)
      (taus % 2 ^ 16)

/-- `fill_rar`, as far as it changes a process. -/
def fillRar (CC_id : Nat) : RaEnb :=
  match (finRange NB_RA_PROC_MAX).find? fun i => (s.ra (CC_id, i)).generate_rar with
  | none => s
  | some i => s.modify (CC_id, i) id fun f =>
    { f with generate_rar := false, timing_offset := f.timing_offset.tdiv 16 }

/-! ## Giving up -/

def resetTemplate (ra : RaTemplate) : RaTemplate :=
  { ra with RA_active := false, generate_Msg4 := false, wait_ack_Msg4 := false, rnti := NOT_A_RNTI }

def resetFields (f : RaFields) : RaFields :=
  { f with generate_rar := false, timing_offset := 0, RRC_timer := 20 }

def reset (x : RaSlot) : RaEnb :=
  { s.modify x resetTemplate resetFields with
    dropped := if s.InUse x then s.dropped ++ [s.proc x] else s.dropped }

/-- `cancel_ra_proc`: every process of the carrier with the RNTI. -/
def cancelRaProc (CC_id rnti : Nat) : RaEnb := (finRange NB_RA_PROC_MAX).foldl
    (fun s i => if (s.template (CC_id, i)).rnti = rnti then s.reset (CC_id, i) else s) s

end RaEnb

/-- What `rrc_mac_remove_ue` does to the UE. -/
def Enb.removeUe (e : Enb) (UE_id : Nat) : Enb :=
  { e.modifyTemplate (e.pCC_id UE_id) UE_id fun t =>
    { t with bsr_info := fun _ => 0, rnti := NOT_A_RNTI } with
    UE_list := e.UE_list.erase UE_id
    avail := UE_id :: e.avail }

namespace RaEnb

variable (s : RaEnb)

/-- `rrc_mac_remove_ue`: the UE, and the first active process with its RNTI. -/
def rrcMacRemoveUe (rnti : Nat) : RaEnb :=
  match s.enb.findUeId rnti with
  | none => s
  | some UE_id =>
    let s' := { s with enb := s.enb.removeUe UE_id }
    match (finRange NB_RA_PROC_MAX).find? fun i =>
      (s.enb.RA_template (s.enb.pCC_id UE_id) i).RA_active &&
        (s.enb.RA_template (s.enb.pCC_id UE_id) i).rnti == rnti with
    | none => s'
    | some i => s'.reset (s.enb.pCC_id UE_id, i)

/-! ## Msg3 -/

/-- The block has a CCCH SDU that `rx_sdu` looks at. -/
def hasCcch (sdu : Option Mem) (size : Nat) : Bool :=
  match sdu with
  | none => false
  | some block =>
    match parseUlschHeader block size with
    | none => false
    | some p => p.sdus.any fun x => decide (x.1 = CCCH ∧ x.2 ≤ CCCH_PAYLOAD_SIZE_MAX)

/-- `rx_sdu`. The CCCH SDU of a block is the Msg3 of the processes that wait under the RNTI. -/
def rxSdu (CC_id frame rnti harq_pid : Nat) (sdu : Option Mem) (size : Nat)
    (msg3_flag : Option Bool) : Option RaEnb :=
  (RxRun.rxSdu CC_id frame rnti harq_pid s.enb sdu size msg3_flag).map fun r =>
    { s with
      enb := r.enb
      owner := fun k =>
        if hasCcch sdu size ∧ ∃ i, ((s.template (CC_id, i)).rnti = rnti ∧
            (s.template (CC_id, i)).RA_active) ∧ s.proc (CC_id, i) = k then r.UE_id
        else s.owner k }

/-! ## Msg4 -/

/-- What `schedule_RA` is told about a process: the length of the RRC message (-1 if there is none),
whether there are CCEs, and the HARQ round of the UE. -/
structure Input where
  rrc_sdu_length : Int
  feasible : Bool
  round : Nat

/-- The Msg4 of a process is sent. -/
def sendMsg4 (x : RaSlot) : RaEnb :=
  { s.modify x (fun ra =>
    { ra with generate_Msg4 := false, wait_ack_Msg4 := true, RA_active := false }) id with
    sent := s.sent ++ [s.proc x] }

/-- The Msg4 of a process is acknowledged, and a UE is configured. -/
def ackMsg4 (x : RaSlot) (UE_id : Nat) : RaEnb :=
  let s' := s.modify x (fun ra => { ra with wait_ack_Msg4 := false, RA_active := false }) id
  { s' with
    enb := s'.enb.modifyTemplate (s.enb.pCC_id UE_id) UE_id fun t => { t with configured := true }
    acked := s.acked ++ [(s.proc x, UE_id)] }

/-- The turn of `schedule_RA` for one process. Without a UE it writes behind its arrays. -/
def scheduleProc (input : RaSlot → Input) (x : RaSlot) : Option RaEnb :=
  let ra := s.template x
  if ra.RA_active then
    if (s.ra x).generate_rar then some s
    else if ra.generate_Msg4 then
      if s.enb.Is_rrc_registered ∧ (input x).rrc_sdu_length = -1 then none
      else if (input x).rrc_sdu_length > 0 ∧ (input x).feasible then
        (s.enb.findUeId ra.rnti).map fun _ => s.sendMsg4 x
      else some s
    else some s
  else if ra.wait_ack_Msg4 then
    if (input x).round > 0 then some s
    else (s.enb.findUeId ra.rnti).map fun UE_id => s.ackMsg4 x UE_id
  else some s

/-- The processes, in the order of the loops. -/
def slots (MAX_NUM_CCs : Nat) : List RaSlot :=
  (List.range MAX_NUM_CCs).flatMap fun CC_id => (finRange NB_RA_PROC_MAX).map fun i => (CC_id, i)

def scheduleRa (MAX_NUM_CCs : Nat) (input : RaSlot → Input) : Option RaEnb :=
  Lib.run (fun s x => s.scheduleProc input x) s (slots MAX_NUM_CCs)

end RaEnb

/-! ## Runs -/

inductive RaCall where
  | initiateRaProc (CC_id preamble_index : Nat) (timing_offset : Int) (subframe f_id taus : Nat)
  | fillRar (CC_id : Nat)
  | rxSdu (CC_id frame rnti harq_pid : Nat) (sdu : Option Mem) (size : Nat)
      (msg3_flag : Option Bool)
  | scheduleRa (input : RaSlot → RaEnb.Input)
  | cancelRaProc (CC_id rnti : Nat)
  | rrcMacRemoveUe (rnti : Nat)

def RaCall.carrier : RaCall → Option Nat
  | initiateRaProc CC_id _ _ _ _ _ | fillRar CC_id | rxSdu CC_id _ _ _ _ _ _ | cancelRaProc CC_id
    _ => some CC_id
  | scheduleRa _ | rrcMacRemoveUe _ => none

/-- What a call does on a carrier that is there. -/
def RaEnb.call (MAX_NUM_CCs : Nat) (s : RaEnb) : RaCall → Option RaEnb
  | .initiateRaProc CC_id preamble_index timing_offset subframe f_id taus =>
    some (s.initiateRaProc CC_id preamble_index timing_offset subframe f_id taus)
  | .fillRar CC_id => some (s.fillRar CC_id)
  | .rxSdu CC_id frame rnti harq_pid sdu size msg3_flag =>
      s.rxSdu CC_id frame rnti harq_pid sdu size msg3_flag
  | .scheduleRa input => s.scheduleRa MAX_NUM_CCs input
  | .cancelRaProc CC_id rnti => some (s.cancelRaProc CC_id rnti)
  | .rrcMacRemoveUe rnti => some (s.rrcMacRemoveUe rnti)

def RaEnb.step (MAX_NUM_CCs : Nat) (s : RaEnb) (c : RaCall) : Option RaEnb :=
  if ∀ CC_id ∈ c.carrier, CC_id < MAX_NUM_CCs then s.call MAX_NUM_CCs c else none

def RaEnb.init (UEs : Nat) (Is_rrc_registered : Bool) : RaEnb where
  enb := {
    UE_list := []
    avail := List.range UEs
    pCC_id _ := 0
    UE_template _ _ := {}
    UE_sched_ctrl _ := {}
    eNB_UE_stats _ _ := {}
    RA_template _ _ := {}
    Is_rrc_registered := Is_rrc_registered }

end MacRlcSplit.Mac
