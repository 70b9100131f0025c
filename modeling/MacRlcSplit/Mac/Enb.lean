-- The MAC of the eNB, as far as uplink blocks change it: the list of UEs with
-- what is known of each, the random access processes, and `rx_sdu` with
-- `parse_ulsch_header`.
import MacRlcSplit.Mac.Block

namespace MacRlcSplit.Mac

open Am Function

/-! ## The state -/

def NB_RA_PROC_MAX : Nat := 4

def CCCH_PAYLOAD_SIZE_MAX : Nat := 128

def SCH_PAYLOAD_SIZE_MAX : Nat := 4096

def PHR_MAPPING_OFFSET : Int := 23

/-- The bytes that a level of a BSR stands for. -/
def BSR_TABLE : List Nat := [0, 10, 12, 14, 17, 19, 22, 26, 31, 36, 42, 49, 57, 67, 78, 91,
    105, 125, 146, 171, 200, 234, 274, 321, 376, 440, 515, 603, 706, 826, 967, 1132,
    1326, 1552, 1817, 2127, 2490, 2915, 3413, 3995, 4677, 5467, 6411, 7505, 8787, 10287, 12043,
    14099,
    16507, 19325, 22624, 26487, 31009, 36304, 42502, 49759, 58255, 68201, 79846, 93479, 109439,
    128125, 150000, 300000]

abbrev Lcgid := Fin 4

/-- The fields of `UE_TEMPLATE` that uplink blocks use. -/
structure UeTemplate where
  rnti : Nat := 0
  configured : Bool := false
  bsr_info : Lcgid → Nat := fun _ => 0
  /-- The group of a logical channel, for 11 of them. -/
  lcgidmap : Fin 11 → Lcgid := fun _ => 0
  phr_info : Int := 0
  phr_info_configured : Bool := false
  ul_total_buffer : Nat := 0
  ul_buffer_creation_time : Lcgid → Nat := fun _ => 0
  ul_buffer_info : Lcgid → Nat := fun _ => 0

/-- The fields of `UE_sched_ctrl`. -/
structure UeSchedCtrl where
  ul_inactivity_timer : Int := 0
  ul_failure_timer : Int := 0
  /-- One bit for each HARQ process. -/
  ul_scheduled : BitVec 32 := 0
  ul_out_of_sync : Int := 0
  phr_received : Bool := false

/-- The fields of `eNB_UE_STATS`. -/
structure UeStats where
  num_pdu_rx : Nat → Nat := fun _ => 0
  num_bytes_rx : Nat → Nat := fun _ => 0
  num_errors_rx : Nat := 0
  pdu_bytes_rx : Nat := 0
  total_pdu_bytes_rx : Nat := 0
  total_num_pdus_rx : Nat := 0
  total_num_errors_rx : Nat := 0

/-- The fields of `RA_TEMPLATE`. -/
structure RaTemplate where
  RA_active : Bool := false
  rnti : Nat := 0
  cont_res_id : List Byte := []
  generate_Msg4 : Bool := false
  wait_ack_Msg4 : Bool := false

structure Enb where
  /-- The ids from `head` along `next`. -/
  UE_list : List Nat
  /-- The ids from `avail` along `next`, below `NUMBER_OF_UE_MAX`. -/
  avail : List Nat
  pCC_id : Nat → Nat
  /-- By component carrier and UE. -/
  UE_template : Nat → Nat → UeTemplate
  UE_sched_ctrl : Nat → UeSchedCtrl
  eNB_UE_stats : Nat → Nat → UeStats
  /-- By component carrier. -/
  RA_template : Nat → Fin NB_RA_PROC_MAX → RaTemplate
  Is_rrc_registered : Bool

namespace Enb

variable (e : Enb)

def modifyTemplate (CC_id UE_id : Nat) (f : UeTemplate → UeTemplate) : Enb :=
  { e with UE_template := fun c u => if c = CC_id ∧
    u = UE_id then f (e.UE_template c u) else e.UE_template c u }

def modifyCtrl (UE_id : Nat) (f : UeSchedCtrl → UeSchedCtrl) : Enb :=
  { e with UE_sched_ctrl := fun u => if u =
    UE_id then f (e.UE_sched_ctrl u) else e.UE_sched_ctrl u }

def modifyStats (CC_id UE_id : Nat) (f : UeStats → UeStats) : Enb :=
  { e with
    eNB_UE_stats := fun c u => if c = CC_id ∧
      u = UE_id then f (e.eNB_UE_stats c u) else e.eNB_UE_stats c u }

def modifyRa (CC_id : Nat) (ii : Fin NB_RA_PROC_MAX) (f : RaTemplate → RaTemplate) : Enb :=
  { e with
    RA_template := fun c i => if c = CC_id ∧
      i = ii then f (e.RA_template c i) else e.RA_template c i }

/-- `find_UE_id`, none for -1. -/
def findUeId (rnti : Nat) : Option Nat :=
  e.UE_list.find? fun UE_id => (e.UE_template (e.pCC_id UE_id) UE_id).rnti == rnti

/-- `add_new_ue`: the first id that is not in use becomes the head of the list. -/
def addNewUe (CC_id rnti : Nat) : Option (Nat × Enb) :=
  match e.avail with
  | [] => none
  | UE_id :: avail =>
    let e := { e with
      UE_list := UE_id :: e.UE_list
      avail := avail
      pCC_id := update e.pCC_id UE_id CC_id }
    let e := e.modifyTemplate CC_id UE_id fun t => { t with rnti := rnti, configured := false }
    some (UE_id, e.modifyCtrl UE_id fun _ => {})

end Enb

/-! ## Control elements -/

def EXTENDED_POWER_HEADROOM : Nat := 25

def POWER_HEADROOM : Nat := 26

def CRNTI : Nat := 27

def TRUNCATED_BSR : Nat := 28

def SHORT_BSR : Nat := 29

def LONG_BSR : Nat := 30

namespace UeTemplate

variable (t : UeTemplate)

def shortBsr (frame : Nat) (lcgid : Lcgid) (level : Nat) : UeTemplate :=
  let buffer := BSR_TABLE.getD level 0
  { t with
    bsr_info := update t.bsr_info lcgid level
    ul_buffer_info := update t.ul_buffer_info lcgid buffer
    ul_total_buffer := buffer
    ul_buffer_creation_time :=
      if t.ul_buffer_creation_time lcgid = 0 then update t.ul_buffer_creation_time lcgid frame
      else t.ul_buffer_creation_time }

/-- The buffer of one group and the total, after `bsr_info` has been set by a long BSR. -/
def updateBuffer (lcgid : Lcgid) : UeTemplate :=
  let old_buffer_info := t.ul_buffer_info lcgid
  let buffer := BSR_TABLE.getD (t.bsr_info lcgid) 0
  let total := (t.ul_total_buffer + buffer) % 2 ^ 32
  { t with
    ul_buffer_info := update t.ul_buffer_info lcgid buffer
    ul_total_buffer := if total ≥ old_buffer_info then total - old_buffer_info else 0 }

def longBsr (frame : Nat) (levels : Lcgid → Nat) : UeTemplate :=
  let t := { t with bsr_info := levels }
  let t := (((t.updateBuffer 0).updateBuffer 1).updateBuffer 2).updateBuffer 3
  { t with
    ul_buffer_creation_time := fun lcgid =>
      if levels lcgid = 0 then 0
      else if t.ul_buffer_creation_time lcgid = 0 then frame
      else t.ul_buffer_creation_time lcgid }

end UeTemplate

/-- What is handed to the layers above, under the RNTI of the block. -/
inductive EnbSdu where
  | macRrcDataInd (rnti : Nat) (sdu : List Byte)
  | macRlcDataInd (rnti lcid : Nat) (sdu : List Byte)
deriving DecidableEq, Repr

/-- The variables of `rx_sdu`, and what it has told the layers above. -/
structure RxRun where
  enb : Enb
  /-- None for -1. -/
  UE_id : Option Nat
  payload_ptr : Nat := 0
  /-- With the RNTI that was read. -/
  crnti_rx : Option Nat := none
  /-- What `msg3_flagP` points to, if it is not `NULL`. -/
  msg3_flag : Option Bool := none
  /-- The calls of `mac_eNB_rrc_ul_in_sync`. -/
  in_sync : List Nat := []
  handed : List EnbSdu := []

namespace RxRun

variable (r : RxRun)

def forUe (f : Nat → Enb → Enb) : RxRun :=
  match r.UE_id with
  | none => r
  | some UE_id => { r with enb := f UE_id r.enb }

def inSync (rnti : Nat) : RxRun :=
  match r.UE_id with
  | none => r
  | some UE_id =>
    let enb := r.enb.modifyCtrl UE_id fun ctrl =>
      { ctrl with ul_inactivity_timer := 0, ul_failure_timer := 0 }
    if (r.enb.UE_sched_ctrl UE_id).ul_out_of_sync > 0 then
      { r with
        enb := enb.modifyCtrl UE_id fun ctrl => { ctrl with ul_out_of_sync := 0 }
        in_sync := r.in_sync ++ [rnti] }
    else { r with enb := enb }

def powerHeadroom (CC_id ph : Nat) : RxRun := r.forUe fun UE_id enb =>
    (enb.modifyTemplate CC_id UE_id fun t =>
      { t with phr_info := ph - PHR_MAPPING_OFFSET, phr_info_configured := true }).modifyCtrl UE_id
        fun ctrl => { ctrl with phr_received := true }

def crnti (rnti : Nat) : RxRun :=
  { { r with UE_id := r.enb.findUeId rnti }.inSync rnti with
    crnti_rx := some rnti
    msg3_flag := r.msg3_flag.map fun _ => false }

def shortBsr (CC_id frame : Nat) (lcgid : Lcgid) (level : Nat) : RxRun :=
  r.forUe fun UE_id enb => enb.modifyTemplate CC_id UE_id fun t => t.shortBsr frame lcgid level

def longBsr (CC_id frame : Nat) (levels : Lcgid → Nat) : RxRun :=
  r.forUe fun UE_id enb => enb.modifyTemplate CC_id UE_id fun t => t.longBsr frame levels

/-- The four levels in the three bytes of a long BSR. -/
def longLevels (b0 b1 b2 : Nat) : Lcgid → Nat
  | 0 => b0 / 4
  | 1 => b0 % 4 * 16 + b1 / 16
  | 2 => b1 % 16 * 4 + b2 / 64
  | 3 => b2 % 64

/-- One turn of the loop over control elements. -/
def element (sdu : Mem) (CC_id frame : Nat) (r : RxRun) (lcid : Nat) : RxRun :=
  let byte k := (sdu (r.payload_ptr + k)).toNat
  if lcid = POWER_HEADROOM then
    { r.powerHeadroom CC_id (byte 0 % 64) with payload_ptr := r.payload_ptr + 1 }
  else if lcid = CRNTI then
    { r.crnti (byte 0 * 256 + byte 1) with payload_ptr := r.payload_ptr + 2 }
  else if lcid = TRUNCATED_BSR ∨ lcid = SHORT_BSR then
    { r.shortBsr CC_id frame (Fin.ofNat 4 (byte 0 / 64)) (byte 0 % 64) with payload_ptr :=
      r.payload_ptr + 1 }
  else if lcid = LONG_BSR then
    { r.longBsr CC_id frame (longLevels (byte 0) (byte 1) (byte 2)) with payload_ptr :=
      r.payload_ptr + 3 }
  else r

/-! ## SDUs -/

/-- A UE that is not known yet is added. Without room for it the process stops. -/
def register (CC_id : Nat) (ii : Fin NB_RA_PROC_MAX) (cont_res_id : List Byte) : Option RxRun :=
  match r.UE_id with
  | some _ => some r
  | none =>
    let enb := r.enb.modifyRa CC_id ii fun ra => { ra with cont_res_id := cont_res_id }
    (enb.addNewUe CC_id (enb.RA_template CC_id ii).rnti).map fun x =>
      { r with enb := x.2, UE_id := some x.1 }

/-- A message on the CCCH, for one random access process. -/
def raProc (CC_id rnti : Nat) (cont_res_id sdu : List Byte) (r : RxRun)
    (ii : Fin NB_RA_PROC_MAX) : Option RxRun :=
  let ra := r.enb.RA_template CC_id ii
  if ra.rnti = rnti ∧ ra.RA_active then
    (r.register CC_id ii cont_res_id).map fun r =>
      { r with
        handed := if r.enb.Is_rrc_registered then r.handed ++
          [.macRrcDataInd rnti sdu] else r.handed
        enb := r.enb.modifyRa CC_id ii fun ra =>
          { ra with generate_Msg4 := true, wait_ack_Msg4 := false } }
  else some r

def ccch (CC_id rnti : Nat) (cont_res_id sdu : List Byte) : Option RxRun :=
  if sdu.length > CCCH_PAYLOAD_SIZE_MAX then some r
  else (List.finRange NB_RA_PROC_MAX).foldlM (raProc CC_id rnti cont_res_id sdu) r

/-- The buffer of the group of the channel gets smaller. `lcgidmap` has 11 entries. -/
def adjustBuffer (enb : Enb) (CC_id UE_id lcid length : Nat) : Option Enb :=
  if h : lcid < 11 then
    let lcgid := (enb.UE_template CC_id UE_id).lcgidmap ⟨lcid, h⟩
    some (enb.modifyTemplate CC_id UE_id fun t =>
      { t with
        ul_buffer_info := update t.ul_buffer_info lcgid
          (if t.ul_buffer_info lcgid ≥ length then t.ul_buffer_info lcgid - length else 0) })
  else none

def toRlc (CC_id UE_id rnti lcid : Nat) (sdu : List Byte) : RxRun :=
  { r with
    handed := r.handed ++ [.macRlcDataInd rnti lcid sdu]
    enb := r.enb.modifyStats CC_id UE_id fun s =>
      { s with
        num_pdu_rx := update s.num_pdu_rx lcid (s.num_pdu_rx lcid + 1)
        num_bytes_rx := update s.num_bytes_rx lcid (s.num_bytes_rx lcid + sdu.length) } }

def dcch (CC_id rnti lcid : Nat) (sdu : List Byte) : Option RxRun :=
  match r.UE_id with
  | none => some r
  | some UE_id => (adjustBuffer r.enb CC_id UE_id lcid sdu.length).map fun enb =>
    { r with enb := enb }.toRlc CC_id UE_id rnti lcid sdu

def dtch (CC_id rnti lcid : Nat) (sdu : List Byte) : Option RxRun :=
  if lcid < NB_RB_MAX then
    match r.UE_id with
    | none => some r
    | some UE_id => (adjustBuffer r.enb CC_id UE_id lcid sdu.length).map fun enb =>
      if sdu.length < SCH_PAYLOAD_SIZE_MAX ∧ sdu.length > 0 then
        { r with enb := enb }.toRlc CC_id UE_id rnti lcid sdu
      else
        { r with
          enb := enb.modifyStats CC_id UE_id fun s =>
            { s with num_errors_rx := s.num_errors_rx + 1 } }
  else some r

/-- What is done with an SDU of a channel. -/
def take (CC_id rnti lcid : Nat) (cont_res_id sdu : List Byte) : Option RxRun :=
  if lcid = CCCH then r.ccch CC_id rnti cont_res_id sdu
  else if lcid = DCCH ∨ lcid = DCCH1 then r.dcch CC_id rnti lcid sdu
  else r.dtch CC_id rnti lcid sdu

def sdu (block : Mem) (CC_id rnti : Nat) (r : RxRun) (x : Nat × Nat) : Option RxRun :=
  (r.take CC_id rnti x.1 (block.read r.payload_ptr 6) (block.read r.payload_ptr x.2)).map fun r' =>
    { r' with payload_ptr := r.payload_ptr + x.2 }

end RxRun

/-! ## The whole function -/

/-- In `parse_ulsch_header`, an LCID from 25 on is that of a control element, and one that is not
known stops the process. -/
def ulsch : Format where
  limit := EXTENDED_POWER_HEADROOM
  ceLen lcid :=
    if lcid = LONG_BSR then some 3
    else if lcid = CRNTI then some 2
    else if lcid = POWER_HEADROOM ∨ lcid = TRUNCATED_BSR ∨ lcid = SHORT_BSR then some 1
    else none

/-- `parse_ulsch_header`. The length of the block is given as an `unsigned short`. -/
def parseUlschHeader (mac_header : Mem) (size : Nat) : Option Parsed :=
  parse ulsch mac_header size (size % 2 ^ 16)

namespace RxRun

variable (CC_id frame rnti harq_pid : Nat)

def unscheduled (r : RxRun) : RxRun := r.forUe fun UE_id enb => enb.modifyCtrl UE_id fun ctrl =>
    { ctrl with ul_scheduled := ctrl.ul_scheduled &&& ~~~(1#32 <<< harq_pid) }

/-- The end of `rx_sdu`: statistics, and a Msg3 with nothing in it. -/
def finish (sdu_len : Nat) (p : Parsed) (r : RxRun) : RxRun :=
  if p.sdus = [] ∧ p.ces = [] then
    { r.forUe fun UE_id enb => enb.modifyStats CC_id UE_id fun s =>
        { s with total_num_errors_rx := s.total_num_errors_rx + 1 } with
      msg3_flag := r.msg3_flag.map fun _ => false }
  else
    r.forUe fun UE_id enb => enb.modifyStats CC_id UE_id fun s =>
      { s with
        pdu_bytes_rx := sdu_len
        total_pdu_bytes_rx := s.total_pdu_bytes_rx + sdu_len
        total_num_pdus_rx := s.total_num_pdus_rx + 1 }

/-- `rx_sdu` for the block of `size` bytes in memory, or without one after the last HARQ round. -/
def rxSdu (enb : Enb) (sdu : Option Mem) (size : Nat) (msg3_flag : Option Bool) : Option RxRun :=
  let r : RxRun := { enb := enb, UE_id := enb.findUeId rnti, msg3_flag := msg3_flag }
  match sdu with
  | none => if r.UE_id = none then none else some (r.unscheduled harq_pid)
  | some sdu =>
    (parseUlschHeader sdu size).bind fun p =>
      let r := ((r.inSync rnti).unscheduled harq_pid)
      let r := p.ces.foldl (element sdu CC_id frame) { r with payload_ptr := p.ptr }
      (p.sdus.foldlM (RxRun.sdu sdu CC_id rnti) r).map (finish CC_id (size % 2 ^ 16) p)

end RxRun

end MacRlcSplit.Mac
