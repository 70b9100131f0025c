-- The RLC AM entity, `rlc_am_entity_t`. Its fields are grouped by the part
-- of the code that owns them: the input SDUs, the retransmission buffer,
-- polling, and the receiver. Throughout, 1024 is `RLC_AM_SN_MODULO`, 512
-- `RLC_AM_WINDOW_SIZE`, 128 `RLC_AM_SDU_CONTROL_BUFFER_SIZE`, 32
-- `RLC_AM_MAX_SDU_IN_PDU` and 9000 `RLC_SDU_MAX_SIZE`.
import Mathlib.Algebra.Group.Int.Defs
import Mathlib.Algebra.GroupWithZero.Nat
import Mathlib.Tactic.Common

namespace MacRlcSplit.Am

open Function

/-! ## Bytes and numbers -/

abbrev Byte := UInt8

/-- What a pointer points to, from the byte it names on. -/
abbrev Mem := Nat → Byte

def Mem.set (m : Mem) (i : Nat) (b : Byte) : Mem := update m i b

/-- `memcpy` to an offset. -/
def Mem.copy (m : Mem) (off : Nat) (src : List Byte) : Mem := fun k =>
  if off ≤ k ∧ k < off + src.length then src.getD (k - off) 0 else m k

def Mem.read (m : Mem) (off len : Nat) : List Byte := (List.range len).map fun k => m (off + k)

def int8 (x : Int) : Int := (x + 128) % 256 - 128

/-- The value that an `int16_t` keeps of a number. -/
def int16 (x : Int) : Int := (x + 32768) % 65536 - 32768

/-- `protocol_ctxt_t`, as far as AM reads it. -/
structure Ctxt where
  frame : Nat
  subframe : Nat := 0
deriving DecidableEq, Repr

/-- `PROTOCOL_CTXT_TIME_MILLI_SECONDS`, a `uint32_t`. -/
def Ctxt.ms (ctxt : Ctxt) : Nat := (ctxt.frame * 10 + ctxt.subframe) % 2 ^ 32

/-! ## Timers -/

/-- `rlc_am_timer_t`. -/
structure Timer where
  ms_time_out : Nat := 0
  ms_start : Nat := 0
  ms_duration : Nat := 0
  running : Bool := false
  timed_out : Bool := false
deriving DecidableEq, Repr

/-- The test that the three `rlc_am_check_timer_*` make of a running timer. -/
def Timer.elapsed (t : Timer) (now : Nat) : Bool :=
  (t.ms_start < t.ms_time_out && (now ≥ t.ms_time_out || now < t.ms_start)) ||
    (t.ms_start > t.ms_time_out && now < t.ms_start && now ≥ t.ms_time_out)

/-- The three `rlc_am_start_timer_*`. A running timer goes on. -/
def Timer.start (t : Timer) (now : Nat) : Timer :=
  if !t.running && t.ms_duration > 0 then
    { t with timed_out := false, running := true, ms_time_out :=
      (now + t.ms_duration) % 2 ^ 32, ms_start := now }
  else { t with timed_out := false }

def Timer.reset (t : Timer) : Timer :=
  { t with running := false, ms_time_out := 0, ms_start := 0, timed_out := false }

/-! ## The transmitting side -/

/-- `RLC_SDU_CONFIRM_YES` and `RLC_SDU_CONFIRM_NO`. -/
inductive Confirm where
  | yes
  | no
deriving DecidableEq, Repr

def Confirm.code : Confirm → Nat
  | .yes => 1
  | .no => 0

/-- The arguments of `rlc_data_conf`, by the names of its parameters. -/
structure DataConf where
  srb_flag : Nat
  rb_id : Nat
  mui : Nat
  status : Confirm
deriving DecidableEq, Repr

/-- What the transmitter did, for the laws about its runs. An SDU is named by how many
were accepted before it, a PDU by how many were cut before it. -/
inductive TxRecord where
  /-- Bytes of the SDU were copied into the PDU. -/
  | carried (pdu sdu : Nat)
  /-- The PDU was acknowledged. -/
  | acked (pdu : Nat)
  /-- `rlc_data_conf` was called for the SDU. -/
  | conf (sdu : Nat) (args : DataConf)
deriving DecidableEq, Repr

/-- `rlc_am_tx_sdu_management_t`, an entry of `input_sdus`. -/
structure TxSdu where
  mem_block : Option (List Byte) := none
  mui : Nat := 0
  sdu_remaining_size : Nat := 0
  sdu_segmented_size : Nat := 0
  sdu_size : Nat := 0
  nb_pdus : Nat := 0
  nb_pdus_ack : Nat := 0
  segmented : Bool := false
  transmitted_successfully : Bool := false
deriving DecidableEq, Repr

/-- `rlc_am_tx_data_pdu_management_t`, an entry of `pdu_retrans_buffer`. The arrays
`sdus_index`, `hole_so_start` and `hole_so_stop` are lists as long as their counters
`nb_sdus` and `num_holes`. -/
structure TxPdu where
  mem_block : Option Mem := none
  /-- Where the payload starts in the PDU. -/
  payload : Nat := 0
  sdus_index : List Nat := []
  last_nack_time : Nat := 0
  holes : List (Int × Int) := []
  header_and_payload_size : Nat := 0
  payload_size : Nat := 0
  nack_so_start : Int := 0
  nack_so_stop : Int := 0
  retx_count : Int := 0
  ack : Bool := false
  retransmit : Bool := false

/-- The bearer and its queue of input SDUs. The last three fields are history. -/
structure Sdus where
  rb_id : Nat := 0
  is_data_plane : Bool := false
  input_sdus : Nat → TxSdu := fun _ => {}
  nb_sdu : Int := 0
  nb_sdu_no_segmented : Int := 0
  next_sdu_index : Nat := 0
  current_sdu_index : Nat := 0
  sdu_buffer_occupancy : Int := 0
  stat_tx_pdcp_sdu : Nat := 0
  stat_tx_pdcp_bytes : Nat := 0
  stat_tx_pdcp_sdu_discarded : Nat := 0
  stat_tx_pdcp_bytes_discarded : Nat := 0
  /-- How many SDUs were accepted. -/
  accepted : Nat := 0
  /-- The SDU that was last stored in a slot. -/
  owner : Nat → Nat := fun _ => 0
  /-- What happened, latest first. -/
  log : List TxRecord := []

/-- The two calls of `rlc_data_conf` leave out the flag of the bearer, so that every argument
is taken for the one before it: the status that arrives is `is_data_plane`. -/
def Sdus.dataConf (q : Sdus) (mui : Nat) (status : Confirm) : DataConf where
  srb_flag := q.rb_id
  rb_id := mui
  mui := status.code
  status := if q.is_data_plane then .yes else .no

def Sdus.set (q : Sdus) (i : Nat) (x : TxSdu) : Sdus :=
  { q with input_sdus := update q.input_sdus i x }

/-- The retransmission buffer and the transmit window. The last two fields are history. -/
structure Retrans where
  pdu_retrans_buffer : Nat → TxPdu := fun _ => {}
  retrans_num_pdus : Int := 0
  retrans_num_bytes : Int := 0
  retrans_num_bytes_to_retransmit : Int := 0
  num_nack_so : Nat := 0
  num_nack_sn : Nat := 0
  /-- The source's -1 is `none`. -/
  first_retrans_pdu_sn : Option Nat := none
  vt_a : Nat := 0
  vt_ms : Nat := 512
  vt_s : Nat := 0
  /-- How many PDUs were cut. -/
  sent : Nat := 0
  /-- The PDU that was last stored in an entry. -/
  number : Nat → Nat := fun _ => 0

def Retrans.set (r : Retrans) (sn : Nat) (p : TxPdu) : Retrans :=
  { r with pdu_retrans_buffer := update r.pdu_retrans_buffer sn p }

/-- The polling counters and `t_poll_retransmit`. -/
structure Poll where
  poll_sn : Nat := 0
  c_pdu_without_poll : Nat := 0
  c_byte_without_poll : Nat := 0
  force_poll : Bool := false
  t_poll_retransmit : Timer := {}
deriving DecidableEq, Repr

/-! ## The receiving side -/

/-- `rlc_am_pdu_info_t`, a decoded header. `payload` is the offset of the payload in the
PDU, and `li_list` is as long as `num_li`. -/
structure PduInfo where
  rf : Bool := false
  p : Bool := false
  fi : Nat := 0
  e : Bool := false
  sn : Nat := 0
  lsf : Bool := false
  so : Nat := 0
  li_list : List Nat := []
  hidden_size : Int := 0
  payload : Nat := 0
  payload_size : Int := 0
  header_size : Nat := 0
deriving DecidableEq, Repr

/-- A received transport block: where it starts, and how many bytes of it are there. -/
structure MacTbInd where
  data : Mem
  size : Nat

/-- An element of `receiver_buffer`: a transport block with its
`rlc_am_rx_pdu_management_t`. -/
structure RxPdu where
  info : PduInfo
  data : Mem
  all_segments_received : Bool := false

/-- The receiver. `delivered` is history: the SDUs passed to `rlc_data_ind`, in order. -/
structure Rx where
  receiver_buffer : List RxPdu := []
  /-- The bytes gathered in `output_sdu_in_construction`, if that is allocated. -/
  output_sdu_in_construction : Option (List Byte) := none
  vr_r : Nat := 0
  vr_mr : Nat := 512
  vr_x : Nat := 0
  vr_ms : Nat := 0
  vr_h : Nat := 0
  t_reordering : Timer := {}
  t_status_prohibit : Timer := {}
  status_requested : Bool := false
  delivered : List (List Byte) := []

/-! ## The entity -/

/-- What `rlc_am_configure` is given. -/
structure Config where
  max_retx_threshold : Nat
  poll_pdu : Nat
  poll_byte : Nat
  t_poll_retransmit : Nat
  t_reordering : Nat
  t_status_prohibit : Nat
deriving DecidableEq, Repr

structure Entity where
  cfg : Config
  sdus : Sdus := {}
  retrans : Retrans := {}
  poll : Poll := {}
  rx : Rx := {}
  nb_bytes_requested_by_mac : Int := 0
  last_frame_status_indication : Nat := 123456

/-- `rlc_am_init` and `rlc_am_configure`: the entity is in `RLC_DATA_TRANSFER_READY_STATE`,
and stays in it. -/
def rlcAmConfigure (cfg : Config) : Entity where
  cfg := cfg
  poll := { t_poll_retransmit := { ms_duration := cfg.t_poll_retransmit } }
  rx := { t_reordering := { ms_duration := cfg.t_reordering }
          t_status_prohibit := { ms_duration := cfg.t_status_prohibit } }

/-- `rlc_am_set_debug_infos`. -/
def rlcAmSetDebugInfos (s : Entity) (srb_flag : Bool) (rb_id : Nat) : Entity :=
  { s with sdus := { s.sdus with rb_id, is_data_plane := !srb_flag } }

end MacRlcSplit.Am
