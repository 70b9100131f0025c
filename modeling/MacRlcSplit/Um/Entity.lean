-- The RLC UM entity, `rlc_um_entity_t`: the transmitting half queues SDUs
-- and cuts UMD PDUs from them, the receiving half keeps the reordering
-- window and puts the SDUs together again.
import MacRlcSplit.Am.Entity

namespace MacRlcSplit.Um

open Am (Byte Mem Ctxt Timer MacTbInd)

/-! ## Configuration -/

/-- The two lengths that a sequence number can have, in bits. -/
inductive SnLength where
  | five
  | ten
deriving DecidableEq, Repr

/-- `RLC_UM_SN_5_BITS_MODULO` and `RLC_UM_SN_10_BITS_MODULO`. -/
def SnLength.modulo : SnLength → Nat
  | .five => 32
  | .ten => 1024

/-- `RLC_UM_WINDOW_SIZE_SN_5_BITS` and `RLC_UM_WINDOW_SIZE_SN_10_BITS`. -/
def SnLength.windowSize : SnLength → Nat
  | .five => 16
  | .ten => 512

/-- The header of a PDU without LIs, in bytes. -/
def SnLength.headerMinLength : SnLength → Nat
  | .five => 1
  | .ten => 2

/-- What `rlc_um_configure` and `rlc_um_set_debug_infos` are given. A direction whose SN length
is 0 is not used. -/
structure Config where
  timer_reordering : Nat
  rx_sn_length : SnLength
  tx_sn_length : SnLength
  is_mxch : Bool := false
  is_data_plane : Bool := true
deriving DecidableEq, Repr

/-! ## The transmitting half -/

/-- `rlc_um_tx_sdu_management_t` with the SDU after it. An SDU leaves `input_sdus` with its last
byte, so that one in the queue has a byte to send. -/
structure TxSdu where
  data : List Byte
  sdu_segmented_size : Nat := 0
  more : sdu_segmented_size < data.length
deriving DecidableEq

def TxSdu.sdu_size (x : TxSdu) : Nat := x.data.length

def TxSdu.sdu_remaining_size (x : TxSdu) : Nat := x.data.length - x.sdu_segmented_size

structure Tx where
  tx_sn_length : SnLength
  vt_us : Nat := 0
  input_sdus : List TxSdu := []
  buffer_occupancy : Nat := 0
  nb_bytes_requested_by_mac : Nat := 0
deriving DecidableEq

/-! ## The receiving half -/

/-- The SDU under construction. `delivered` is history: the SDUs passed to `rlc_data_ind`, in
order. -/
structure Output where
  /-- The `output_sdu_size_to_write` bytes that `output_sdu_in_construction` holds. -/
  output_sdu : List Byte := []
  last_reassemblied_sn : Nat
  last_reassemblied_missing_sn : Nat
  reassembly_missing_sn_detected : Bool := false
  delivered : List (List Byte) := []
deriving DecidableEq

structure Rx where
  cfg : Config
  vr_ur : Nat := 0
  vr_ux : Nat := 0
  vr_uh : Nat := 0
  t_reordering : Timer := {}
  dar_buffer : Nat → Option MacTbInd := fun _ => none
  out : Output

def Rx.modulo (rx : Rx) : Nat := rx.cfg.rx_sn_length.modulo

def Rx.windowSize (rx : Rx) : Nat := if rx.cfg.is_mxch then 0 else rx.cfg.rx_sn_length.windowSize

/-- The longest SDU that is put together, `RLC_SDU_MAX_SIZE_DATA_PLANE` or
`RLC_SDU_MAX_SIZE_CONTROL_PLANE`. -/
def Config.sduMaxSize (cfg : Config) : Nat := if cfg.is_data_plane then 9000 else 2000

/-! ## The entity -/

/-- The states of `rlc_um_fsm_notify_event` that a bearer gets into. -/
inductive ProtocolState where
  | null
  | dataTransferReady
deriving DecidableEq, Repr

structure Entity where
  tx : Tx
  rx : Rx

/-- `rlc_um_init` and `rlc_um_configure`: the entity is in `RLC_DATA_TRANSFER_READY_STATE`, and
stays in it. -/
def rlcUmConfigure (cfg : Config) : Entity where
  tx := { tx_sn_length := cfg.tx_sn_length }
  rx :=
    { cfg := cfg
      t_reordering := { ms_duration := cfg.timer_reordering }
      out :=
        { last_reassemblied_sn := cfg.rx_sn_length.modulo - 1
          last_reassemblied_missing_sn := cfg.rx_sn_length.modulo - 1 } }

end MacRlcSplit.Um
