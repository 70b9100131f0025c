-- The datagrams of the split, byte for byte: the packed structures of
-- `splitproto.h`, the packing functions of `proto_raw.c`, and the replies as
-- the CU puts them together in its output buffers.
import MacRlcSplit.Lib.Fields
import MacRlcSplit.Lib.Stream
import MacRlcSplit.Split.Cu

namespace MacRlcSplit.Split

open Lib Option

/-! ## Packed structures -/

def S_PROTO_MR_STATUS_DATA_REQ : Nat := 1
def S_PROTO_MR_STATUS_DATA_REP : Nat := 2
def S_PROTO_MR_DATA_IND : Nat := 3
def S_PROTO_MR_RRC_DATA_REQ : Nat := 4
def S_PROTO_MR_RRC_DATA_REQ_REP : Nat := 5
def S_PROTO_MR_RRC_DATA_IND : Nat := 6

/-- `sp_head`, with its 6 bytes. -/
structure SpHead where
  type : Nat
  vers : Nat
  len : Nat
deriving DecidableEq, Repr

def sizeofSpHead : Nat := 6

def SpHead.toWire (head : SpHead) : List Byte :=
  leBytes 1 head.type ++ leBytes 1 head.vers ++ leBytes 4 head.len

def sizeofSrepDrep : Nat := 398

def array32 (f : Nat → Nat) : List Byte := concat (fun i => leBytes 4 (f i)) NB_RB_MAX

def SpmrSrepDrep.toWire (rep : SpmrSrepDrep) : List Byte :=
  leBytes 2 rep.rnti ++ leBytes 4 rep.frame ++ array32 rep.channel ++ array32 rep.tb_size ++
    array32 (fun i => uint32 (rep.bytes i)) ++ array32 (fun i => uint32 (rep.pdus i)) ++
    array32 rep.creation_time ++ array32 (fun i => uint32 (rep.remaining_bytes i)) ++
    array32 (fun i => (rep.segmented i).toNat)

/-! ## Packing -/

/-- `sp_generic_pack`. None when the memory behind `buf` is not as long as `len` says. -/
def spGenericPack (data : List Byte) (off : Nat) (buf : List Byte)
    (len : Nat) : Option (Int × List Byte) :=
  if off + data.length > len then some (-1, buf)
  else (writeAt off data buf).map fun buf' => ((off + data.length : Nat), buf')

def spPackHead (head : SpHead) (buf : List Byte) (len : Nat) : Option (Int × List Byte) :=
  spGenericPack head.toWire 0 buf len

def spMrPackSrepDrep (rep : SpmrSrepDrep) (buf : List Byte)
    (len : Nat) : Option (Int × List Byte) :=
  spGenericPack rep.toWire sizeofSpHead buf len

/-- `sp_generic_identify`: the structure is looked for at `off`, unless the message ends before
it. -/
def spGenericIdentify (off len : Nat) : Option Nat := if off > len then none else some off

/-- The end of a reply of the CU: the data is copied behind what was packed, and all of it is sent.
With the bytes that are sent, the output buffer. -/
def sendBehind (packed : Option (Int × List Byte))
    (data : List Byte) : Option (List Byte × List Byte) :=
  packed.bind fun p =>
    if p.1 < 0 then none
    else (writeAt p.1.toNat data p.2).map fun buf => (buf.take (p.1.toNat + data.length), buf)

def MAX_DLSCH_PAYLOAD_BYTES : Nat := 16 * 768

/-- The end of `mac_rlc_status_data_req_reply`. -/
def sendStatusDataRep (rep : SpmrSrepDrep) (data cu_outbuf : List Byte) :
    Option (List Byte × List Byte) :=
  (spPackHead ⟨S_PROTO_MR_STATUS_DATA_REP, 1, sizeofSrepDrep + data.length⟩ cu_outbuf
    MAX_DLSCH_PAYLOAD_BYTES).bind
    fun p => sendBehind (spMrPackSrepDrep rep p.2 MAX_DLSCH_PAYLOAD_BYTES) data

/-! ## What is sent -/

@[simp] theorem SpHead.length_toWire (head : SpHead) : head.toWire.length = sizeofSpHead := by
  simp [toWire, sizeofSpHead]

theorem length_array32 (f : Nat → Nat) : (array32 f).length = 56 := by
  have : ∀ n, (concat (fun i => leBytes 4 (f i)) n).length = 4 * n := by
    intro n
    induction n with
    | zero => rfl
    | succ n ih => rw [concat, List.length_append, ih, length_leBytes, Nat.mul_succ]
  exact this NB_RB_MAX

@[simp] theorem SpmrSrepDrep.length_toWire (rep : SpmrSrepDrep) :
    rep.toWire.length = sizeofSrepDrep := by
  simp [toWire, length_array32, sizeofSrepDrep]

variable {data buf : List Byte} {len : Nat}

theorem spGenericPack_eq (before body : List Byte) (hlen : before.length + buf.length = len)
    (hfit : before.length + body.length ≤ len) :
    spGenericPack body before.length (before ++ buf) len =
      some ((((before ++ body).length : Nat) : Int), before ++ body ++ buf.drop body.length) := by
  rw [spGenericPack, if_neg (by omega), writeAt_behind before (by omega), map_some,
    List.length_append]

theorem send_eq (head : SpHead) (body : List Byte) (hlen : buf.length = len)
    (hfit : sizeofSpHead + body.length + data.length ≤ len) :
    ∃ buf', ((spPackHead head buf len).bind fun p =>
      sendBehind (spGenericPack body sizeofSpHead p.2 len) data) =
      some (head.toWire ++ body ++ data, buf') ∧ buf'.length = len := by
  have hhead := head.length_toWire
  have hfirst : spPackHead head buf len =
      some ((head.toWire.length : Int), head.toWire ++ buf.drop head.toWire.length) :=
    spGenericPack_eq [] head.toWire (by rw [List.length_nil, zero_add, hlen])
      (by rw [List.length_nil]; omega)
  have hdrop : (buf.drop head.toWire.length).length = len - sizeofSpHead := by
    rw [List.length_drop, hlen, hhead]
  generalize buf.drop head.toWire.length = rest at hfirst hdrop
  have hsecond := spGenericPack_eq head.toWire body (show head.toWire.length + rest.length =
    len by omega) (by omega)
  have hthird : writeAt (head.toWire ++ body).length data
      (head.toWire ++ body ++ rest.drop body.length) =
      some (head.toWire ++ body ++ data ++ (rest.drop body.length).drop data.length) := by
    apply writeAt_behind
    rw [List.length_drop]
    omega
  refine ⟨head.toWire ++ body ++ data ++ (rest.drop body.length).drop data.length, ?_, ?_⟩
  · rw [hfirst, bind_some, ← hhead, hsecond, sendBehind, bind_some, if_neg (by omega),
      Int.toNat_natCast, hthird, map_some, ← List.length_append, List.take_left]
  · simp only [List.length_append, List.length_drop]
    omega

def SpmrSrepDrep.datagram (rep : SpmrSrepDrep) (data : List Byte) : List Byte :=
  SpHead.toWire ⟨S_PROTO_MR_STATUS_DATA_REP, 1, sizeofSrepDrep + data.length⟩ ++ rep.toWire ++ data

@[simp] theorem SpmrSrepDrep.length_datagram (rep : SpmrSrepDrep) (data : List Byte) :
    (rep.datagram data).length = sizeofSpHead + sizeofSrepDrep + data.length := by
  simp only [datagram, List.length_append, SpHead.length_toWire, length_toWire]

theorem sendStatusDataRep_eq (rep : SpmrSrepDrep) (hlen : buf.length = MAX_DLSCH_PAYLOAD_BYTES)
    (hfit : sizeofSpHead + sizeofSrepDrep + data.length ≤ MAX_DLSCH_PAYLOAD_BYTES) :
    ∃ buf', sendStatusDataRep rep data buf = some (rep.datagram data, buf') ∧
    buf'.length = MAX_DLSCH_PAYLOAD_BYTES :=
  send_eq _ rep.toWire hlen (by rwa [SpmrSrepDrep.length_toWire])

/-! ## Reading a reply -/

/-- The fields of a status reply are in the memory behind the head. -/
structure Carries (mem : Nat → Byte) (rep : SpmrSrepDrep) : Prop where
  channel : ∀ i < NB_RB_MAX, leAt mem (12 + 4 * i) 4 = rep.channel i
  tb_size : ∀ i < NB_RB_MAX, leAt mem (68 + 4 * i) 4 = rep.tb_size i
  bytes : ∀ i < NB_RB_MAX, int32 (leAt mem (124 + 4 * i) 4) = rep.bytes i
  pdus : ∀ i < NB_RB_MAX, int32 (leAt mem (180 + 4 * i) 4) = rep.pdus i
  creation_time : ∀ i < NB_RB_MAX, leAt mem (236 + 4 * i) 4 = rep.creation_time i
  remaining_bytes : ∀ i < NB_RB_MAX, int32 (leAt mem (292 + 4 * i) 4) = rep.remaining_bytes i
  segmented : ∀ i < NB_RB_MAX, decide (leAt mem (348 + 4 * i) 4 % 256 ≠ 0) = rep.segmented i

def Int32 (z : Int) : Prop := -2 ^ 31 ≤ z ∧ z < 2 ^ 31

/-- The numbers of a reply are those of its C types. -/
structure SpmrSrepDrep.Typed (rep : SpmrSrepDrep) (n : Nat) : Prop where
  channel : ∀ i < n, rep.channel i < 2 ^ 32
  tb_size : ∀ i < n, rep.tb_size i < 2 ^ 32
  bytes : ∀ i < n, Int32 (rep.bytes i)
  pdus : ∀ i < n, Int32 (rep.pdus i)
  creation_time : ∀ i < n, rep.creation_time i < 2 ^ 32
  remaining_bytes : ∀ i < n, Int32 (rep.remaining_bytes i)

theorem leAt_array32 {mem : Nat → Byte} {off : Nat} {f : Nat → Nat} (h : Holds mem off (array32 f))
    {i : Nat} (hi : i < NB_RB_MAX) (hf : f i < 2 ^ 32) : leAt mem (off + 4 * i) 4 = f i := by
  have hpiece := holds_concat (fun i => length_leBytes 4 (f i)) h hi
  rw [leAt_of_holds hpiece]
  exact Nat.mod_eq_of_lt hf

theorem int32_array32 {mem : Nat → Byte} {off : Nat} {f : Nat → Int}
    (h : Holds mem off (array32 fun i => uint32 (f i))) {i : Nat} (hi : i < NB_RB_MAX)
    (hf : Int32 (f i)) : int32 (leAt mem (off + 4 * i) 4) = f i := by
  rw [leAt_array32 h hi (uint32_lt _), int32_uint32 hf.1 hf.2]

theorem carries_of_holds {mem : Nat → Byte} {rep : SpmrSrepDrep}
    (h : Holds mem sizeofSpHead rep.toWire) (htyped : rep.Typed NB_RB_MAX) : Carries mem rep := by
  unfold SpmrSrepDrep.toWire at h
  simp only [holds_append, List.length_append, length_array32, length_leBytes] at h
  obtain ⟨⟨⟨⟨⟨⟨⟨⟨-, -⟩, hch⟩, htb⟩, hby⟩, hpd⟩, hct⟩, hre⟩, hse⟩ := h
  refine ⟨fun i hi => leAt_array32 hch hi (htyped.channel i hi),
    fun i hi => leAt_array32 htb hi (htyped.tb_size i hi),
    fun i hi => int32_array32 hby hi (htyped.bytes i hi), fun i hi =>
      int32_array32 hpd hi (htyped.pdus i hi),
    fun i hi => leAt_array32 hct hi (htyped.creation_time i hi),
    fun i hi => int32_array32 hre hi (htyped.remaining_bytes i hi), fun i hi => ?_⟩
  have hread : leAt mem (348 + 4 * i) 4 = (rep.segmented i).toNat :=
    leAt_array32 hse hi (by cases rep.segmented i <;> decide)
  rw [hread]
  cases rep.segmented i <;> rfl

end MacRlcSplit.Split
