-- Headers on the air: what `rlc_am_get_data_pdu_infos` reads of an AMD PDU,
-- and how a STATUS PDU is read and written bit by bit.
import MacRlcSplit.Am.Entity

namespace MacRlcSplit.Am

/-! ## AMD PDUs (`rlc_am_receiver.c`) -/

/-- The LIs of a header, how many bytes they take, and where the payload starts. -/
structure Lis where
  li_list : List Nat
  size : Nat
  payload : Nat

/-- The LI loop. `n` is how many LIs may still come: one more than that is "TOO MANY LIs".
`li` is the length of the next LI in bytes. -/
def readLis (m : Mem) : Nat → Nat → Nat → Option Lis
  | 0, _, _ => none
  | n + 1, e_li, li =>
    let b1 := (m e_li).toNat
    let b2 := (m (e_li + 1)).toNat
    let b3 := (m (e_li + 2)).toNat
    if li = 2 then
      let v := b1 % 128 * 16 + b2 / 16
      if b1 / 128 = 1 then
        (readLis m n e_li 1).map fun l => { l with li_list := v :: l.li_list, size := l.size + 2 }
      else some ⟨[v], 2, e_li + 2⟩
    else
      let v := b2 % 8 * 256 + b3
      if b2 / 8 % 2 = 1 then
        (readLis m n (e_li + 3) 2).map fun l =>
          { l with li_list := v :: l.li_list, size := l.size + 1 }
      else some ⟨[v], 1, e_li + 3⟩

/-- `rlc_am_get_data_pdu_infos`; `none` is a negative return. `total_size` is an `int16_t`,
and so are the sizes it computes. -/
def rlcAmGetDataPduInfos (m : Mem) (total_size : Int) : Option PduInfo :=
  let b1 := (m 0).toNat
  if b1 / 128 = 0 then none
  else
    let rf : Bool := b1 / 64 % 2 = 1
    let e : Bool := b1 / 4 % 2 = 1
    let start := if rf then 4 else 2
    let lis := if e then readLis m 32 start 2 else some ⟨[], 0, start⟩
    lis.map fun l =>
      let payload_size := int16 (int16 total_size - (start + l.size : Nat))
      let sum_li := int16 (l.li_list.sum : Nat)
      { rf := rf
        p := b1 / 32 % 2 = 1
        fi := b1 / 8 % 4
        e := e
        sn := (m 1).toNat + b1 % 4 * 256
        lsf := rf ∧ (m 2).toNat / 128 = 1
        so := if rf then (m 3).toNat + (m 2).toNat % 128 * 256 else 0
        li_list := l.li_list
        hidden_size := if payload_size > sum_li then int16 (payload_size - sum_li) else 0
        payload := l.payload
        payload_size := payload_size
        header_size := start + l.size }

/-! ## Bit fields (`rlc_am_status_report.c`) -/

/-- A place in a PDU: a byte, and a bit of it counted from the left. -/
structure BitPos where
  byte : Nat
  bit : Nat
deriving DecidableEq, Repr

/-- `rlc_am_read_bit_field`, `value` being what was read before. A field of at most 15 bits
lies in at most three bytes, which is what `n` counts. -/
def readBitField (m : Mem) : Nat → BitPos → Nat → Nat → Nat × BitPos
  | 0, pos, _, value => (value, pos)
  | n + 1, pos, bits, value =>
    let b := (m pos.byte).toNat % 2 ^ (8 - pos.bit)
    if 8 - pos.bit > bits then
      (value * 2 ^ bits + b / 2 ^ (8 - pos.bit - bits), { pos with bit := pos.bit + bits })
    else if 8 - pos.bit = bits then (value * 2 ^ bits + b, ⟨pos.byte + 1, 0⟩)
    else
      readBitField m n ⟨pos.byte + 1, 0⟩ (bits - (8 - pos.bit)) (value * 2 ^ (8 - pos.bit) + b)

/-- `rlc_am_write8_bit_field`: the bits of `value` are or-ed in. -/
def write8BitField : Nat → Mem × BitPos → Nat → Nat → Mem × BitPos
  | 0, mp, _, _ => mp
  | n + 1, (m, pos), bits, value =>
    let available := 8 - pos.bit
    let or := fun v : Nat => m.set pos.byte (m pos.byte ||| UInt8.ofNat v)
    if available > bits then
      (or (value % 2 ^ (8 - (available - bits)) * 2 ^ (available - bits)),
        { pos with bit := pos.bit + bits })
    else if available = bits then (or (value % 2 ^ bits), ⟨pos.byte + 1, 0⟩)
    else
      write8BitField n (or (value / 2 ^ (bits - available)),
        ⟨pos.byte + 1, 0⟩) (bits - available) value

def write16BitField (mp : Mem × BitPos) (bits value : Nat) : Mem × BitPos :=
  if bits > 8 then
    write8BitField 2 (write8BitField 2 mp (bits - 8) (value / 256 % 256)) 8 (value % 256)
  else write8BitField 2 mp bits (value % 256)

/-! ## STATUS PDUs -/

/-- `nack_sn_t`. -/
structure NackSn where
  nack_sn : Nat
  e1 : Bool
  e2 : Bool
  so_start : Nat
  so_end : Nat
deriving DecidableEq, Repr

/-- `rlc_am_control_pdu_info_t`; `nack_list` is as long as `num_nack`. -/
structure ControlPduInfo where
  ack_sn : Nat := 0
  nack_list : List NackSn := []
deriving DecidableEq, Repr

/-- One entry of a NACK list, and where it ends. -/
def readNack (m : Mem) (pos : BitPos) : NackSn × BitPos :=
  let (nack_sn, pos) := readBitField m 3 pos 10 0
  let (e1, pos) := readBitField m 3 pos 1 0
  let (e2, pos) := readBitField m 3 pos 1 0
  if e2 = 1 then
    let (so_start, pos) := readBitField m 3 pos 15 0
    let (so_end, pos) := readBitField m 3 pos 15 0
    (⟨nack_sn, e1 = 1, true, so_start, so_end⟩, pos)
  else (⟨nack_sn, e1 = 1, false, 0, 0x7FFF⟩, pos)

/-- The NACK loop, with room for `n` more entries: the list, whether it came to its end, and
where that is. -/
def readNacks (m : Mem) : Nat → BitPos → List NackSn × Bool × BitPos
  | 0, pos => ([], false, pos)
  | n + 1, pos =>
    let (nack, pos) := readNack m pos
    if nack.e1 then
      let (l, ok, pos) := readNacks m n pos
      (nack :: l, ok, pos)
    else ([nack], true, pos)

/-- `rlc_am_get_control_pdu_infos`: what was decoded, if the return is not negative, and
what is left of `total_size`. -/
def rlcAmGetControlPduInfos (m : Mem) (total_size : Int) : Option ControlPduInfo × Int :=
  let b1 := (m 0).toNat
  let b2 := (m 1).toNat
  if b1 / 16 ≠ 0 then (none, total_size)
  else
    let ack_sn := b2 / 4 + b1 % 16 * 64
    if b2 / 2 % 2 = 1 then
      let (l, ok, pos) := readNacks m 1023 ⟨1, 7⟩
      (if ok then some ⟨ack_sn, l⟩ else none, total_size - (pos.byte + (pos.bit + 7) / 8 : Nat))
    else (some ⟨ack_sn, []⟩, total_size - 2)

def writeNack (mp : Mem × BitPos) (nack : NackSn) : Mem × BitPos :=
  let mp := write16BitField mp 10 nack.nack_sn
  let mp := write8BitField 2 mp 1 nack.e1.toNat
  let mp := write8BitField 2 mp 1 nack.e2.toNat
  if nack.e2 then write16BitField (write16BitField mp 15 nack.so_start) 15 nack.so_end else mp

/-- `rlc_am_write_status_pdu` into a cleared block: the PDU and its size. -/
def rlcAmWriteStatusPdu (info : ControlPduInfo) : Mem × Nat :=
  let mp := write16BitField (fun _ => 0, ⟨0, 4⟩) 10 info.ack_sn
  let mp := write8BitField 2 mp 1 (if info.nack_list.length > 0 then 1 else 0)
  let (m, pos) := info.nack_list.foldl writeNack mp
  (m, pos.byte + if pos.bit > 0 then 1 else 0)

end MacRlcSplit.Am
