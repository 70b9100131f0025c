-- The header of a MAC PDU: how `generate_dlsch_header` and
-- `generate_ulsch_header` write subheaders, and how `parse_header` and
-- `parse_ulsch_header` read them. Both directions share their steps.
import MacRlcSplit.Am.Memory

namespace MacRlcSplit.Mac

open Am (Byte Mem)

/-! ## Sizes of arrays -/

def NB_RB_MAX : Nat := 14

def MAX_NUM_CE : Nat := 5

/-- The LCID of padding, for both directions. -/
def SHORT_PADDING : Nat := 31

/-- The LCIDs of signalling. -/
def CCCH : Nat := 0

def DCCH : Nat := 1

def DCCH1 : Nat := 2

/-- The first LCID of a bearer. -/
def DTCH : Nat := 3

/-! ## Numerals The aggregation levels of a DCI, the LCGIDs and the places of `RA_template` are four
each, and a BSR has 64 levels. -/

instance neZero_four : NeZero 4 := ⟨by decide⟩

instance neZero_sixtyFour : NeZero 64 := ⟨by decide⟩

/-! ## Writing -/

/-- `SCH_SUBHEADER_FIXED`, with R = 0: LCID in 5 bits and E. -/
def fixedByte (e : Bool) (lcid : Nat) : Byte := UInt8.ofNat (lcid % 32 + if e then 32 else 0)

/-- The variables of the two functions that write a header. -/
structure Writer where
  mac_header : Mem
  /-- `mac_header_ptr`, from the start of the header. -/
  ptr : Nat := 0
  first_element : Bool := false
  last_size : Nat := 0
  /-- `mac_header_control_elements`, up to `ce_ptr`. -/
  ces : List Byte := []

namespace Writer

/-- `mac_header_ptr->E = 1`. -/
def setE (w : Writer) : Writer :=
  { w with mac_header := w.mac_header.set w.ptr (w.mac_header w.ptr ||| 0x20) }

def setFixed (w : Writer) (lcid : Nat) : Writer :=
  { w with mac_header := w.mac_header.set w.ptr (fixedByte false lcid), last_size := 1 }

/-- Another subheader follows: the one before it gets its E bit, and the pointer moves on. -/
def next (w : Writer) (size : Nat) : Writer :=
  if w.first_element then { w.setE with ptr := w.ptr + size } else { w with first_element := true }

/-- One or two bytes of padding in front of everything else. -/
def shortPadding (w : Writer) (short_padding : Nat) : Writer :=
  let w := if short_padding = 1 ∨ short_padding = 2 then
      { w.setFixed SHORT_PADDING with first_element := true } else w
  if short_padding = 2 then { w.setE with ptr := w.ptr + 1 }.setFixed SHORT_PADDING else w

/-- The subheader of a control element, whose bytes are kept for the end. -/
def controlElement (w : Writer) (lcid : Nat) (ce : List Byte) : Writer :=
  let w := (w.next 1).setFixed lcid
  { w with ces := w.ces ++ ce }

/-- The subheader of an SDU, `SCH_SUBHEADER_SHORT` or `SCH_SUBHEADER_LONG`. The second one clears
the byte after it, too. -/
def sdu (w : Writer) (lcid length : Nat) : Writer :=
  let w := w.next w.last_size
  if length < 128 then
    { w with
      mac_header :=
        (w.mac_header.set w.ptr (fixedByte false lcid)).set (w.ptr + 1) (UInt8.ofNat length)
      last_size := 2 }
  else
    { w with
      mac_header := (((w.mac_header.set w.ptr (fixedByte false lcid)).set (w.ptr + 1)
        (UInt8.ofNat (128 + length / 256 % 128))).set (w.ptr + 2) (UInt8.ofNat length)).set
          (w.ptr + 3) 0
      last_size := 3 }

/-- The subheaders of all SDUs, given by their LCIDs and lengths. -/
def sdus (w : Writer) (l : List (Nat × Nat)) : Writer := l.foldl (fun w x => w.sdu x.1 x.2) w

/-- A subheader for padding at the end, or else only the first byte of the last subheader, and then
the control elements. -/
def finish (w : Writer) (post_padding : Nat) : Writer :=
  let w := if post_padding > 0 then
      let w := { w.setE with ptr := w.ptr + w.last_size }.setFixed SHORT_PADDING
      { w with ptr := w.ptr + 1 }
    else { w with ptr := w.ptr + 1 }
  { w with mac_header := w.mac_header.copy w.ptr w.ces, ptr := w.ptr + w.ces.length }

end Writer

/-! ## Reading -/

/-- In what `parse_header` and `parse_ulsch_header` differ. -/
structure Format where
  /-- The LCIDs below are those of SDUs. -/
  limit : Nat
  /-- The bytes of a control element; none for one that stops the process. -/
  ceLen : Nat → Option Nat

/-- What has been read: the place in the header, `rx_ces`, and `rx_lcids` with `rx_lengths`. -/
structure Parsed where
  ptr : Nat := 0
  ce_len : Nat := 0
  ces : List Nat := []
  sdus : List (Nat × Nat) := []
deriving DecidableEq, Repr

/-- What is left of the transport block for the last SDU, an `unsigned short`. -/
def Parsed.implicitLength (p : Parsed) (tb_length : Nat) : Nat :=
  (((tb_length : Int) - (p.ptr + 1) - p.ce_len - (p.sdus.map Prod.snd).sum) % 2 ^ 16).toNat

section Parsing

variable (format : Format) (mac_header : Mem) (size tb_length : Nat)

/-- One subheader. Bytes from `size` on are not part of the block, and the arrays have their sizes:
what reads or writes beyond has no meaning. -/
def Parsed.next (p : Parsed) : Option Parsed :=
  let lcid := (mac_header p.ptr).toNat % 32
  let more := (mac_header p.ptr).toNat / 32 % 2 = 1
  if p.ptr ≥ size then none
  else if lcid < format.limit then
    if p.sdus.length ≥ NB_RB_MAX then none
    else if ¬ more then
      some { p with ptr := p.ptr + 1, sdus := p.sdus ++ [(lcid, p.implicitLength tb_length)] }
    else if (mac_header (p.ptr + 1)).toNat / 128 = 1 then
      if p.ptr + 3 > size then none
      else some
        { p with
          ptr := p.ptr + 3
          sdus := p.sdus ++ [(lcid,
            (mac_header (p.ptr + 1)).toNat % 128 * 256 + (mac_header (p.ptr + 2)).toNat)] }
    else if p.ptr + 2 > size then none
    else some { p with ptr := p.ptr + 2, sdus := p.sdus ++
      [(lcid, (mac_header (p.ptr + 1)).toNat % 128)] }
  else if lcid = SHORT_PADDING then some { p with ptr := p.ptr + 1 }
  else if p.ces.length ≥ MAX_NUM_CE then none
  else (format.ceLen lcid).map fun n =>
    { p with ptr := p.ptr + 1, ces := p.ces ++ [lcid], ce_len := p.ce_len + n }

/-- The loop over subheaders, up to the one without an E bit. -/
def parseFrom : Nat → Parsed → Option Parsed
  | 0, _ => none
  | fuel + 1, p => (p.next format mac_header size tb_length).bind fun p' =>
    if (mac_header p.ptr).toNat / 32 % 2 = 1 then parseFrom fuel p' else some p'

/-- Every subheader has at least one byte, so that there are no more than bytes in the block. -/
def parse : Option Parsed := parseFrom format mac_header size tb_length size {}

end Parsing

end MacRlcSplit.Mac
