-- Ciphering and integrity protection, `pdcp_security.c`. The algorithms are
-- parameters: SNOW 3G and AES are outside this model.
import MacRlcSplit.Pdcp.Config
import MacRlcSplit.Pdcp.Sequence

namespace MacRlcSplit.Pdcp

open Am (Byte)

/-! ## COUNT -/

/-- `hfn << bits | (pdcp_sn & mask)`, a `uint32_t`. -/
def countOf (bits hfn pdcp_sn : Nat) : Nat := hfn <<< bits % 2 ^ 32 ||| pdcp_sn % 2 ^ bits

/-- The bits of the SN in COUNT. For a DRB, the size in bits is compared with the value of the
enumeration. -/
def countBits (p : Entity) (srb_flag : Bool) : Nat :=
  if srb_flag then 5
  else if p.seq_num_size = SnSize.len7bits.toNat then 7
  else 12

def pdcpGetNextCountTx (p : Entity) (srb_flag : Bool) (pdcp_sn : Nat) : Nat :=
  countOf (countBits p srb_flag) p.tx_hfn pdcp_sn

/-- The offset of the HFN is used up. -/
def pdcpGetNextCountRx (p : Entity) (srb_flag : Bool)
    (pdcp_sn : Nat) : Entity × Nat := ({ p with rx_hfn_offset := 0 },
    countOf (countBits p srb_flag) ((p.rx_hfn + p.rx_hfn_offset) % 2 ^ 32).toNat pdcp_sn)

/-! ## Algorithms -/

inductive Direction where
  | uplink
  | downlink
deriving DecidableEq, Repr

/-- `stream_cipher_t`, without the message, and with its length in bytes. -/
structure StreamCipher where
  key : List Byte
  count : Nat
  bearer : Nat
  direction : Direction
  length : Nat
deriving DecidableEq, Repr

/-- EEA1, EEA2, EIA1 and EIA2. A cipher works in place on the buffer from the message on, and may
reach past the message's length; a MAC-I has four bytes. -/
structure Osa where
  eea1 : StreamCipher → List Byte → List Byte
  eea2 : StreamCipher → List Byte → List Byte
  eia1 : StreamCipher → List Byte → List Byte
  eia2 : StreamCipher → List Byte → List Byte
  length_eea1 : ∀ c bytes, (eea1 c bytes).length = bytes.length
  length_eea2 : ∀ c bytes, (eea2 c bytes).length = bytes.length
  length_eia1 : ∀ c bytes, (eia1 c bytes).length = 4
  length_eia2 : ∀ c bytes, (eia2 c bytes).length = 4

/-- The ciphers are their own inverses. -/
structure Osa.Involutive (osa : Osa) : Prop where
  eea1 : ∀ c bytes, osa.eea1 c (osa.eea1 c bytes) = bytes
  eea2 : ∀ c bytes, osa.eea2 c (osa.eea2 c bytes) = bytes

/-- Ciphers that change nothing, and MAC-Is of zeroes. -/
def Osa.plain : Osa where
  eea1 _ bytes := bytes
  eea2 _ bytes := bytes
  eia1 _ _ := List.replicate 4 0
  eia2 _ _ := List.replicate 4 0
  length_eea1 _ _ := rfl
  length_eea2 _ _ := rfl
  length_eia1 _ _ := rfl
  length_eia2 _ _ := rfl

section Streams

variable (osa : Osa)

/-- An algorithm that is not supported leaves the buffer as it is. -/
def streamEncrypt (algorithm : Nat) (c : StreamCipher) (bytes : List Byte) : List Byte :=
  match algorithm with
  | 1 => osa.eea1 c bytes
  | 2 => osa.eea2 c bytes
  | _ => bytes

def streamComputeIntegrity (algorithm : Nat) (c : StreamCipher)
    (bytes : List Byte) : Option (List Byte) :=
  match algorithm with
  | 1 => some (osa.eia1 c (bytes.take c.length))
  | 2 => some (osa.eia2 c (bytes.take c.length))
  | _ => none

def streamCheckIntegrity (algorithm : Nat) (c : StreamCipher) (bytes expected : List Byte) : Bool :=
  if algorithm ≠ 0 then
    match streamComputeIntegrity osa algorithm c bytes with
    | none => false
    | some result => result = expected.take 4
  else true

/-! ## A PDU -/

/-- The part of a buffer from `header_len` on is ciphered. -/
def cipherFrom (algorithm : Nat) (c : StreamCipher) (header_len : Nat)
    (pdu : List Byte) : List Byte :=
  pdu.take header_len ++ streamEncrypt osa algorithm c (pdu.drop header_len)

/-- The key of a plane, the second half of the integrity key. -/
def Entity.encKey (p : Entity) (srb_flag : Bool) : List Byte :=
  if srb_flag then p.kRRCenc else p.kUPenc

/-- The parameters for a PDU of this bearer, with the key and length to be given. -/
def cipherOf (direction : Direction) (rb_id count : Nat) (key : List Byte)
    (length : Nat) : StreamCipher where
  key := key
  count := count
  bearer := (rb_id + 255) % 2 ^ 8
  direction := direction
  length := length

/-- The MAC-I of a control PDU is written after the SDU, and then the SDU is ciphered. -/
def pdcpApplySecurity (p : Entity) (srb_flag : Bool) (rb_id header_len current_sn : Nat)
    (pdu : List Byte) (sdu_buffer_size : Nat) : List Byte :=
  let direction := if p.is_ue then .uplink else .downlink
  let count := pdcpGetNextCountTx p srb_flag current_sn
  let size := header_len + sdu_buffer_size
  let pdu :=
    if srb_flag then
      match streamComputeIntegrity osa p.integrityProtAlgorithm
          (cipherOf direction rb_id count (p.kRRCint.drop 16) size) pdu with
      | none => pdu
      | some mac_i => pdu.take size ++ mac_i
    else pdu
  cipherFrom osa p.cipheringAlgorithm
    (cipherOf direction rb_id count (p.encKey srb_flag) sdu_buffer_size) header_len pdu

/-- What is left of the entity and of the buffer, and whether the MAC-I is right; `size` does not
count the MAC-I. -/
def pdcpValidateSecurity (p : Entity) (srb_flag : Bool) (rb_id header_len current_sn : Nat)
    (pdu : List Byte) (size : Nat) : Entity × List Byte × Bool :=
  let direction := if p.is_ue then .downlink else .uplink
  let (p', count) := pdcpGetNextCountRx p srb_flag current_sn
  let plain := cipherFrom osa p.cipheringAlgorithm
    (cipherOf direction rb_id count (p.encKey srb_flag) (size - header_len)) header_len pdu
  (p', plain, if srb_flag then
      streamCheckIntegrity osa p.integrityProtAlgorithm
        (cipherOf direction rb_id count (p.kRRCint.drop 16) size) plain (plain.drop size)
    else true)

end Streams

end MacRlcSplit.Pdcp
