-- NAS messages with a security header, `nas_message.c`: the functions that
-- protect a message and those that take the protection off. SNOW 3G, AES and
-- the integrity algorithms are parameters, and so is the coding of the plain
-- messages.
import MacRlcSplit.Lib.Stream
import MacRlcSplit.Pdcp.Security

namespace MacRlcSplit.Nas

open Lib
open Am (Byte)
open Pdcp (Direction)

/-! ## Security contexts -/

/-- `struct count_s`. -/
structure Count where
  overflow : UInt16 := 0
  seq_num : UInt8 := 0
deriving DecidableEq, Repr

/-- The ciphering algorithms, and those that the code does not know. -/
inductive Eea where
  | eea0
  | eea1
  | eea2
  | other
deriving DecidableEq, Repr

/-- The integrity algorithms, and those that the code does not know. -/
inductive Eia where
  | eia0
  | eia1
  | eia2
  | other
deriving DecidableEq, Repr

/-- `emm_security_context_t`. -/
structure SecurityContext where
  knas_enc : List Byte
  knas_int : List Byte
  dl_count : Count := {}
  ul_count : Count := {}
  encryption : Eea
  integrity : Eia
deriving DecidableEq, Repr

namespace SecurityContext

def count (ctx : SecurityContext) : Direction → Count
  | .uplink => ctx.ul_count
  | .downlink => ctx.dl_count

def setCount (ctx : SecurityContext) (direction : Direction) (count : Count) : SecurityContext :=
  match direction with
  | .uplink => { ctx with ul_count := count }
  | .downlink => { ctx with dl_count := count }

end SecurityContext

/-- The next message that is sent: the number of overflows follows the sequence number. -/
def Count.next (c : Count) : Count where
  seq_num := c.seq_num + 1
  overflow := if c.seq_num + 1 = 0 then c.overflow + 1 else c.overflow

/-- A message with this sequence number came: if the number is smaller than the last one, there was
an overflow. -/
def Count.heard (c : Count) (sequence_number : UInt8) : Count where
  seq_num := sequence_number
  overflow := if sequence_number < c.seq_num then c.overflow + 1 else c.overflow

/-- The operators `||` and `&&` of C. -/
def logicalOr (a b : Nat) : Nat := if a ≠ 0 ∨ b ≠ 0 then 1 else 0

def logicalAnd (a b : Nat) : Nat := if a ≠ 0 ∧ b ≠ 0 then 1 else 0

/-- `count` as it is put together for the algorithms, in all places in the same way. -/
def Count.used (c : Count) : Nat :=
  logicalOr (logicalOr 0x00000000 (logicalAnd c.overflow.toNat 0x0000FFFF <<< 8))
    (c.seq_num.toNat &&& 0x000000FF)

/-! ## Algorithms -/

/-- `nas_stream_cipher_t`, without the message. -/
structure StreamKey where
  key : List Byte
  count : Nat
  bearer : Nat
  direction : Direction
deriving DecidableEq, Repr

/-- What the functions fill in. -/
def SecurityContext.stream (ctx : SecurityContext) (key : List Byte)
    (direction : Direction) : StreamKey where
  key := key
  count := (ctx.count direction).used
  bearer := 0x00
  direction := direction

/-- A message authentication code, as its octets on the wire. -/
structure Mac where
  a : Byte := 0
  b : Byte := 0
  c : Byte := 0
  d : Byte := 0
deriving DecidableEq, Repr

def Mac.octets (mac : Mac) : List Byte := [mac.a, mac.b, mac.c, mac.d]

/-- The bytes of the key streams, and the codes. -/
structure Algorithms where
  snow3g : StreamKey → Nat → Byte
  aesCtr : StreamKey → Nat → Byte
  eia1 : StreamKey → List Byte → Mac
  eia2 : StreamKey → List Byte → Mac

/-- `nas_stream_encrypt_eea1` for whole octets. It works on words of four, in the memory of the
message, and gives this memory back with that of the output. -/
def nasStreamEncryptEea1 (alg : Algorithms) (k : StreamKey) (length : Nat)
    (message out : List Byte) : Option (List Byte × List Byte) :=
  let n := (length * 8 + 31) / 32
  if n * 4 ≤ message.length then
    let message := xorStream (alg.snow3g k) (message.take (n * 4)) ++ message.drop (n * 4)
    (copyTo (n * 4) message out).map fun out => (message, out)
  else none

/-- `nas_stream_encrypt_eea2` for whole octets. -/
def nasStreamEncryptEea2 (alg : Algorithms) (k : StreamKey) (length : Nat)
    (message out : List Byte) : Option (List Byte × List Byte) :=
  if length ≤ message.length then
    (writeAt 0 (xorStream (alg.aesCtr k) (message.take length)) out).map fun out => (message, out)
  else none

/-! ## Headers -/

def EPS_MOBILITY_MANAGEMENT_MESSAGE : BitVec 4 := 0x7
def EPS_SESSION_MANAGEMENT_MESSAGE : BitVec 4 := 0x2

def SECURITY_HEADER_TYPE_NOT_PROTECTED : BitVec 4 := 0b0000
def SECURITY_HEADER_TYPE_INTEGRITY_PROTECTED : BitVec 4 := 0b0001
def SECURITY_HEADER_TYPE_INTEGRITY_PROTECTED_CYPHERED : BitVec 4 := 0b0010
def SECURITY_HEADER_TYPE_INTEGRITY_PROTECTED_NEW : BitVec 4 := 0b0011
def SECURITY_HEADER_TYPE_INTEGRITY_PROTECTED_CYPHERED_NEW : BitVec 4 := 0b0100
def SECURITY_HEADER_TYPE_SERVICE_REQUEST : BitVec 4 := 0b1100

def NAS_MESSAGE_SECURITY_HEADER_SIZE : Nat := 6

/-- `nas_message_security_header_t`. -/
structure Header where
  protocol_discriminator : BitVec 4 := 0
  security_header_type : BitVec 4 := 0
  message_authentication_code : Mac := {}
  sequence_number : UInt8 := 0
deriving DecidableEq, Repr

def Header.octet (header : Header) : Byte :=
  ⟨header.security_header_type ++ header.protocol_discriminator⟩

/-- The protocol discriminator in the first octet of a message. -/
def discriminatorOf (octet : Byte) : BitVec 4 := octet.toBitVec.extractLsb' 0 4

def headerTypeOf (octet : Byte) : BitVec 4 := octet.toBitVec.extractLsb' 4 4

/-- The message has a security header, and not only the first octet. -/
def Header.secured (header : Header) : Prop :=
  header.protocol_discriminator = EPS_MOBILITY_MANAGEMENT_MESSAGE ∧
    header.security_header_type ≠ SECURITY_HEADER_TYPE_NOT_PROTECTED

instance (header : Header) : Decidable header.secured := inferInstanceAs (Decidable (_ ∧ _))

/-- The two kinds of protected messages. Other types are not known. -/
def plainType (security_header_type : BitVec 4) : Bool :=
  security_header_type = SECURITY_HEADER_TYPE_NOT_PROTECTED || security_header_type =
    SECURITY_HEADER_TYPE_SERVICE_REQUEST ||
    security_header_type = SECURITY_HEADER_TYPE_INTEGRITY_PROTECTED ||
    security_header_type = SECURITY_HEADER_TYPE_INTEGRITY_PROTECTED_NEW

def cypheredType (security_header_type : BitVec 4) : Bool :=
  security_header_type = SECURITY_HEADER_TYPE_INTEGRITY_PROTECTED_CYPHERED ||
    security_header_type = SECURITY_HEADER_TYPE_INTEGRITY_PROTECTED_CYPHERED_NEW

inductive TlvError where
  | encodeBufferTooShort
  | encodeProtocolNotSupported
  | decodeBufferTooShort
  | decodeMacMismatch
  | decodeProtocolNotSupported
  /-- An error of the coding of a plain message. -/
  | plain (code : Nat)
deriving DecidableEq, Repr

namespace Static

/-- `_nas_message_header_encode`: the size of the header, or none for -1, and the buffer. -/
def nasMessageHeaderEncode (buffer : List Byte) (header : Header)
    (length : Nat) : Option (Option Nat × List Byte) := do
  let buffer ← writeAt 0 [header.octet] buffer
  if header.secured then
    if length < NAS_MESSAGE_SECURITY_HEADER_SIZE then some (none, buffer)
    else do
      let buffer ← writeAt 1 (header.message_authentication_code.octets ++ [header.sequence_number])
        buffer
      some (some NAS_MESSAGE_SECURITY_HEADER_SIZE, buffer)
  else some (some 1, buffer)

/-- `_nas_message_header_decode`: the size of the header, or none for -1, and what was read of
it. -/
def nasMessageHeaderDecode (buffer : List Byte) (length : Nat) : Option (Option Nat × Header) :=
  match buffer with
  | [] => none
  | octet :: rest =>
    let header : Header := {
      protocol_discriminator := discriminatorOf octet, security_header_type := headerTypeOf octet }
    if header.secured then
      if length < NAS_MESSAGE_SECURITY_HEADER_SIZE then some (none, header)
      else
        match rest with
        | a :: b :: c :: d :: sequence_number :: _ =>
          some (some NAS_MESSAGE_SECURITY_HEADER_SIZE,
            { header with message_authentication_code := ⟨a, b, c, d⟩, sequence_number :=
              sequence_number })
        | _ => none
    else some (some 1, header)

/-- `_nas_message_encrypt`: the number of bytes, and the memory of the message and of the output. -/
def nasMessageEncrypt (alg : Algorithms) (dest src : List Byte) (security_header_type : BitVec 4)
    (direction : Direction)
    (length : Nat) : Option SecurityContext → Option (Nat × List Byte × List Byte)
  | none => some (0, src, dest)
  | some ctx =>
    if plainType security_header_type then (copyTo length src dest).map fun dest =>
      (length, src, dest)
    else if cypheredType security_header_type then
      match ctx.encryption with
      | .eea1 => (nasStreamEncryptEea1 alg (ctx.stream ctx.knas_enc direction) length src dest).map
          fun r => (length, r)
      | .eea2 => (nasStreamEncryptEea2 alg (ctx.stream ctx.knas_enc direction) length src dest).map
          fun r => (length, r)
      | .eea0 => (copyTo length src dest).map fun dest => (length, src, dest)
      | .other => some (length, src, dest)
    else some (0, src, dest)

/-- The protocol discriminator that a decrypted message starts with. -/
def withDiscriminator (r : List Byte × List Byte) : Option (BitVec 4 × List Byte × List Byte) :=
  r.2.head?.map fun octet => (discriminatorOf octet, r)

/-- `_nas_message_decrypt`: the protocol discriminator of the message, and the memory of the message
and of the output. For EEA2 it calls the function for EEA1. -/
def nasMessageDecrypt (alg : Algorithms) (dest src : List Byte) (security_header_type : BitVec 4)
    (direction : Direction) (length : Nat)
    (ctx : Option SecurityContext) : Option (BitVec 4 × List Byte × List Byte) :=
  if plainType security_header_type then (copyTo length src dest).bind fun dest =>
    withDiscriminator (src, dest)
  else if cypheredType security_header_type then
    ctx.bind fun ctx =>
      match ctx.encryption with
      | .eea1 =>
        (nasStreamEncryptEea1 alg (ctx.stream ctx.knas_enc direction) length src dest).bind
          withDiscriminator
      | .eea2 =>
        (nasStreamEncryptEea1 alg (ctx.stream ctx.knas_enc direction) length src dest).bind
          withDiscriminator
      | .eea0 => (copyTo length src dest).bind fun dest => withDiscriminator (src, dest)
      | .other => (copyTo length src dest).bind fun dest => withDiscriminator (src, dest)
  else some (0, src, dest)

def nasMessageGetMac (alg : Algorithms) (buffer : List Byte) (length : Nat)
    (direction : Direction) : Option SecurityContext → Option Mac
  | none => some {}
  | some ctx =>
    match ctx.integrity with
    | .eia1 =>
      if length ≤ buffer.length then some (alg.eia1 (ctx.stream ctx.knas_int direction)
        (buffer.take length)) else none
    | .eia2 =>
      if length ≤ buffer.length then some (alg.eia2 (ctx.stream ctx.knas_int direction)
        (buffer.take length)) else none
    | .eia0 => some {}
    | .other => some {}

end Static

/-! ## Both ends -/

/-- The build for the UE, and that for the MME (`NAS_MME`). -/
inductive Side where
  | ue
  | mme
deriving DecidableEq, Repr

def Side.sends : Side → Direction
  | .ue => .uplink
  | .mme => .downlink

def Side.receives : Side → Direction
  | .ue => .downlink
  | .mme => .uplink

/-- The code of a message that was put into the buffer is computed from its sequence number on, and
written before it. -/
def addMac (alg : Algorithms) (side : Side) (buffer : List Byte) (size bytes : Nat)
    (ctx : Option SecurityContext) : Option (List Byte) := do
  let offset := size - 1
  let mac ← Static.nasMessageGetMac alg (buffer.drop offset) (bytes + size - offset) side.sends ctx
  writeAt 1 mac.octets buffer

/-- What a function leaves: its result, the memory of the input and of the output, and the
context. -/
structure Coded (ρ : Type) where
  result : Except TlvError ρ
  inbuf : List Byte
  outbuf : List Byte
  ctx : Option SecurityContext

/-- `nas_message_encrypt`. The counter goes on also for a message that is not protected. -/
def nasMessageEncrypt (alg : Algorithms) (side : Side) (inbuf outbuf : List Byte) (header : Header)
    (length : Nat) (ctx : Option SecurityContext) : Option (Coded Nat) := do
  let (size, outbuf) ← Static.nasMessageHeaderEncode outbuf header length
  match size with
  | none => some ⟨.error .encodeBufferTooShort, inbuf, outbuf, ctx⟩
  | some size =>
    let (bytes, inbuf, outbuf) ←
      if 1 < size then do
        let (bytes, inbuf, dest) ← Static.nasMessageEncrypt alg (outbuf.drop size) inbuf
          header.security_header_type side.sends (length - size) ctx
        let outbuf := outbuf.take size ++ dest
        let outbuf ← if 0 < bytes then addMac alg side outbuf size bytes ctx else some outbuf
        some (bytes, inbuf, outbuf)
      else (copyTo length inbuf outbuf).map fun outbuf => (length, inbuf, outbuf)
    let ctx ← ctx
    some ⟨.ok (if 1 < size then size + bytes else bytes), inbuf, outbuf,
      some (ctx.setCount side.sends (ctx.count side.sends).next)⟩

/-- `nas_message_decrypt`, with the header that it fills in. The counter is set before the code is
checked. -/
def nasMessageDecrypt (alg : Algorithms) (side : Side) (inbuf outbuf : List Byte) (length : Nat)
    (ctx : Option SecurityContext) : Option (Coded (Nat × Header)) := do
  let (size, header) ← Static.nasMessageHeaderDecode inbuf length
  match size with
  | none => some ⟨.error .decodeBufferTooShort, inbuf, outbuf, ctx⟩
  | some size =>
    if 1 < size then do
      let ctx := ctx.map fun ctx =>
        ctx.setCount side.receives ((ctx.count side.receives).heard header.sequence_number)
      let offset := size - 1
      let mac ← Static.nasMessageGetMac alg (inbuf.drop offset) (length - offset) side.receives ctx
      let refused ←
        if mac = header.message_authentication_code then some false
        else match side with
          | .mme => some true
          | .ue => ctx.map fun ctx => ctx.integrity ≠ .eia0
      if refused then some ⟨.error .decodeMacMismatch, inbuf, outbuf, ctx⟩
      else do
        let (protocol_discriminator, src, outbuf) ← Static.nasMessageDecrypt alg outbuf
          (inbuf.drop size) header.security_header_type side.receives (length - size) ctx
        some ⟨.ok (length - size, { header with protocol_discriminator := protocol_discriminator }),
          inbuf.take size ++ src, outbuf, ctx⟩
    else do
      let outbuf ← copyTo length inbuf outbuf
      some ⟨.ok (length, header), inbuf, outbuf, ctx⟩

/-! ## Messages -/

/-- The coding of the plain messages: the encoded octets, and the message with the number of octets
that it takes. -/
structure Codec (M : Type) where
  emm_msg_encode : M → Nat → Except TlvError (List Byte)
  esm_msg_encode : M → Nat → Except TlvError (List Byte)
  emm_msg_decode : List Byte → Except TlvError (M × Nat)
  esm_msg_decode : List Byte → Except TlvError (M × Nat)

section Messages

variable {M : Type}

namespace Static

def nasMessagePlainDecode (codec : Codec M) (buffer : List Byte) (protocol_discriminator : BitVec 4)
    (length : Nat) : Except TlvError (M × Nat) :=
  if protocol_discriminator = EPS_MOBILITY_MANAGEMENT_MESSAGE then codec.emm_msg_decode
    (buffer.take length)
  else if protocol_discriminator =
    EPS_SESSION_MANAGEMENT_MESSAGE then codec.esm_msg_decode (buffer.take length)
  else .error .decodeProtocolNotSupported

def nasMessagePlainEncode (codec : Codec M) (protocol_discriminator : BitVec 4) (msg : M)
    (length : Nat) : Except TlvError (List Byte) :=
  if protocol_discriminator = EPS_MOBILITY_MANAGEMENT_MESSAGE then codec.emm_msg_encode msg length
  else if protocol_discriminator =
    EPS_SESSION_MANAGEMENT_MESSAGE then codec.esm_msg_encode msg length
  else .error .encodeProtocolNotSupported

/-- `_nas_message_protected_encode`: the message is encoded in memory of its own, of `length`
octets. -/
def nasMessageProtectedEncode (alg : Algorithms) (codec : Codec M) (side : Side) (dest : List Byte)
    (header : Header) (msg : M) (length : Nat) (ctx : Option SecurityContext) :
    Option (Except TlvError Nat × List Byte) :=
  match nasMessagePlainEncode codec header.protocol_discriminator msg length with
  | .error _ => some (.error .encodeBufferTooShort, dest)
  | .ok plain =>
    if plain.length = 0 then some (.error .encodeBufferTooShort, dest)
    else do
      let plain_msg ← copyTo plain.length plain (List.replicate length 0)
      let (bytes, _, dest) ← nasMessageEncrypt alg dest plain_msg header.security_header_type
        side.sends plain.length ctx
      some (.ok bytes, dest)

/-- `_nas_message_protected_decode`: the message is decrypted to memory of its own, of `length`
octets. -/
def nasMessageProtectedDecode (alg : Algorithms) (codec : Codec M) (side : Side)
    (buffer : List Byte) (header : Header) (length : Nat) (ctx : Option SecurityContext) :
    Option (Except TlvError (M × Nat) × List Byte) := do
  let (protocol_discriminator, buffer, plain_msg) ← nasMessageDecrypt alg (List.replicate length 0)
    buffer header.security_header_type side.receives length ctx
  some (nasMessagePlainDecode codec plain_msg protocol_discriminator length, buffer)

end Static

/-- What a function leaves that has one buffer. -/
structure Buffered (ρ : Type) where
  result : Except TlvError ρ
  buffer : List Byte
  ctx : Option SecurityContext

/-- `nas_message_encode`. The counter goes on only for a message that got a code. -/
def nasMessageEncode (alg : Algorithms) (codec : Codec M) (side : Side) (buffer : List Byte)
    (header : Header) (msg : M) (length : Nat)
    (ctx : Option SecurityContext) : Option (Buffered Nat) := do
  let (size, buffer) ← Static.nasMessageHeaderEncode buffer header length
  match size with
  | none => some ⟨.error .encodeBufferTooShort, buffer, ctx⟩
  | some size =>
    if 1 < size then do
      let (bytes, dest) ← Static.nasMessageProtectedEncode alg codec side (buffer.drop size) header
        msg (length - size) ctx
      let buffer := buffer.take size ++ dest
      match bytes with
      | .error e => some ⟨.error e, buffer, ctx⟩
      | .ok bytes =>
        if 0 < bytes then do
          let buffer ← addMac alg side buffer size bytes ctx
          some ⟨.ok (size + bytes), buffer, ctx.map fun ctx =>
            ctx.setCount side.sends (ctx.count side.sends).next⟩
        else some ⟨.ok (size + bytes), buffer, ctx⟩
    else
      match Static.nasMessagePlainEncode codec header.protocol_discriminator msg length with
      | .error e => some ⟨.error e, buffer, ctx⟩
      | .ok octets => do
        let buffer ← writeAt 0 octets buffer
        some ⟨.ok octets.length, buffer, ctx⟩

/-- `nas_message_decode`. The counter is set before the code is checked, and without a context every
code is taken. -/
def nasMessageDecode (alg : Algorithms) (codec : Codec M) (side : Side) (buffer : List Byte)
    (length : Nat) (ctx : Option SecurityContext) : Option (Buffered (M × Nat)) := do
  let (size, header) ← Static.nasMessageHeaderDecode buffer length
  match size with
  | none => some ⟨.error .decodeBufferTooShort, buffer, ctx⟩
  | some size =>
    if 1 < size then do
      let ctx := ctx.map fun ctx =>
        ctx.setCount side.receives ((ctx.count side.receives).heard header.sequence_number)
      let offset := size - 1
      let mac ← Static.nasMessageGetMac alg (buffer.drop offset) (length - offset) side.receives ctx
      let mac :=
        if ctx.isNone ∧ mac = {} ∧ header.message_authentication_code ≠
          {} then header.message_authentication_code
        else mac
      if mac ≠ header.message_authentication_code then some ⟨.error .decodeMacMismatch, buffer, ctx⟩
      else do
        let (bytes, src) ← Static.nasMessageProtectedDecode alg codec side (buffer.drop size) header
          (length - size) ctx
        some ⟨bytes.map fun r => (r.1, size + r.2), buffer.take size ++ src, ctx⟩
    else some ⟨Static.nasMessagePlainDecode codec buffer header.protocol_discriminator length,
      buffer, ctx⟩

end Messages

end MacRlcSplit.Nas
