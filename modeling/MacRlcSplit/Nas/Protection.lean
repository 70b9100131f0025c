-- What protecting a NAS message writes, and what the peer reads of it. The
-- peer has the message back unless it is ciphered with EEA2, or with EEA1 and
-- not made of whole words.
import MacRlcSplit.Nas.Message

namespace MacRlcSplit.Nas

open Lib List Option
open Am (Byte)
open Pdcp (Direction)

variable {alg : Algorithms} {ctx : SecurityContext} {header : Header} {message rest b c : List Byte}

/-! ## Headers -/

theorem discriminatorOf_octet (header : Header) :
    discriminatorOf header.octet = header.protocol_discriminator :=
  BitVec.extractLsb'_append_eq_right

theorem headerTypeOf_octet (header : Header) : headerTypeOf header.octet =
    header.security_header_type :=
  BitVec.extractLsb'_append_eq_left

def Header.octets (header : Header) : List Byte :=
  header.octet :: (header.message_authentication_code.octets ++ [header.sequence_number])

theorem Header.length_octets (header : Header) : header.octets.length = 6 := rfl

namespace Static

theorem nasMessageHeaderEncode_eq (hsecured : header.secured) (hb : b.length = 6) {length : Nat}
    (hlength : 6 ≤ length) :
    nasMessageHeaderEncode (b ++ c) header length = some (some 6, header.octets ++ c) := by
  obtain ⟨first, b', rfl⟩ := exists_cons_of_length_eq_add_one hb
  have hfirst : writeAt 0 [header.octet] (first :: b' ++ c) = some (header.octet :: (b' ++ c)) :=
    writeAt_append (a := []) rfl rfl
  have hrest : writeAt 1 (header.message_authentication_code.octets ++ [header.sequence_number])
      (header.octet :: (b' ++ c)) = some (header.octets ++ c) :=
    writeAt_append (a := [header.octet]) rfl (Nat.succ.inj hb)
  have hlong : ¬ length < NAS_MESSAGE_SECURITY_HEADER_SIZE := Nat.not_lt.2 hlength
  simp only [nasMessageHeaderEncode, hfirst, bind_eq_bind, bind_some, if_pos hsecured, if_neg hlong,
    hrest]
  rfl

theorem nasMessageHeaderDecode_eq (hsecured : header.secured) {length : Nat}
    (hlength : 6 ≤ length) :
    nasMessageHeaderDecode (header.octets ++ c) length = some (some 6, header) := by
  have hlong : ¬ length < NAS_MESSAGE_SECURITY_HEADER_SIZE := Nat.not_lt.2 hlength
  simp only [nasMessageHeaderDecode, Header.octets, Mac.octets, cons_append, nil_append,
    discriminatorOf_octet, headerTypeOf_octet]
  exact (if_pos hsecured).trans (if_neg hlong)

end Static

/-! ## Ciphering -/

/-- What a message is ciphered to. -/
def cipherOf (alg : Algorithms) (ctx : SecurityContext) (security_header_type : BitVec 4)
    (direction : Direction) (message : List Byte) : List Byte :=
  if cypheredType security_header_type then
    match ctx.encryption with
    | .eea1 => xorStream (alg.snow3g (ctx.stream ctx.knas_enc direction)) message
    | .eea2 => xorStream (alg.aesCtr (ctx.stream ctx.knas_enc direction)) message
    | .eea0 | .other => message
  else message

theorem length_cipherOf (alg : Algorithms) (ctx : SecurityContext) (type : BitVec 4)
    (dir : Direction) (message : List Byte) : (cipherOf alg ctx type dir message).length =
      message.length := by
  unfold cipherOf
  split
  · split <;> simp
  · rfl

/-- Of whole words, nothing but the message is read and written. -/
theorem nasStreamEncryptEea1_eq (alg : Algorithms) (k : StreamKey) (rest c : List Byte)
    (hwords : 4 ∣ message.length) (hb : b.length = message.length) :
    nasStreamEncryptEea1 alg k message.length (message ++ rest) (b ++ c) =
      some (xorStream (alg.snow3g k) message ++ rest, xorStream (alg.snow3g k) message ++ c) := by
  have hn : (message.length * 8 + 31) / 32 * 4 = message.length := by omega
  have hle : message.length ≤ (message ++ rest).length := (prefix_append message rest).length_le
  have hcopy : copyTo message.length (xorStream (alg.snow3g k) message ++ rest) (b ++ c) =
      some (xorStream (alg.snow3g k) message ++ c) := copyTo_append (length_xorStream _ _).symm hb
  simp only [nasStreamEncryptEea1, hn, if_pos hle, take_left, drop_left, hcopy, map_some]

theorem nasStreamEncryptEea2_eq (alg : Algorithms) (k : StreamKey) (rest c : List Byte)
    (hb : b.length = message.length) :
    nasStreamEncryptEea2 alg k message.length (message ++ rest) (b ++ c) =
      some (message ++ rest, xorStream (alg.aesCtr k) message ++ c) := by
  have hle : message.length ≤ (message ++ rest).length := (prefix_append message rest).length_le
  have hwrite : writeAt 0 (xorStream (alg.aesCtr k) message) (b ++ c) =
      some (xorStream (alg.aesCtr k) message ++ c) :=
    writeAt_append (a := []) rfl (hb.trans (length_xorStream _ _).symm)
  simp only [nasStreamEncryptEea2, if_pos hle, take_left, hwrite, map_some]

def KnownType (security_header_type : BitVec 4) : Prop :=
  plainType security_header_type = true ∨ cypheredType security_header_type = true

instance (security_header_type : BitVec 4) : Decidable (KnownType security_header_type) :=
  inferInstanceAs (Decidable (_ ∨ _))

theorem plainType_false : ∀ security_header_type : BitVec 4, cypheredType security_header_type →
    plainType security_header_type = false := by
  decide

theorem cypheredType_false : ∀ security_header_type : BitVec 4, plainType security_header_type →
    cypheredType security_header_type = false := by
  decide

/-- EEA1 works on whole words, and the algorithm is one that the code knows. -/
def Fits (encryption : Eea) (length : Nat) : Prop :=
  encryption ≠ .other ∧ (encryption = .eea1 → 4 ∣ length)

namespace Static

theorem nasMessageEncrypt_eq (alg : Algorithms) {type : BitVec 4} (dir : Direction)
    (rest c : List Byte) (hknown : KnownType type)
    (hfits : cypheredType type → Fits ctx.encryption message.length)
    (hb : b.length = message.length) :
    ∃ src, nasMessageEncrypt alg (b ++ c) (message ++ rest) type dir message.length (some ctx) =
      some (message.length, src, cipherOf alg ctx type dir message ++ c) := by
  rcases hknown with hplain | hcyphered
  · simp [nasMessageEncrypt, cipherOf, hplain, cypheredType_false _ hplain, copyTo_append rfl hb]
  obtain ⟨hother, hwords⟩ := hfits hcyphered
  simp only [nasMessageEncrypt, cipherOf, plainType_false _ hcyphered, hcyphered,
    Bool.false_eq_true, if_false, if_true]
  cases he : ctx.encryption with
  | eea0 => exact ⟨_, by simp only [copyTo_append rfl hb]; rfl⟩
  | eea1 => exact ⟨_, by simp only [nasStreamEncryptEea1_eq _ _ _ _ (hwords he) hb]; rfl⟩
  | eea2 => exact ⟨_, by simp only [nasStreamEncryptEea2_eq _ _ _ _ hb]; rfl⟩
  | other => exact absurd he hother

/-- A message is taken back with the stream that it was ciphered with. Only the function for EEA1 is
called. -/
theorem nasMessageDecrypt_eq (alg : Algorithms) {type : BitVec 4} (dir : Direction)
    (rest c : List Byte) (hne : message ≠ []) (hknown : KnownType type)
    (hfits : cypheredType type → Fits ctx.encryption message.length ∧ ctx.encryption ≠ .eea2)
    (hb : b.length = message.length) : ∃ src,
    nasMessageDecrypt alg (b ++ c) (cipherOf alg ctx type dir message ++ rest)
      type dir message.length (some ctx) = some (discriminatorOf (message.head hne), src,
        message ++ c) := by
  have hhead : ∀ src, withDiscriminator (src, message ++ c) =
      some (discriminatorOf (message.head hne), src, message ++ c) := by
    intro src
    obtain ⟨octet, tail, rfl⟩ := exists_cons_of_ne_nil hne
    rfl
  rcases hknown with hplain | hcyphered
  · simp [nasMessageDecrypt, cipherOf, hplain, cypheredType_false _ hplain, copyTo_append rfl hb,
      hhead]
  obtain ⟨⟨hother, hwords⟩, heea2⟩ := hfits hcyphered
  simp only [nasMessageDecrypt, cipherOf, plainType_false _ hcyphered, hcyphered,
    Bool.false_eq_true, if_false, if_true, bind_some]
  cases he : ctx.encryption with
  | eea0 => exact ⟨_, by simp only [copyTo_append rfl hb, bind_some, hhead]; rfl⟩
  | eea1 =>
    have hlen := length_xorStream (alg.snow3g (ctx.stream ctx.knas_enc dir)) message
    have hstream :=
      nasStreamEncryptEea1_eq alg (ctx.stream ctx.knas_enc dir) rest c (hlen.symm ▸ hwords he)
      (hb.trans hlen.symm)
    rw [length_xorStream, xorStream_twice] at hstream
    exact ⟨_, by simp only [hstream, bind_some, hhead]; rfl⟩
  | eea2 => exact absurd he heea2
  | other => exact absurd he hother

end Static

/-! ## Codes -/

/-- The code of a message, from its sequence number on, for a COUNT. -/
def macFor (alg : Algorithms) (ctx : SecurityContext) (direction : Direction) (count : Nat)
    (octets : List Byte) : Mac :=
  match ctx.integrity with
  | .eia1 => alg.eia1 ⟨ctx.knas_int, count, 0x00, direction⟩ octets
  | .eia2 => alg.eia2 ⟨ctx.knas_int, count, 0x00, direction⟩ octets
  | .eia0 | .other => {}

def macOf (alg : Algorithms) (ctx : SecurityContext) (direction : Direction)
    (octets : List Byte) : Mac :=
  macFor alg ctx direction (ctx.count direction).used octets

variable {length : Nat} {side : Side}

theorem Static.nasMessageGetMac_eq (alg : Algorithms) (ctx : SecurityContext) (dir : Direction)
    (rest : List Byte) (hlength : length = message.length) :
    nasMessageGetMac alg (message ++ rest) length dir (some ctx) =
      some (macOf alg ctx dir message) := by
  subst hlength
  have hle : message.length ≤ (message ++ rest).length := (prefix_append message rest).length_le
  simp only [nasMessageGetMac, macOf, macFor, if_pos hle, take_left]
  cases ctx.integrity <;> rfl

/-- A header and the octets that follow it, with the code of them. -/
def sealed (alg : Algorithms) (ctx : SecurityContext) (direction : Direction) (header : Header)
    (octets : List Byte) : Header :=
  { header with
    message_authentication_code := macOf alg ctx direction (header.sequence_number :: octets) }

theorem addMac_eq (alg : Algorithms) (ctx : SecurityContext) (side : Side) (header : Header)
    (octets c : List Byte) :
    addMac alg side (header.octets ++ (octets ++ c)) 6 octets.length (some ctx) =
      some ((sealed alg ctx side.sends header octets).octets ++ (octets ++ c)) := by
  have hlen : octets.length + 6 - 5 = (header.sequence_number :: octets).length := by
    rw [length_cons]
    omega
  have hmac := Static.nasMessageGetMac_eq alg ctx side.sends c hlen
  simp only [addMac]
  rw [show (header.octets ++ (octets ++ c)).drop (6 - 1) =
    (header.sequence_number :: octets) ++ c from rfl, hmac]
  have hlen' : header.message_authentication_code.octets.length =
      (macOf alg ctx side.sends (header.sequence_number :: octets)).octets.length := rfl
  exact writeAt_append (a := [header.octet]) rfl hlen'

/-! ## What a protected message is -/

/-- The octets of a protected message. -/
def protectedOctets (alg : Algorithms) (ctx : SecurityContext) (direction : Direction)
    (header : Header) (message : List Byte) : List Byte :=
  let cipher := cipherOf alg ctx header.security_header_type direction message
  (sealed alg ctx direction header cipher).octets ++ cipher

theorem length_protectedOctets (alg : Algorithms) (ctx : SecurityContext) (dir : Direction)
    (header : Header) (message : List Byte) : (protectedOctets alg ctx dir header message).length =
      message.length + 6 := by
  simp only [protectedOctets, length_append, Header.length_octets, length_cipherOf]
  omega

theorem nasMessageEncrypt_protectedOctets (alg : Algorithms) (side : Side) {b' : List Byte}
    (rest c : List Byte) (hne : message ≠ []) (hsecured : header.secured)
    (hknown : KnownType header.security_header_type)
    (hfits : cypheredType header.security_header_type → Fits ctx.encryption message.length)
    (hb : b.length = 6) (hb' : b'.length = message.length) :
    ∃ inbuf, nasMessageEncrypt alg side (message ++ rest) (b ++ (b' ++ c)) header
      (message.length + 6) (some ctx) =
      some ⟨.ok (message.length + 6), inbuf, protectedOctets alg ctx side.sends header message ++ c,
        some (ctx.setCount side.sends (ctx.count side.sends).next)⟩ := by
  have hheader :=
    Static.nasMessageHeaderEncode_eq (c := b' ++ c) hsecured hb (Nat.le_add_left 6 message.length)
  obtain ⟨src, hcipher⟩ := Static.nasMessageEncrypt_eq alg side.sends rest c hknown hfits hb'
  have hmac := addMac_eq alg ctx side header
    (cipherOf alg ctx header.security_header_type side.sends message) c
  rw [length_cipherOf] at hmac
  have hpos : 0 < message.length := length_pos_iff.2 hne
  refine ⟨src, ?_⟩
  have hdrop : (header.octets ++ (b' ++ c)).drop 6 = b' ++ c := rfl
  have htake : (header.octets ++ (b' ++ c)).take 6 = header.octets := rfl
  simp only [nasMessageEncrypt, hheader, bind_eq_bind, bind_some, Nat.add_sub_cancel, hdrop, htake,
    hcipher,
    if_pos hpos, hmac, if_pos (show 1 < 6 by decide), protectedOctets, append_assoc, add_comm 6]

/-! ## The peer -/

/-- The peer has the keys and the algorithms, and its counter comes to that of the sender with this
sequence number. -/
structure Peer (direction : Direction) (sequence_number : UInt8)
    (ctx peer : SecurityContext) : Prop where
  knas_enc : peer.knas_enc = ctx.knas_enc
  knas_int : peer.knas_int = ctx.knas_int
  encryption : peer.encryption = ctx.encryption
  integrity : peer.integrity = ctx.integrity
  count : (peer.count direction).heard sequence_number = ctx.count direction

theorem Count.heard_self (count : Count) : count.heard count.seq_num = count := by
  simp [Count.heard]

@[simp] theorem SecurityContext.count_setCount (ctx : SecurityContext) (dir : Direction)
    (count : Count) : (ctx.setCount dir count).count dir = count := by
  cases dir <;> rfl

theorem SecurityContext.setCount_rest (ctx : SecurityContext) (dir : Direction) (count : Count) :
    (ctx.setCount dir count).knas_enc = ctx.knas_enc ∧ (ctx.setCount dir count).knas_int =
      ctx.knas_int ∧
      (ctx.setCount dir count).encryption = ctx.encryption ∧
      (ctx.setCount dir count).integrity = ctx.integrity := by
  cases dir <;> exact ⟨rfl, rfl, rfl, rfl⟩

section Peers

variable {direction : Direction} {peer : SecurityContext}

/-- The context of the peer when it checks the code. -/
def SecurityContext.hears (peer : SecurityContext) (direction : Direction)
    (sequence_number : UInt8) : SecurityContext :=
  peer.setCount direction ((peer.count direction).heard sequence_number)

variable {sequence_number : UInt8}

theorem Peer.stream (hpeer : Peer direction sequence_number ctx peer) (key : List Byte) :
    (peer.hears direction sequence_number).stream key direction = ctx.stream key direction := by
  simp only [SecurityContext.stream, SecurityContext.hears, SecurityContext.count_setCount,
    hpeer.count]

theorem Peer.cipherOf_eq (hpeer : Peer direction sequence_number ctx peer) (type : BitVec 4) :
    cipherOf alg (peer.hears direction sequence_number) type direction message =
      cipherOf alg ctx type direction message := by
  obtain ⟨henc, -, halg, -⟩ :=
    peer.setCount_rest direction ((peer.count direction).heard sequence_number)
  simp only [cipherOf, hpeer.stream]
  simp only [SecurityContext.hears, henc, halg, hpeer.knas_enc, hpeer.encryption]

theorem Peer.macOf_eq (hpeer : Peer direction sequence_number ctx peer) (octets : List Byte) :
    macOf alg (peer.hears direction sequence_number) direction octets =
      macOf alg ctx direction octets := by
  obtain ⟨-, hint, -, halg⟩ :=
    peer.setCount_rest direction ((peer.count direction).heard sequence_number)
  simp only [macOf, macFor, SecurityContext.hears, SecurityContext.count_setCount, hint, halg]
  simp only [hpeer.count, hpeer.knas_int, hpeer.integrity]

end Peers

/-! ## What a receiver does -/

def Side.other : Side → Side
  | .ue => .mme
  | .mme => .ue

theorem Side.other_receives (side : Side) : side.other.receives = side.sends := by
  cases side <;> rfl

/-- The code of a message with a security header is not the one that is computed, and the message is
not taken. -/
def refuses (side : Side) (ctx : SecurityContext) (header : Header) (mac : Mac) : Prop :=
  mac ≠ header.message_authentication_code ∧ (side = .ue → ctx.integrity ≠ .eia0)

instance (side : Side) (ctx : SecurityContext) (header : Header)
    (mac : Mac) : Decidable (refuses side ctx header mac) :=
  inferInstanceAs (Decidable (_ ∧ _))

theorem nasMessageDecrypt_secured {inbuf outbuf : List Byte}
    (hheader : Static.nasMessageHeaderDecode inbuf length = some (some 6, header)) :
    nasMessageDecrypt alg side inbuf outbuf length (some ctx) =
      (Static.nasMessageGetMac alg (inbuf.drop 5) (length - 5) side.receives
        (some (ctx.hears side.receives header.sequence_number))).bind fun mac =>
          if refuses side ctx header mac then
            some ⟨.error .decodeMacMismatch, inbuf, outbuf,
              some (ctx.hears side.receives header.sequence_number)⟩
          else
            (Static.nasMessageDecrypt alg outbuf (inbuf.drop 6) header.security_header_type
              side.receives (length - 6)
              (some (ctx.hears side.receives header.sequence_number))).map fun r =>
                ⟨.ok (length - 6, { header with protocol_discriminator := r.1 }),
                  inbuf.take 6 ++ r.2.1, r.2.2,
                  some (ctx.hears side.receives header.sequence_number)⟩ := by
  obtain ⟨-, -, -, halg⟩ :=
    ctx.setCount_rest side.receives ((ctx.count side.receives).heard header.sequence_number)
  simp only [nasMessageDecrypt, hheader, bind_eq_bind, bind_some, if_pos (show 1 < 6 by decide),
    map_some]
  refine congrArg _ (funext fun mac => ?_)
  by_cases hmac : mac = header.message_authentication_code
  · have hnot : ¬ refuses side ctx header mac := fun h => h.1 hmac
    simp only [if_pos hmac, if_neg hnot, Bool.false_eq_true, if_false]
    exact (map_eq_bind ..).symm
  · simp only [if_neg hmac]
    cases side with
    | mme => exact (if_pos (show refuses .mme ctx header mac from ⟨hmac, nofun⟩)).symm
    | ue =>
      have hrefuses : refuses .ue ctx header mac ↔ ctx.integrity ≠ .eia0 :=
        ⟨fun h => h.2 rfl, fun h => ⟨hmac, fun _ => h⟩⟩
      simp only [hrefuses, halg]
      by_cases hint : ctx.integrity = .eia0
      · simp only [hint, ne_eq, not_true_eq_false, decide_false, if_false]
        exact (map_eq_bind ..).symm
      · simp only [hint, ne_eq, not_false_eq_true, decide_true, if_true]
        rfl

theorem nasMessageDecode_secured {M : Type} {codec : Codec M} {buffer : List Byte}
    (hheader : Static.nasMessageHeaderDecode buffer length = some (some 6, header)) :
    nasMessageDecode alg codec side buffer length (some ctx) =
      (Static.nasMessageGetMac alg (buffer.drop 5) (length - 5) side.receives
        (some (ctx.hears side.receives header.sequence_number))).bind fun mac =>
          if mac ≠ header.message_authentication_code then
            some ⟨.error .decodeMacMismatch, buffer,
              some (ctx.hears side.receives header.sequence_number)⟩
          else
            (Static.nasMessageProtectedDecode alg codec side (buffer.drop 6) header (length - 6)
              (some (ctx.hears side.receives header.sequence_number))).map fun r =>
                ⟨r.1.map fun m => (m.1, 6 + m.2), buffer.take 6 ++ r.2,
                  some (ctx.hears side.receives header.sequence_number)⟩ := by
  simp only [nasMessageDecode, hheader, bind_eq_bind, bind_some, if_pos (show 1 < 6 by decide),
    map_some, isNone_some, Bool.false_eq_true, false_and, if_false]
  refine congrArg _ (funext fun mac => ?_)
  split
  · rfl
  · exact (map_eq_bind ..).symm

theorem nasMessageDecrypt_protectedOctets (alg : Algorithms) {peer : SecurityContext}
    (rest c : List Byte) (hne : message ≠ []) (hsecured : header.secured)
    (hknown : KnownType header.security_header_type)
    (hfits : cypheredType header.security_header_type →
      Fits ctx.encryption message.length ∧ ctx.encryption ≠ .eea2)
    (hpeer : Peer side.receives header.sequence_number ctx peer) (hb : b.length = message.length) :
    ∃ inbuf got, nasMessageDecrypt alg side (protectedOctets alg ctx side.receives header message ++
      rest) (b ++ c) (message.length + 6) (some peer) =
        some ⟨.ok (message.length, got), inbuf, message ++ c,
          some (peer.hears side.receives header.sequence_number)⟩ := by
  obtain ⟨-, -, halg, -⟩ :=
    peer.setCount_rest side.receives ((peer.count side.receives).heard header.sequence_number)
  have hfits' : cypheredType header.security_header_type →
      Fits (peer.hears side.receives header.sequence_number).encryption message.length ∧
        (peer.hears side.receives header.sequence_number).encryption ≠ .eea2 := by
    rw [SecurityContext.hears, halg, hpeer.encryption]
    exact hfits
  obtain ⟨src, hdecrypt⟩ :=
    Static.nasMessageDecrypt_eq alg side.receives rest c hne hknown hfits' hb
  rw [hpeer.cipherOf_eq] at hdecrypt
  -- The code is that of the sender, over the sequence number and the ciphered octets.
  generalize hcipher : cipherOf alg ctx header.security_header_type side.receives message =
      cipher at hdecrypt
  have hlen : message.length + 6 - 5 = (header.sequence_number :: cipher).length := by
    rw [length_cons, ← hcipher, length_cipherOf]
    omega
  have hmac := Static.nasMessageGetMac_eq alg (peer.hears side.receives header.sequence_number)
    side.receives rest hlen
  rw [hpeer.macOf_eq] at hmac
  have hsecured' : (sealed alg ctx side.receives header cipher).secured := hsecured
  have hheader := Static.nasMessageHeaderDecode_eq (c := cipher ++ rest)
    hsecured' (Nat.le_add_left 6 message.length)
  have hinbuf : protectedOctets alg ctx side.receives header message ++ rest =
      (sealed alg ctx side.receives header cipher).octets ++ (cipher ++ rest) := by
    simp only [protectedOctets, hcipher, append_assoc]
  rw [hinbuf, nasMessageDecrypt_secured hheader]
  refine ⟨(sealed alg ctx side.receives header cipher).octets ++ src,
    { sealed alg ctx side.receives header cipher with
      protocol_discriminator := discriminatorOf (message.head hne) },
    bind_eq_some_iff.2 ⟨_, hmac, ?_⟩⟩
  refine (if_neg fun hrefused => hrefused.1 rfl).trans ?_
  exact map_eq_some_iff.2 ⟨_, hdecrypt, rfl⟩

/-! ## The round trip -/

/-- What protects a message takes six octets more than the message and writes nothing after them,
and a peer takes the message from it. The message is the first part of the memory of the input. -/
def RoundTrip (alg : Algorithms) (side : Side) (header : Header) (ctx peer : SecurityContext)
    (message rest outbuf slack plain : List Byte) : Prop :=
  ∃ sent, nasMessageEncrypt alg side (message ++ rest) outbuf header (message.length + 6)
    (some ctx) = some sent ∧ sent.result = .ok (message.length + 6) ∧
    sent.outbuf = protectedOctets alg ctx side.sends header message ++
      outbuf.drop (message.length + 6) ∧
    ∃ got header', nasMessageDecrypt alg side.other (sent.outbuf.take (message.length + 6) ++ slack)
      plain
        (message.length + 6) (some peer) = some got ∧
      got.result = .ok (message.length, header') ∧ got.outbuf = message ++ plain.drop message.length

/-- A ciphered message is of whole words if it is ciphered with EEA1, and not ciphered with EEA2. -/
def TakenBack (header : Header) (encryption : Eea) (length : Nat) : Prop :=
  cypheredType header.security_header_type = true → encryption ≠ .eea2 ∧
  (encryption = .eea1 → 4 ∣ length)

instance (header : Header) (encryption : Eea)
    (length : Nat) : Decidable (TakenBack header encryption length) :=
  inferInstanceAs (Decidable (_ → _))

variable {peer : SecurityContext} {outbuf slack plain : List Byte}

theorem roundTrip_of_takenBack (alg : Algorithms) (side : Side) (rest slack : List Byte)
    (hne : message ≠ []) (hsecured : header.secured)
    (hknown : KnownType header.security_header_type) (halgorithm : ctx.encryption ≠ .other)
    (hpeer : Peer side.sends header.sequence_number ctx peer)
    (hout : message.length + 6 ≤ outbuf.length) (hplain : message.length ≤ plain.length)
    (hback : TakenBack header ctx.encryption message.length) :
    RoundTrip alg side header ctx peer message rest outbuf slack plain := by
  have hfits : cypheredType header.security_header_type →
      Fits ctx.encryption message.length ∧ ctx.encryption ≠ .eea2 :=
    fun h => ⟨⟨halgorithm, (hback h).2⟩, (hback h).1⟩
  -- The memory of the output: a header, the message, and what follows.
  have hsplit : outbuf = outbuf.take 6 ++
      ((outbuf.drop 6).take message.length ++ outbuf.drop (message.length + 6)) := by
    rw [add_comm, ← drop_drop, take_append_drop, take_append_drop]
  have hhead : (outbuf.take 6).length = 6 := by
    rw [length_take]
    omega
  have hbody : ((outbuf.drop 6).take message.length).length = message.length := by
    rw [length_take, length_drop]
    omega
  obtain ⟨inbuf, hsent⟩ :=
    nasMessageEncrypt_protectedOctets alg side rest (outbuf.drop (message.length + 6)) hne hsecured
    hknown (fun h => (hfits h).1) hhead hbody
  rw [← hsplit] at hsent
  have htake :
      (protectedOctets alg ctx side.sends header message ++ outbuf.drop (message.length + 6)).take
      (message.length + 6) = protectedOctets alg ctx side.other.receives header message := by
    rw [side.other_receives]
    exact take_left' (length_protectedOctets ..)
  rw [← side.other_receives] at hpeer
  obtain ⟨src, header', hgot⟩ :=
    nasMessageDecrypt_protectedOctets alg slack (plain.drop message.length) hne hsecured
    hknown hfits hpeer (length_take_of_le hplain)
  rw [take_append_drop, ← htake] at hgot
  exact ⟨_, hsent, rfl, rfl, _, header', hgot, rfl, rfl⟩

/-- `nas_stream_encrypt_eea1` ciphers every octet of the words that the message has a part of. -/
theorem nasStreamEncryptEea1_octet {k : StreamKey} {out : List Byte} {r : List Byte × List Byte}
    (h : nasStreamEncryptEea1 alg k length message out = some r) {i : Nat}
    (hi : i < (length * 8 + 31) / 32 * 4) :
    r.2[i]? = message[i]?.map (· ^^^ alg.snow3g k i) ∧ i < message.length := by
  unfold nasStreamEncryptEea1 at h
  dsimp only at h
  split at h
  · next hfits =>
    obtain ⟨out', hcopy, rfl⟩ := map_eq_some_iff.1 h
    refine ⟨?_, by omega⟩
    rw [copyTo_getElem? hcopy hi,
      getElem?_append_left (by rw [length_xorStream, length_take]; omega),
      getElem?_xorStream, getElem?_take_of_lt hi]
  · cases h

theorem addMac_some {octets : List Byte} {bytes : Nat} {ctx : Option SecurityContext}
    {buffer : List Byte} (h : addMac alg side (header.octets ++ octets) 6 bytes ctx = some buffer) :
    ∃ mac, buffer = { header with message_authentication_code := mac }.octets ++ octets := by
  obtain ⟨mac, -, hwrite⟩ := bind_eq_some_iff.1 h
  cases hwrite
  exact ⟨mac, rfl⟩

/-- Behind the header of the output is what `_nas_message_encrypt` wrote. -/
theorem nasMessageEncrypt_body {inbuf : List Byte} {sent : Coded Nat} (hsecured : header.secured)
    (hlength : 6 ≤ length) (hout : 6 ≤ outbuf.length)
    (h : nasMessageEncrypt alg side inbuf outbuf header length (some ctx) = some sent) :
    ∃ r, Static.nasMessageEncrypt alg (outbuf.drop 6) inbuf header.security_header_type side.sends
      (length - 6) (some ctx) = some r ∧ sent.outbuf.drop 6 = r.2.2 := by
  have hheader :=
    Static.nasMessageHeaderEncode_eq (c := outbuf.drop 6) hsecured (length_take_of_le hout) hlength
  rw [take_append_drop] at hheader
  have hdrop : (header.octets ++ outbuf.drop 6).drop 6 = outbuf.drop 6 := rfl
  have htake : (header.octets ++ outbuf.drop 6).take 6 = header.octets := rfl
  simp only [nasMessageEncrypt, hheader, bind_eq_bind, bind_some, if_pos (show 1 < 6 by decide),
    hdrop, htake] at h
  obtain ⟨⟨bytes, src, dest⟩, hstatic, h⟩ := bind_eq_some_iff.1 h
  refine ⟨_, hstatic, ?_⟩
  dsimp only at h
  split at h
  · obtain ⟨outbuf', hmac, h⟩ := bind_eq_some_iff.1 h
    obtain ⟨mac, rfl⟩ := addMac_some hmac
    cases h
    rfl
  · cases h
    rfl

/-- What the peer has is what `_nas_message_decrypt` wrote. -/
theorem nasMessageDecrypt_body {inbuf : List Byte} {got : Coded (Nat × Header)} {n : Nat × Header}
    (hheader : Static.nasMessageHeaderDecode inbuf length = some (some 6, header))
    (h : nasMessageDecrypt alg side inbuf plain length (some ctx) = some got)
    (hok : got.result = .ok n) :
    ∃ r, Static.nasMessageDecrypt alg plain (inbuf.drop 6) header.security_header_type side.receives
      (length - 6)
      (some (ctx.hears side.receives header.sequence_number)) = some r ∧ got.outbuf = r.2.2 := by
  rw [nasMessageDecrypt_secured hheader] at h
  obtain ⟨mac, -, h⟩ := bind_eq_some_iff.1 h
  split at h
  · cases h
    cases hok
  · obtain ⟨r, hr, rfl⟩ := map_eq_some_iff.1 h
    exact ⟨r, hr, rfl⟩

/-- Key streams of which each is one octet again and again, and no codes. -/
def constant (snow aes : Byte) : Algorithms where
  snow3g _ _ := snow
  aesCtr _ _ := aes
  eia1 _ _ := {}
  eia2 _ _ := {}

/-- EEA1 ciphers the octet after a message that ends inside a word. -/
theorem RoundTrip.words {snow aes : Byte}
    (h : RoundTrip (constant snow aes) side header ctx peer message rest outbuf slack plain)
    (hsecured : header.secured) (hcyphered : cypheredType header.security_header_type = true)
    (heea1 : ctx.encryption = .eea1) (hout : message.length + 6 ≤ outbuf.length)
    (hwords : ¬ 4 ∣ message.length) :
    ∃ x, (message ++ rest)[message.length]? = some x ∧ outbuf[message.length + 6]? =
      some (x ^^^ snow) := by
  obtain ⟨sent, hsent, -, hwritten, -⟩ := h
  obtain ⟨r, hr, hbody⟩ := nasMessageEncrypt_body hsecured (Nat.le_add_left 6 _) (by omega) hsent
  simp only [Static.nasMessageEncrypt, plainType_false _ hcyphered, hcyphered, heea1,
    Bool.false_eq_true, if_false, if_true, Nat.add_sub_cancel] at hr
  obtain ⟨m, hm, rfl⟩ := map_eq_some_iff.1 hr
  obtain ⟨hoctet, hlt⟩ := nasStreamEncryptEea1_octet hm (i := message.length) (by omega)
  refine ⟨_, getElem?_eq_getElem hlt, ?_⟩
  have hnext : (sent.outbuf.drop 6)[message.length]? = outbuf[message.length + 6]? := by
    rw [hwritten, getElem?_drop, getElem?_append_right (by rw [length_protectedOctets]; omega),
      length_protectedOctets, getElem?_drop]
    congr 1
    omega
  rw [← hnext, hbody, hoctet, getElem?_eq_getElem hlt]
  rfl

/-- What is ciphered with AES is deciphered with SNOW 3G. -/
theorem RoundTrip.not_eea2 {snow aes : Byte}
    (h : RoundTrip (constant snow aes) side header ctx peer message rest outbuf slack plain)
    (hne : message ≠ []) (hsecured : header.secured)
    (hcyphered : cypheredType header.security_header_type = true)
    (hpeer : Peer side.sends header.sequence_number ctx peer)
    (heea2 : ctx.encryption = .eea2) : aes ^^^ snow = 0 := by
  obtain ⟨sent, -, -, hwritten, got, header', hgot, hok, hmessage⟩ := h
  have hcipher : cipherOf (constant snow aes) ctx header.security_header_type side.sends message =
      xorStream (fun _ => aes) message := by
    simp only [cipherOf, hcyphered, heea2, if_true]
    rfl
  have hinbuf : sent.outbuf.take (message.length + 6) ++ slack =
      (sealed (constant snow aes) ctx side.sends header
        (xorStream (fun _ => aes) message)).octets ++
        (xorStream (fun _ => aes) message ++ slack) := by
    rw [hwritten, take_left' (length_protectedOctets ..), protectedOctets, hcipher, append_assoc]
  have hsealed : (sealed (constant snow aes) ctx side.sends header
      (xorStream (fun _ => aes) message)).secured := hsecured
  rw [hinbuf] at hgot
  obtain ⟨r, hr, houtbuf⟩ := nasMessageDecrypt_body
    (Static.nasMessageHeaderDecode_eq hsealed (Nat.le_add_left 6 message.length)) hgot hok
  have henc : (peer.hears side.other.receives header.sequence_number).encryption = .eea2 := by
    rw [SecurityContext.hears, (peer.setCount_rest _ _).2.2.1, hpeer.encryption, heea2]
  simp only [Static.nasMessageDecrypt, sealed, plainType_false _ hcyphered, hcyphered, henc,
    Bool.false_eq_true, if_false, if_true, bind_some, Nat.add_sub_cancel] at hr
  obtain ⟨m, hm, hhead⟩ := bind_eq_some_iff.1 hr
  obtain ⟨octet, -, hr⟩ := map_eq_some_iff.1 hhead
  rw [← hr, hmessage] at houtbuf
  obtain ⟨x, l, rfl⟩ := exists_cons_of_ne_nil hne
  obtain ⟨hoctet, -⟩ := nasStreamEncryptEea1_octet hm (i := 0) (by rw [length_cons]; omega)
  have hsent : (xorStream (fun _ => aes) (x :: l) ++ slack)[0]? = some (x ^^^ aes) := by
    rw [getElem?_append_left (by simp), getElem?_xorStream]
    rfl
  rw [← houtbuf] at hoctet
  change some x = ((xorStream (fun _ => aes) (x :: l) ++ slack)[0]?).map (· ^^^ snow) at hoctet
  rw [hsent, Option.map_some] at hoctet
  have hxor := congrArg (x ^^^ ·) (Option.some.inj hoctet)
  simp only [UInt8.xor_self, UInt8.xor_assoc] at hxor
  rw [← UInt8.xor_assoc x, UInt8.xor_self, UInt8.zero_xor] at hxor
  exact hxor.symm

/-- Whatever the key streams and codes are, a peer has the message back from what is protected, if
and only if the message is not ciphered with EEA2, and is of whole words when it is ciphered with
EEA1. -/
theorem a_peer_has_the_message_back (side : Side) (rest slack : List Byte) (hne : message ≠ [])
    (hsecured : header.secured) (hknown : KnownType header.security_header_type)
    (halgorithm : ctx.encryption ≠ .other) (hpeer : Peer side.sends header.sequence_number ctx peer)
    (hout : message.length + 6 ≤ outbuf.length) (hplain : message.length ≤ plain.length) :
    (∀ alg, RoundTrip alg side header ctx peer message rest outbuf slack plain) ↔
      TakenBack header ctx.encryption message.length := by
  constructor
  · intro h hcyphered
    refine ⟨fun heea2 => ?_, fun heea1 => ?_⟩
    · have hzero := (h (constant 0 1)).not_eea2 hne hsecured hcyphered hpeer heea2
      exact absurd hzero (by decide)
    · by_contra hwords
      obtain ⟨x, hx, h0⟩ := (h (constant 0 0)).words hsecured hcyphered heea1 hout hwords
      obtain ⟨y, hy, h1⟩ := (h (constant 1 0)).words hsecured hcyphered heea1 hout hwords
      obtain rfl : x = y := Option.some.inj (hx.symm.trans hy)
      have hsame := congrArg (x ^^^ ·) (Option.some.inj (h0.symm.trans h1))
      simp only [← UInt8.xor_assoc, UInt8.xor_self, UInt8.zero_xor] at hsame
      exact absurd hsame (by decide)
  · intro hback alg
    exact roundTrip_of_takenBack alg side rest slack hne hsecured hknown halgorithm hpeer hout
      hplain hback

def simple : Algorithms where
  snow3g k i := UInt8.ofNat (k.count + i)
  aesCtr _ _ := 0xff
  eia1 k octets := ⟨UInt8.ofNat k.count, UInt8.ofNat octets.length, 1, 1⟩
  eia2 k octets := ⟨UInt8.ofNat k.count, UInt8.ofNat octets.length, 2, 2⟩

def oneMessage : Codec Unit where
  emm_msg_encode _ _ := .ok [0x07]
  esm_msg_encode _ _ := .ok [0x02]
  emm_msg_decode octets := .ok ((), octets.length)
  esm_msg_decode octets := .ok ((), octets.length)

def cyphered : Header where
  protocol_discriminator := EPS_MOBILITY_MANAGEMENT_MESSAGE
  security_header_type := SECURITY_HEADER_TYPE_INTEGRITY_PROTECTED_CYPHERED

def contextOf (encryption : Eea) : SecurityContext where
  knas_enc := [1]
  knas_int := [2]
  encryption := encryption
  integrity := .eia2

theorem aWord_back : RoundTrip simple .ue cyphered (contextOf .eea1) (contextOf .eea1) [0x07, 0x41,
    0x01, 0x02] [] (replicate 12 0) [] (replicate 4 0) := by
  have hpeer : Peer .uplink cyphered.sequence_number (contextOf .eea1) (contextOf .eea1) :=
    ⟨rfl, rfl, rfl, rfl, rfl⟩
  exact (a_peer_has_the_message_back .ue [] [] (by decide) (by decide) (by decide) (by decide) hpeer
    (by decide) (by decide)).2 (by decide) simple

/-- A message of one octet: EEA1 writes ten octets of output instead of seven, and what EEA2
ciphered is not taken back, since SNOW 3G is used for it. -/
theorem not_every_message_comes_back :
    ((nasMessageEncrypt simple .ue [0x07, 0, 0, 0] (replicate 10 0xaa) cyphered 7
      (some (contextOf .eea1))).any
      fun sent => decide (sent.outbuf.drop 7 ≠ replicate 3 0xaa)) = true ∧
    ((nasMessageEncrypt simple .ue [0x07] (replicate 7 0) cyphered 7 (some (contextOf .eea2))).any
      fun sent =>
      (nasMessageDecrypt simple .mme (sent.outbuf ++ [0, 0, 0]) (replicate 4 0) 7
        (some (contextOf .eea2))).any fun got => decide (got.outbuf.take 1 ≠ [0x07])) = true := by
  decide +kernel

end MacRlcSplit.Nas
