-- An SDU through both ends of a bearer: what `pdcp_data_req` makes of it,
-- `pdcp_data_ind` of the peer takes apart.
import MacRlcSplit.Pdcp.Count

namespace MacRlcSplit.Pdcp.RoundTrip

open List
open Am (Byte)

/-! ## Peers -/

/-- Two ends of one bearer: the same setting, the same security, and opposite directions. Their SNs
and HFNs are anything. -/
structure Peers (setting : Setting) (p q : Entity) : Prop where
  size : p.seq_num_size = setting.size
  size' : q.seq_num_size = setting.size
  opposite : q.is_ue = !p.is_ue
  activated : q.security_activated = p.security_activated
  ciphering : q.cipheringAlgorithm = p.cipheringAlgorithm
  integrity : q.integrityProtAlgorithm = p.integrityProtAlgorithm
  kRRCenc : q.kRRCenc = p.kRRCenc
  kRRCint : q.kRRCint = p.kRRCint
  kUPenc : q.kUPenc = p.kUPenc

section Setup

variable {setting : Setting} {p q : Entity} (sec : Security)

theorem peers_configAdd (setting : Setting) (ctxt ctxt' : Ctxt)
    (h : ctxt'.enb_flag = !ctxt.enb_flag) :
    Peers setting (configAdd ctxt setting.config sec) (configAdd ctxt' setting.config sec) := by
  unfold configAdd setSecurity pdcpConfigSetSecurity
  split
  · split <;> exact ⟨rfl, rfl, by simp [h], rfl, rfl, rfl, rfl, rfl, rfl⟩
  · exact ⟨rfl, rfl, by simp [h], rfl, rfl, rfl, rfl, rfl, rfl⟩

theorem Peers.sent (h : Peers setting p q) : Peers setting (pdcpGetNextTxSeqNumber p).1 q := by
  obtain ⟨sn, hfn, hp⟩ := pdcpGetNextTxSeqNumber_frame p
  rw [hp]
  exact ⟨h.size, h.size', h.opposite, h.activated, h.ciphering, h.integrity, h.kRRCenc, h.kRRCint,
    h.kUPenc⟩

theorem Peers.encKey (h : Peers setting p q) (srb : Bool) : q.encKey srb = p.encKey srb := by
  rw [Entity.encKey, Entity.encKey, h.kRRCenc, h.kUPenc]

theorem Peers.direction (h : Peers setting p q) :
    (if q.is_ue then Direction.downlink else .uplink) = if p.is_ue then .uplink else .downlink := by
  rw [h.opposite]
  cases p.is_ue <;> rfl

end Setup

/-! ## Security -/

theorem streamEncrypt_twice {osa : Osa} (inverse : osa.Involutive) (algorithm : Nat)
    (c : StreamCipher)
    (bytes : List Byte) : streamEncrypt osa algorithm c (streamEncrypt osa algorithm c bytes) =
      bytes :=
  match algorithm with
  | 0 => rfl
  | 1 => inverse.eea1 c bytes
  | 2 => inverse.eea2 c bytes
  | _ + 3 => rfl

/-- If security is on without an algorithm, the cipher of the receiver does nothing. -/
theorem streamEncrypt_of_not_secures {osa : Osa} {p : Entity} (hon : p.security_activated)
    (h : p.secures = false) (c : StreamCipher) (bytes : List Byte) :
    streamEncrypt osa p.cipheringAlgorithm c bytes = bytes := by
  have hzero : p.cipheringAlgorithm = 0 := by
    simp only [Entity.secures, hon, Bool.true_and, Bool.or_eq_false_iff, decide_eq_false_iff_not]
      at h
    simpa using h.1
  rw [hzero]
  rfl

theorem rxHeader_length {setting : Setting} {q : Entity} {mode : Mode} {sn : Nat} {rest : List Byte}
    (hsize : q.seq_num_size = setting.size) (h : setting.config.srb_flag ∨ setting.size = 12) :
    (rxHeader q setting.config.srb_flag ((txHeader setting.config.srb_flag mode sn).1 ++ rest)).1 =
      (txHeader setting.config.srb_flag mode sn).1.length := by
  rw [length_txHeader]
  cases hsrb : setting.config.srb_flag with
  | true => rfl
  | false =>
    have h12 : q.seq_num_size = 12 := by
      rcases h with h | h
      · rw [hsrb] at h
        cases h
      · rw [hsize, h]
    simp [rxHeader, h12]

variable {osa : Osa} {setting : Setting} {p q : Entity} {mode : Mode} {sdu pdu : List Byte}

/-- What the receiver sees behind the header: it is ciphered once more with the COUNT of the
receiver if security is on. -/
theorem open_drop (osa : Osa) (q : Entity) (srb : Bool) (rb_id : Nat) {header body : List Byte}
    (hheader : (rxHeader q srb (header ++ body)).1 = header.length) :
    (q.open osa srb rb_id (header ++ body)).2.drop header.length = if q.security_activated then
        streamEncrypt osa q.cipheringAlgorithm
          (cipherOf (if q.is_ue then .downlink else .uplink) rb_id (q.rxCount srb (header ++ body))
            (q.encKey srb) ((header ++ body).length - tailerLen srb - header.length)) body
      else body := by
  obtain ⟨n, hn⟩ := pdcpIsRxSeqNumberValid_frame (rxHeader q srb (header ++ body)).2 q srb
  rw [Entity.open, Entity.rxCount]
  dsimp only
  rw [hn, hheader, show (q.withRx n).security_activated = q.security_activated from rfl]
  split
  · simp only [pdcpValidateSecurity, cipherFrom, take_left, drop_left]
    rfl
  · exact drop_left

theorem open_dataReq (inverse : osa.Involutive) (peers : Peers setting p q) {p' : Entity}
    {rb_id : Nat} (h : setting.config.srb_flag ∨ setting.size = 12)
    (hreq : p.dataReq osa setting.config.srb_flag rb_id mode sdu = (p', some pdu))
    (hcount : p.security_activated → q.rxCount setting.config.srb_flag pdu =
      p.txCount setting.config.srb_flag mode) :
    ∃ tail, tail.length = tailerLen setting.config.srb_flag ∧
      pdu.length = (rxHeader q setting.config.srb_flag pdu).1 + (sdu ++ tail).length ∧
      (q.open osa setting.config.srb_flag rb_id pdu).2.drop
        (rxHeader q setting.config.srb_flag pdu).1 = sdu ++ tail := by
  obtain ⟨rfl, tail, htail, rfl⟩ := Entity.dataReq_some hreq
  have peers' := peers.sent
  have hactivated := peers'.activated.symm.trans peers.activated
  rw [← hactivated] at hcount
  rw [rxHeader_length peers.size' h]
  refine ⟨tail, htail, ?_, ?_⟩
  · rw [length_append]
    split <;> simp only [length_streamEncrypt]
  · rw [open_drop osa q _ rb_id (rxHeader_length peers.size' h), peers'.activated, peers'.ciphering,
      peers'.encKey, peers'.direction]
    cases hon : (pdcpGetNextTxSeqNumber p).1.security_activated with
    | false => simp [Entity.secures, hon]
    | true =>
      rw [hcount hon, if_pos rfl]
      cases hsecures : (pdcpGetNextTxSeqNumber p).1.secures with
      | false =>
        -- Both algorithms are 0, and only the receiver calls its cipher.
        exact streamEncrypt_of_not_secures hon hsecures _ _
      | true =>
        have hlength : ∀ header body : List Byte, body.length = (sdu ++ tail).length →
            (header ++ body).length - tailerLen setting.config.srb_flag - header.length =
              sdu.length := by
          intro header body hbody
          rw [length_append, hbody, length_append]
          omega
        rw [if_pos rfl, hlength _ _ (length_streamEncrypt _ _ _ _)]
        exact streamEncrypt_twice inverse _ _ _

/-! ## The result -/

theorem dataInd_of_open (gtp : Bool) (ctxt : Ctxt) {srb : Bool} {rb_id : Nat} {tail : List Byte}
    (htail : tail.length = tailerLen srb)
    (hlen : pdu.length = (rxHeader q srb pdu).1 + (sdu ++ tail).length)
    (hopen : (q.open osa srb rb_id pdu).2.drop (rxHeader q srb pdu).1 = sdu ++ tail) :
    ∃ q' up, q.dataInd osa gtp ctxt srb rb_id pdu = (q', [up]) ∧ up.sdu = sdu := by
  rw [length_append] at hlen
  have hsdu : ((q.open osa srb rb_id pdu).2.drop (rxHeader q srb pdu).1).take
      (pdu.length - (rxHeader q srb pdu).1 - tailerLen srb) = sdu := by
    rw [hopen, show pdu.length - (rxHeader q srb pdu).1 - tailerLen srb = sdu.length by omega]
    exact take_left
  rw [Entity.dataInd]
  dsimp only
  rw [if_neg (by omega), hsdu]
  split
  · exact ⟨_, _, rfl, rfl⟩
  split
  all_goals exact ⟨_, _, rfl, rfl⟩

theorem pdcpDataReq_some {coll : Coll} {ctxt : Ctxt} {srb : Bool} {rb_id : Nat}
    (hp : coll (collKey ctxt rb_id srb) = some p)
    (h : (pdcpDataReq osa coll ctxt srb rb_id mode sdu).map Prod.snd = some (some pdu)) :
    0 < sdu.length ∧ rb_id < maxDRB ∧ ∃ p', p.dataReq osa srb rb_id mode sdu = (p', some pdu) := by
  unfold pdcpDataReq at h
  by_cases hempty : sdu.length = 0
  · rw [if_pos hempty] at h
    cases h
  rw [if_neg hempty] at h
  split at h
  · cases h
  by_cases hid : rb_id ≥ (if srb then 3 else maxDRB)
  · rw [if_pos hid] at h
    cases h
  have hle : (if srb then 3 else maxDRB) ≤ maxDRB := by cases srb <;> decide
  have hlt : rb_id < maxDRB := by omega
  rw [if_neg hid, hp, Nat.mod_eq_of_lt hlt] at h
  rcases hreq : p.dataReq osa srb rb_id mode sdu with ⟨p', result⟩
  simp only [hreq, Option.map_some, Option.some.injEq] at h
  exact ⟨Nat.pos_of_ne_zero hempty, hlt, p', h ▸ rfl⟩

theorem Setting.rb_id_pos (setting : Setting) : 0 < setting.config.rb_id := by
  cases setting with
  | srb x => exact x.srb_Identity.2.1
  | drb drb_id v => exact drb_id.2.1

theorem length_open (osa : Osa) (q : Entity) (srb : Bool) (rb_id : Nat) (pdu : List Byte) :
    (q.open osa srb rb_id pdu).2.length = pdu.length := by
  unfold Entity.open
  dsimp only
  split
  · simp only [pdcpValidateSecurity, cipherFrom, length_append, length_streamEncrypt, length_take,
      length_drop]
    omega
  · rfl

theorem length_delivered {gtp srb : Bool} {ctxt : Ctxt} {rb_id : Nat} {up : Upper}
    (h : (q.dataInd osa gtp ctxt srb rb_id pdu).2 = [up]) :
    up.sdu.length = pdu.length - (rxHeader q srb pdu).1 - tailerLen srb := by
  unfold Entity.dataInd at h
  dsimp only at h
  split at h
  · cases h
  have hsdu : ((q.open osa srb rb_id pdu).2.drop (rxHeader q srb pdu).1).take
      (pdu.length - (rxHeader q srb pdu).1 - tailerLen srb) = up.sdu := by
    split at h
    · cases h
      rfl
    split at h
    all_goals
      cases h
      rfl
  rw [← hsdu, length_take, length_drop, length_open]
  omega

theorem length_dataReq {p' : Entity} {srb : Bool} {rb_id : Nat}
    (h : p.dataReq osa srb rb_id mode sdu = (p', some pdu)) :
    pdu.length = (if srb then 1 else 2) + sdu.length + tailerLen srb := by
  obtain ⟨-, tail, htail, rfl⟩ := Entity.dataReq_some h
  rw [length_append, length_txHeader, Nat.add_assoc, ← htail, ← length_append]
  congr 1
  split <;> simp only [length_streamEncrypt]

/-- Without 12 bits the receiver takes at most one byte of header off a PDU of a DRB. -/
theorem rxHeader_short (hsize : q.seq_num_size ≠ 12)
    (pdu : List Byte) : (rxHeader q false pdu).1 ≤ 1 := by
  simp only [rxHeader, Bool.false_eq_true, if_false, hsize]
  split
  · exact Nat.le_refl 1
  · exact Nat.zero_le 1

theorem pdcpDataInd_entity {peer : Coll} {ctxt : Ctxt} (gtp : Bool) {srb : Bool} {rb_id : Nat}
    (hq : peer (collKey ctxt rb_id srb) = some q) (hpos : 0 < rb_id) (hlt : rb_id < maxDRB)
    (hpdu : 0 < pdu.length) : (pdcpDataInd osa gtp peer ctxt srb rb_id pdu).map Prod.snd =
      some (q.dataInd osa gtp ctxt srb rb_id pdu).2 := by
  have hmax : maxDRB ≤ NB_RB_MAX := by decide
  unfold pdcpDataInd
  rw [Nat.mod_eq_of_lt hlt, if_neg (by omega), hq]
  dsimp only
  rw [if_neg (by omega), if_neg (by omega)]
  rfl

/-- With security off, or with ciphers that undo themselves and one COUNT at both ends, an SDU comes
out of the peer as it went in if and only if the bearer is an SRB or a DRB with 12 bits. -/
theorem the_peer_gets_the_sdu (osa : Osa) (inverse : osa.Involutive) (gtp : Bool)
    (setting : Setting) (coll peer : Coll) (ctxt ctxt' : Ctxt) (mode : Mode)
    (peers : Peers setting p q)
    (hp : coll (collKey ctxt setting.config.rb_id setting.config.srb_flag) = some p)
    (hq : peer (collKey ctxt' setting.config.rb_id setting.config.srb_flag) = some q)
    (hreq : (pdcpDataReq osa coll ctxt setting.config.srb_flag setting.config.rb_id mode sdu).map
      Prod.snd = some (some pdu))
    (hcount : p.security_activated = true →
      q.rxCount setting.config.srb_flag pdu = p.txCount setting.config.srb_flag mode) :
    (∃ up, (pdcpDataInd osa gtp peer ctxt' setting.config.srb_flag setting.config.rb_id pdu).map
      Prod.snd = some [up] ∧ up.sdu = sdu) ↔
      setting.config.srb_flag = true ∨ setting.size = 12 := by
  obtain ⟨hsome, hlt, p', hreq⟩ := pdcpDataReq_some hp hreq
  have hpos := Setting.rb_id_pos setting
  constructor
  · rintro ⟨up, hup, rfl⟩
    by_contra hshort
    rw [not_or, Bool.not_eq_true] at hshort
    have hlen := length_dataReq hreq
    have htaken := rxHeader_short (peers.size' ▸ hshort.2) pdu
    rw [pdcpDataInd_entity gtp hq hpos hlt (by split at hlen <;> omega)] at hup
    have hdelivered := length_delivered (Option.some.inj hup)
    rw [hshort.1] at hlen hdelivered
    simp only [tailerLen, Bool.false_eq_true, if_false] at hlen hdelivered
    omega
  · intro h
    obtain ⟨tail, htail, hlen, hopen⟩ := open_dataReq inverse peers h hreq hcount
    obtain ⟨q', up, hind, hsdu⟩ := dataInd_of_open gtp ctxt' htail hlen hopen
    rw [length_append] at hlen
    rw [pdcpDataInd_entity gtp hq hpos hlt (by omega), hind]
    exact ⟨up, rfl, hsdu⟩

/-! ## Examples -/

/-- Ciphers that XOR each byte with COUNT and the key, and MAC-Is of zeroes. -/
def xorOsa : Osa where
  eea1 c bytes := bytes.map (· ^^^ (UInt8.ofNat c.count + c.key.headD 0))
  eea2 c bytes := bytes.map (· ^^^ (UInt8.ofNat c.count + c.key.headD 0))
  eia1 _ _ := replicate 4 0
  eia2 _ _ := replicate 4 0
  length_eea1 _ _ := length_map _
  length_eea2 _ _ := length_map _
  length_eia1 _ _ := length_replicate
  length_eia2 _ _ := length_replicate

theorem xorOsa_involutive : xorOsa.Involutive := by
  constructor <;> intro c bytes <;>
    simp only [xorOsa, map_map, Function.comp_def, UInt8.xor_assoc, UInt8.xor_self, UInt8.xor_zero,
      map_id']

def one (ctxt : Ctxt) (setting : Setting) (sec : Security) : Coll := fun key =>
  if key = collKey ctxt setting.config.rb_id setting.config.srb_flag then
    some (configAdd ctxt setting.config sec)
  else none

def srb1 : Setting := .srb { srb_Identity := ⟨1, srb_one⟩ }

def bothAlgorithms : Security := { security_mode := 0x22, kRRCenc := [0x5a] }

theorem the_peer_gets_a_message : ∃ up,
    (pdcpDataInd xorOsa true (one itsUe srb1 bothAlgorithms) itsUe true 1
        [0x00, 0x5b, 0x58, 0x59, 0x5a, 0x5a, 0x5a, 0x5a]).map Prod.snd = some [up] ∧
        up.sdu = [1, 2, 3] :=
  (the_peer_gets_the_sdu xorOsa xorOsa_involutive true srb1 (one anEnb srb1 bothAlgorithms) _ anEnb
    itsUe .control (peers_configAdd bothAlgorithms srb1 anEnb itsUe rfl) (if_pos rfl) (if_pos rfl)
    (by decide +kernel) (fun _ => by decide +kernel)).2 (.inl rfl)

/-- With 7 bits the sender writes two bytes of header and the receiver takes one off. -/
theorem the_peer_gets_a_byte_more :
    Peers (umDrb .len7bits) (configAdd anEnb (umDrb .len7bits).config {})
        (configAdd itsUe (umDrb .len7bits).config {}) ∧
      (pdcpDataReq Osa.plain (one anEnb (umDrb .len7bits) {}) anEnb false 1 .data [1, 2, 3]).map
        Prod.snd = some (some [0x80, 0, 1, 2, 3]) ∧
      (pdcpDataInd Osa.plain true (one itsUe (umDrb .len7bits) {}) itsUe false 1
        [0x80, 0, 1, 2, 3]).map Prod.snd = some [.ip 1 [0, 1, 2, 3]] :=
  ⟨peers_configAdd {} _ _ _ rfl, by decide +kernel, by decide +kernel⟩

end MacRlcSplit.Pdcp.RoundTrip
