-- The counters of NAS messages over runs of sends, losses and receptions: the
-- two ends keep the same counters, while the COUNT that the algorithms get is
-- never more than one.
import MacRlcSplit.Lib.Counter
import MacRlcSplit.Lib.Run
import MacRlcSplit.Nas.Protection

namespace MacRlcSplit.Nas

open Lib Option
open Am (Byte)
open Pdcp (Direction)

/-! ## The value of a counter -/

namespace Count

/-- The overflows and the sequence number as one number. -/
def value (c : Count) : Nat := c.overflow.toNat * 256 + c.seq_num.toNat

theorem value_div (c : Count) : c.value / 256 = c.overflow.toNat := by
  have hseq := c.seq_num.toNat_lt
  unfold value
  omega

theorem value_mod (c : Count) : c.value % 256 = c.seq_num.toNat := by
  have hseq := c.seq_num.toNat_lt
  unfold value
  omega

theorem used_eq (c : Count) : c.used = min 1 c.value := by
  have hseq : c.seq_num.toNat &&& 0x000000FF = c.seq_num.toNat := by
    rw [show (0x000000FF : Nat) = 2 ^ 8 - 1 from rfl, Nat.and_two_pow_sub_one_eq_mod]
    exact Nat.mod_eq_of_lt c.seq_num.toNat_lt
  unfold used value
  rw [hseq]
  by_cases h : c.overflow.toNat = 0 <;> by_cases h' : c.seq_num.toNat = 0 <;>
    simp [logicalOr, logicalAnd, h, h'] <;> omega

variable {c : Count}

theorem used_eq_value : c.used = c.value ↔ c.value ≤ 1 := by
  rw [used_eq]
  omega

theorem value_next (h : c.value + 1 < 2 ^ 24) : c.next.value = c.value + 1 := by
  have hseq := c.seq_num.toNat_lt
  unfold value next at *
  by_cases hlast : c.seq_num + 1 = 0
  · have hlast' : c.seq_num.toNat = 255 := by
      have := congrArg UInt8.toNat hlast
      simp at this
      omega
    simp only [hlast, if_true, UInt16.toNat_add]
    simp
    omega
  · have hlast' : c.seq_num.toNat ≠ 255 := fun h =>
      hlast (UInt8.toNat_inj.1 (by rw [UInt8.toNat_add, h]; rfl))
    simp only [if_neg hlast, UInt8.toNat_add]
    simp
    omega

theorem heard_of_ahead {b : Count} (hle : b.value ≤ c.value) (hlt : c.value < b.value + 256) :
    b.heard c.seq_num = c := by
  have hdiv := Counter.div_of_ahead hle hlt
  rw [value_div, value_div, value_mod, value_mod] at hdiv
  have hoverflow : (b.heard c.seq_num).overflow = c.overflow := by
    unfold heard
    rw [← UInt16.toNat_inj, hdiv]
    by_cases hless : c.seq_num < b.seq_num
    · rw [if_pos hless, if_pos (UInt8.lt_iff_toNat_lt.1 hless)]
      have hbound := c.overflow.toNat_lt
      rw [if_pos (UInt8.lt_iff_toNat_lt.1 hless)] at hdiv
      exact Nat.mod_eq_of_lt (by simpa using (by omega : b.overflow.toNat + 1 < 2 ^ 16))
    · rw [if_neg hless, if_neg fun h => hless (UInt8.lt_iff_toNat_lt.2 h)]
  cases c
  simp only [heard, Count.mk.injEq, and_true]
  exact hoverflow

theorem le_value_heard (h : c.overflow ≠ 0xFFFF) (sn : UInt8) : c.value ≤ (c.heard sn).value := by
  have hoverflow : c.overflow.toNat + 1 < 2 ^ 16 := by
    have hlt := c.overflow.toNat_lt
    have hne : c.overflow.toNat ≠ 0xFFFF := fun heq => h (UInt16.toNat_inj.1 heq)
    omega
  have hseq := c.seq_num.toNat_lt
  unfold value heard
  by_cases hless : sn < c.seq_num
  · rw [if_pos hless, UInt16.toNat_add, UInt16.toNat_one]
    omega
  · rw [if_neg hless]
    have hle := UInt8.le_iff_toNat_le.1 (UInt8.not_lt.1 hless)
    dsimp only
    omega

theorem value_lt_heard (h : c.overflow ≠ 0xFFFF) {sn : UInt8} (hne : sn ≠ c.seq_num) :
    c.value < (c.heard sn).value := by
  refine Nat.lt_of_le_of_ne (le_value_heard h sn) fun heq => hne (UInt8.toNat_inj.1 ?_)
  have hmod := congrArg (· % 256) heq
  simp only [value_mod] at hmod
  exact hmod.symm

end Count

/-! ## What is sent -/

variable {alg : Algorithms} {side : Side} {ctx : SecurityContext} {header : Header}

/-- The octets start with the header, with some code in it. -/
def StartsWith (header : Header) (octets : List Byte) : Prop :=
  ∃ mac tail, octets = { header with message_authentication_code := mac }.octets ++ tail

variable {buffer : List Byte} {length : Nat}

theorem Static.nasMessageHeaderEncode_some (hsecured : header.secured) {buffer' : List Byte}
    {size : Option Nat} (h : nasMessageHeaderEncode buffer header length = some (size, buffer')) :
    size = none ∨ size = some 6 ∧ ∃ tail, buffer' = header.octets ++ tail := by
  have hcode := h
  simp only [nasMessageHeaderEncode, if_pos hsecured] at hcode
  obtain ⟨buffer₁, hfirst, hcode⟩ := bind_eq_some_iff.1 hcode
  by_cases hshort : length < NAS_MESSAGE_SECURITY_HEADER_SIZE
  · rw [if_pos hshort] at hcode
    cases hcode
    exact .inl rfl
  · rw [if_neg hshort] at hcode
    obtain ⟨buffer₂, hrest, -⟩ := bind_eq_some_iff.1 hcode
    -- Both copies fit the buffer, so it has the six octets of a header.
    have hfits : 6 ≤ buffer.length := (writeAt_some hfirst).2 ▸ (writeAt_some hrest).1
    have heq := nasMessageHeaderEncode_eq (c := buffer.drop 6) hsecured
      (List.length_take_of_le hfits) (Nat.le_of_not_lt hshort)
    rw [List.take_append_drop, h] at heq
    cases heq
    exact .inr ⟨rfl, _, rfl⟩

theorem addMac_startsWith {octets : List Byte} {bytes : Nat} {ctx : Option SecurityContext}
    (h : addMac alg side (header.octets ++ octets) 6 bytes ctx = some buffer) :
    StartsWith header buffer := by
  obtain ⟨mac, rfl⟩ := addMac_some h
  exact ⟨mac, octets, rfl⟩

/-- What is sent goes out with a header, and then the counter goes on. -/
def Sent (side : Side) (ctx : SecurityContext) (header : Header) (result : Except TlvError Nat)
    (buffer : List Byte) (ctx' : Option SecurityContext) : Prop :=
  (∃ e, result = .error e) ∧ ctx' = some ctx ∨ ∃ n, result = .ok (6 + n) ∧
      StartsWith header buffer ∧ ctx' = some (ctx.setCount side.sends (ctx.count side.sends).next)

theorem nasMessageEncrypt_sent (hsecured : header.secured) {inbuf outbuf : List Byte}
    {r : Coded Nat}
    (h : nasMessageEncrypt alg side inbuf outbuf header length (some ctx) = some r) :
    Sent side ctx header r.result r.outbuf r.ctx := by
  obtain ⟨⟨size, outbuf₁⟩, hheader, h⟩ := bind_eq_some_iff.1 h
  rcases Static.nasMessageHeaderEncode_some hsecured hheader with rfl | ⟨rfl, tail, rfl⟩
  · cases h
    exact .inl ⟨⟨_, rfl⟩, rfl⟩
  simp only [if_pos (show 1 < 6 by decide)] at h
  obtain ⟨⟨bytes, src, dest⟩, -, h⟩ := bind_eq_some_iff.1 h
  dsimp only at h
  split at h
  · obtain ⟨outbuf', hmac, h⟩ := bind_eq_some_iff.1 h
    cases h
    exact .inr ⟨bytes, rfl, addMac_startsWith hmac, rfl⟩
  · cases h
    exact .inr ⟨bytes, rfl, ⟨header.message_authentication_code, dest, rfl⟩, rfl⟩

/-- Something is always left to protect, so a message that is encoded gets a code. -/
theorem Static.nasMessageEncrypt_bytes {dest src : List Byte} {type : BitVec 4}
    {direction : Direction} {r : Nat × List Byte × List Byte} (hknown : KnownType type)
    (h : nasMessageEncrypt alg dest src type direction length (some ctx) = some r) :
    r.1 = length := by
  rcases hknown with hplain | hcyphered
  · simp only [nasMessageEncrypt, hplain, if_true, map_eq_some_iff] at h
    obtain ⟨_, -, rfl⟩ := h
    rfl
  · simp only [nasMessageEncrypt, plainType_false _ hcyphered, hcyphered, Bool.false_eq_true,
      if_false, if_true] at h
    cases he : ctx.encryption <;> simp only [he, map_eq_some_iff] at h
    case other =>
      cases h
      rfl
    all_goals
      obtain ⟨_, -, rfl⟩ := h
      rfl

theorem nasMessageEncode_sent {M : Type} {codec : Codec M} (hsecured : header.secured)
    (hknown : KnownType header.security_header_type) {msg : M} {r : Buffered Nat}
    (h : nasMessageEncode alg codec side buffer header msg length (some ctx) = some r) :
    Sent side ctx header r.result r.buffer r.ctx := by
  obtain ⟨⟨size, buffer₁⟩, hheader, h⟩ := bind_eq_some_iff.1 h
  rcases Static.nasMessageHeaderEncode_some hsecured hheader with rfl | ⟨rfl, tail, rfl⟩
  · cases h
    exact .inl ⟨⟨_, rfl⟩, rfl⟩
  obtain ⟨⟨bytes, dest⟩, hprotected, h⟩ := bind_eq_some_iff.1 h
  cases bytes with
  | error e =>
    cases h
    exact .inl ⟨⟨e, rfl⟩, rfl⟩
  | ok bytes =>
    have hpos : 0 < bytes := by
      unfold Static.nasMessageProtectedEncode at hprotected
      split at hprotected
      · cases hprotected
      split at hprotected
      · cases hprotected
      · obtain ⟨plain_msg, -, hprotected⟩ := bind_eq_some_iff.1 hprotected
        obtain ⟨r, hencrypt, hprotected⟩ := bind_eq_some_iff.1 hprotected
        have hbytes := Static.nasMessageEncrypt_bytes hknown hencrypt
        cases hprotected
        omega
    dsimp only at h
    rw [if_pos hpos] at h
    obtain ⟨buffer', hmac, h⟩ := bind_eq_some_iff.1 h
    cases h
    exact .inr ⟨bytes, rfl, addMac_startsWith hmac, rfl⟩

/-! ## What the algorithms are asked -/

/-- Algorithms that are the same for one COUNT. -/
def Algorithms.AgreeAt (alg alg' : Algorithms) (count : Nat) : Prop :=
  ∀ k : StreamKey, k.count = count →
  alg.snow3g k = alg'.snow3g k ∧ alg.aesCtr k = alg'.aesCtr k ∧ alg.eia1 k = alg'.eia1 k ∧
  alg.eia2 k = alg'.eia2 k

section Agree

variable {alg' : Algorithms} {direction : Direction}

theorem Static.nasMessageEncrypt_agree (agree : alg.AgreeAt alg' (ctx.count direction).used)
    (dest src : List Byte) (type : BitVec 4) (length : Nat) :
    nasMessageEncrypt alg dest src type direction length (some ctx) =
      nasMessageEncrypt alg' dest src type direction length (some ctx) := by
  obtain ⟨hsnow, haes, -, -⟩ := agree (ctx.stream ctx.knas_enc direction) rfl
  simp only [nasMessageEncrypt, nasStreamEncryptEea1, nasStreamEncryptEea2, hsnow, haes]

theorem Static.nasMessageDecrypt_agree (agree : alg.AgreeAt alg' (ctx.count direction).used)
    (dest src : List Byte) (type : BitVec 4) (length : Nat) :
    nasMessageDecrypt alg dest src type direction length (some ctx) =
      nasMessageDecrypt alg' dest src type direction length (some ctx) := by
  obtain ⟨hsnow, -, -, -⟩ := agree (ctx.stream ctx.knas_enc direction) rfl
  simp only [nasMessageDecrypt, nasStreamEncryptEea1, hsnow, bind_some]

theorem Static.nasMessageGetMac_agree (agree : alg.AgreeAt alg' (ctx.count direction).used)
    (buffer : List Byte) (length : Nat) : nasMessageGetMac alg buffer length direction (some ctx) =
      nasMessageGetMac alg' buffer length direction (some ctx) := by
  obtain ⟨-, -, heia1, heia2⟩ := agree (ctx.stream ctx.knas_int direction) rfl
  simp only [nasMessageGetMac, heia1, heia2]

theorem addMac_agree (agree : alg.AgreeAt alg' (ctx.count side.sends).used) (buffer : List Byte)
    (size bytes : Nat) :
    addMac alg side buffer size bytes (some ctx) =
      addMac alg' side buffer size bytes (some ctx) := by
  simp only [addMac, Static.nasMessageGetMac_agree agree]

/-- What a sender asks for is for the COUNT of its counter, -/
theorem nasMessageEncrypt_agree (agree : alg.AgreeAt alg' (ctx.count side.sends).used)
    (inbuf outbuf : List Byte) : nasMessageEncrypt alg side inbuf outbuf header length (some ctx) =
      nasMessageEncrypt alg' side inbuf outbuf header length (some ctx) := by
  simp only [nasMessageEncrypt, Static.nasMessageEncrypt_agree agree, addMac_agree agree]

theorem nasMessageEncode_agree {M : Type} {codec : Codec M}
    (agree : alg.AgreeAt alg' (ctx.count side.sends).used) (buffer : List Byte) (msg : M) :
    nasMessageEncode alg codec side buffer header msg length (some ctx) =
      nasMessageEncode alg' codec side buffer header msg length (some ctx) := by
  simp only [nasMessageEncode, Static.nasMessageProtectedEncode,
    Static.nasMessageEncrypt_agree agree, addMac_agree agree]

/-- and what a receiver asks for is for that of the counter with the sequence number of the
message. -/
theorem nasMessageDecrypt_agree {inbuf : List Byte}
    (hheader : Static.nasMessageHeaderDecode inbuf length = some (some 6, header))
    (agree : alg.AgreeAt alg' ((ctx.count side.receives).heard header.sequence_number).used)
    (outbuf : List Byte) :
    nasMessageDecrypt alg side inbuf outbuf length (some ctx) =
      nasMessageDecrypt alg' side inbuf outbuf length (some ctx) := by
  have agree' : alg.AgreeAt alg'
      ((ctx.hears side.receives header.sequence_number).count side.receives).used := by
    rwa [SecurityContext.hears, SecurityContext.count_setCount]
  simp only [nasMessageDecrypt_secured hheader, Static.nasMessageGetMac_agree agree',
    Static.nasMessageDecrypt_agree agree']

theorem nasMessageDecode_agree {M : Type} {codec : Codec M}
    (hheader : Static.nasMessageHeaderDecode buffer length = some (some 6, header))
    (agree : alg.AgreeAt alg' ((ctx.count side.receives).heard header.sequence_number).used) :
    nasMessageDecode alg codec side buffer length (some ctx) =
      nasMessageDecode alg' codec side buffer length (some ctx) := by
  have agree' : alg.AgreeAt alg'
      ((ctx.hears side.receives header.sequence_number).count side.receives).used := by
    rwa [SecurityContext.hears, SecurityContext.count_setCount]
  simp only [nasMessageDecode_secured hheader, Static.nasMessageGetMac_agree agree',
    Static.nasMessageProtectedDecode, Static.nasMessageDecrypt_agree agree']

end Agree

end MacRlcSplit.Nas
