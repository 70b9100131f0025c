-- One direction of a NAS signalling connection: messages are sent, lost and
-- received in order. The counters of the two ends agree as long as fewer than
-- 255 messages in a row are lost, and the COUNTs are those of the counters for
-- the first two messages.
import Mathlib.Data.List.Nodup
import MacRlcSplit.Nas.Counts

namespace MacRlcSplit.Nas

open Lib List Option
open Am (Byte)
open Pdcp (Direction)

/-! ## The link -/

/-- The security header types of protected messages. -/
abbrev ProtectedType :=
  { type : BitVec 4 // KnownType type ∧ type ≠ SECURITY_HEADER_TYPE_NOT_PROTECTED }

/-- The header of a message, as `_emm_as_data_req` sets it: with the sequence number of the
counter. -/
def headerOf (ctx : SecurityContext) (direction : Direction) (type : ProtectedType) : Header where
  protocol_discriminator := EPS_MOBILITY_MANAGEMENT_MESSAGE
  security_header_type := type.1
  sequence_number := (ctx.count direction).seq_num

theorem headerOf_secured (ctx : SecurityContext) (dir : Direction) (type : ProtectedType) :
    (headerOf ctx dir type).secured := ⟨rfl, type.2.2⟩

/-- A message on its way, with the counter that it was protected with. -/
structure Packet where
  count : Count
  octets : List Byte
deriving DecidableEq, Repr

/-- The two ends and the messages between them. `lost` is the number of messages in a row that were
lost. The counters of the messages sent are kept, and those of the messages received beside what the
receiver had. -/
structure Link where
  sender : SecurityContext
  receiver : SecurityContext
  air : List Packet := []
  lost : Nat := 0
  sent : List Count := []
  received : List (Count × Count) := []
deriving DecidableEq, Repr

inductive LinkEvent (M : Type) where
  | encrypt (type : ProtectedType) (inbuf outbuf : List Byte) (length : Nat)
  | encode (type : ProtectedType) (buffer : List Byte) (msg : M) (length : Nat)
  | lose
  | decrypt (slack outbuf : List Byte)
  | decode (slack : List Byte)

namespace Link

def send (s : Link) (direction : Direction) (octets : List Byte) (ctx : SecurityContext) : Link :=
  { s with
    sender := ctx
    air := s.air ++ [⟨s.sender.count direction, octets⟩]
    sent := s.sent ++ [s.sender.count direction] }

/-- What a function that sends leaves: a message in the buffer, or an error. -/
def leave (s : Link) (direction : Direction) (result : Except TlvError Nat) (buffer : List Byte)
    (ctx : SecurityContext) : Link :=
  match result with
  | .error _ => { s with sender := ctx }
  | .ok bytes => s.send direction (buffer.take bytes) ctx

/-- A message was received, with the counter that the receiver then has. -/
def hear (s : Link) (direction : Direction) (packet : Packet) (air : List Packet)
    (ctx : SecurityContext) : Link :=
  { s with
    receiver := ctx
    air := air
    lost := 0
    received := s.received ++ [(packet.count, ctx.count direction)] }

def drop (s : Link) (air : List Packet) : Link := { s with air := air, lost := s.lost + 1 }

end Link

variable {M : Type} {alg : Algorithms} {codec : Codec M} {side : Side} {s t : Link}

def linkStep (alg : Algorithms) (codec : Codec M) (side : Side)
    (s : Link) : LinkEvent M → Option Link
  | .encrypt type inbuf outbuf length => do
    let r ← nasMessageEncrypt alg side inbuf outbuf (headerOf s.sender side.sends type) length
      (some s.sender)
    let ctx ← r.ctx
    some (s.leave side.sends r.result r.outbuf ctx)
  | .encode type buffer msg length => do
    let r ← nasMessageEncode alg codec side buffer (headerOf s.sender side.sends type) msg length
      (some s.sender)
    let ctx ← r.ctx
    some (s.leave side.sends r.result r.buffer ctx)
  | .lose =>
    match s.air with
    | [] => none
    | _ :: air => some (s.drop air)
  | .decrypt slack outbuf =>
    match s.air with
    | [] => none
    | packet :: air => do
      let r ← nasMessageDecrypt alg side.other (packet.octets ++ slack) outbuf packet.octets.length
        (some s.receiver)
      let ctx ← r.ctx
      some (s.hear side.sends packet air ctx)
  | .decode slack =>
    match s.air with
    | [] => none
    | packet :: air => do
      let r ← nasMessageDecode alg codec side.other (packet.octets ++ slack) packet.octets.length
        (some s.receiver)
      let ctx ← r.ctx
      some (s.hear side.sends packet air ctx)

/-- The event is the reception of a message. -/
def Receives : LinkEvent M → Prop
  | .decrypt _ _ | .decode _ => True
  | .encrypt .. | .encode .. | .lose => False

/-- A message is received only after fewer than 255 losses in a row. -/
def InTime (s : Link) (e : LinkEvent M) : Prop := Receives e → s.lost < 255

instance (e : LinkEvent M) : Decidable (Receives e) := by
  cases e <;> unfold Receives <;> infer_instance

instance (s : Link) (e : LinkEvent M) : Decidable (InTime s e) :=
  inferInstanceAs (Decidable (_ → _))

/-! ## What a step does -/

/-- A message has a security header with the sequence number of its counter. -/
def Packet.Formed (packet : Packet) : Prop :=
  ∃ (header : Header) (tail : List Byte), header.secured ∧
    header.sequence_number = packet.count.seq_num ∧ packet.octets = header.octets ++ tail

variable {packet : Packet} {ctx : SecurityContext}

theorem Packet.Formed.header (h : packet.Formed) (slack : List Byte) :
    ∃ header, header.sequence_number = packet.count.seq_num ∧
      Static.nasMessageHeaderDecode (packet.octets ++ slack) packet.octets.length =
        some (some 6, header) := by
  obtain ⟨header, tail, hsecured, hseq, hoctets⟩ := h
  refine ⟨header, hseq, ?_⟩
  have hlength : 6 ≤ packet.octets.length := by
    rw [hoctets, length_append, Header.length_octets]
    omega
  have hdecode := Static.nasMessageHeaderDecode_eq (c := tail ++ slack) hsecured hlength
  rw [← append_assoc, ← hoctets] at hdecode
  exact hdecode

theorem nasMessageDecrypt_ctx (hformed : packet.Formed) {slack outbuf : List Byte}
    {r : Coded (Nat × Header)}
    (h : nasMessageDecrypt alg side (packet.octets ++ slack) outbuf packet.octets.length
      (some ctx) = some r) :
    r.ctx = some (ctx.hears side.receives packet.count.seq_num) := by
  obtain ⟨header, hseq, hheader⟩ := hformed.header slack
  rw [nasMessageDecrypt_secured hheader, hseq] at h
  obtain ⟨mac, -, h⟩ := bind_eq_some_iff.1 h
  split at h
  · cases h
    rfl
  · obtain ⟨_, -, rfl⟩ := map_eq_some_iff.1 h
    rfl

theorem nasMessageDecode_ctx (hformed : packet.Formed) {slack : List Byte} {r : Buffered (M × Nat)}
    (h : nasMessageDecode alg codec side (packet.octets ++ slack) packet.octets.length (some ctx) =
      some r) :
    r.ctx = some (ctx.hears side.receives packet.count.seq_num) := by
  obtain ⟨header, hseq, hheader⟩ := hformed.header slack
  rw [nasMessageDecode_secured hheader, hseq] at h
  obtain ⟨mac, -, h⟩ := bind_eq_some_iff.1 h
  split at h
  · cases h
    rfl
  · obtain ⟨_, -, rfl⟩ := map_eq_some_iff.1 h
    rfl

theorem Sent.leave {type : ProtectedType} {result : Except TlvError Nat} {buffer : List Byte}
    (h : Sent side s.sender (headerOf s.sender side.sends type) result buffer (some ctx)) :
    s.leave side.sends result buffer ctx = s ∨ ∃ octets,
    Packet.Formed ⟨s.sender.count side.sends, octets⟩ ∧
        s.leave side.sends result buffer ctx =
          s.send side.sends octets (s.sender.setCount side.sends
            (s.sender.count side.sends).next) := by
  rcases h with ⟨⟨e, rfl⟩, hctx⟩ | ⟨n, rfl, ⟨mac, tail, rfl⟩, hctx⟩
  · cases hctx
    exact .inl rfl
  · cases hctx
    refine .inr ⟨_, ⟨{ headerOf s.sender side.sends type with message_authentication_code := mac },
      tail.take n, headerOf_secured s.sender side.sends type, rfl, ?_⟩, rfl⟩
    rw [← Header.length_octets { headerOf s.sender side.sends
      type with message_authentication_code := mac }, take_length_add_append]

theorem linkStep_cases (hformed : ∀ packet ∈ s.air, packet.Formed) {e : LinkEvent M}
    (h : linkStep alg codec side s e = some t) :
    t = s ∨
    (∃ octets, Packet.Formed ⟨s.sender.count side.sends, octets⟩ ∧
      t =
        s.send side.sends octets (s.sender.setCount side.sends (s.sender.count side.sends).next)) ∨
    (∃ packet air, s.air = packet :: air ∧ t = s.drop air) ∨
    ∃ packet air, s.air = packet :: air ∧ Receives e ∧
      t = s.hear side.sends packet air (s.receiver.hears side.sends packet.count.seq_num) := by
  cases e with
  | encrypt type inbuf outbuf length =>
    obtain ⟨r, hr, h⟩ := bind_eq_some_iff.1 h
    obtain ⟨ctx, hctx, h⟩ := bind_eq_some_iff.1 h
    cases h
    have hsent := nasMessageEncrypt_sent (headerOf_secured s.sender side.sends type) hr
    rw [hctx] at hsent
    exact hsent.leave.imp_right .inl
  | encode type buffer msg length =>
    obtain ⟨r, hr, h⟩ := bind_eq_some_iff.1 h
    obtain ⟨ctx, hctx, h⟩ := bind_eq_some_iff.1 h
    cases h
    have hsent := nasMessageEncode_sent (headerOf_secured s.sender side.sends type) type.2.1 hr
    rw [hctx] at hsent
    exact hsent.leave.imp_right .inl
  | lose =>
    cases hair : s.air with
    | nil =>
      simp only [linkStep, hair] at h
      cases h
    | cons packet air =>
      simp only [linkStep, hair] at h
      cases h
      exact .inr (.inr (.inl ⟨packet, air, rfl, rfl⟩))
  | decrypt slack outbuf =>
    cases hair : s.air with
    | nil =>
      simp only [linkStep, hair] at h
      cases h
    | cons packet air =>
      simp only [linkStep, hair] at h
      obtain ⟨r, hr, h⟩ := bind_eq_some_iff.1 h
      have hctx := nasMessageDecrypt_ctx (hformed packet (hair ▸ mem_cons_self)) hr
      rw [hctx, side.other_receives] at h
      cases h
      exact .inr (.inr (.inr ⟨packet, air, rfl, trivial, rfl⟩))
  | decode slack =>
    cases hair : s.air with
    | nil =>
      simp only [linkStep, hair] at h
      cases h
    | cons packet air =>
      simp only [linkStep, hair] at h
      obtain ⟨r, hr, h⟩ := bind_eq_some_iff.1 h
      have hctx := nasMessageDecode_ctx (hformed packet (hair ▸ mem_cons_self)) hr
      rw [hctx, side.other_receives] at h
      cases h
      exact .inr (.inr (.inr ⟨packet, air, rfl, trivial, rfl⟩))

/-- The counter of the message that an event sends or receives. -/
def counterAt (side : Side) (s : Link) : LinkEvent M → Option Count
  | .encrypt .. | .encode .. => some (s.sender.count side.sends)
  | .lose => none
  | .decrypt .. | .decode .. =>
    s.air.head?.map fun packet => (s.receiver.count side.sends).heard packet.count.seq_num

/-- The event does not look at the algorithms but at the COUNT of that counter. -/
def UsesOneCount (alg : Algorithms) (codec : Codec M) (side : Side) (s : Link)
    (e : LinkEvent M) : Prop :=
  ∀ alg', (∀ c ∈ counterAt side s e, alg.AgreeAt alg' c.used) →
  linkStep alg codec side s e = linkStep alg' codec side s e

theorem usesOneCount (hformed : ∀ packet ∈ s.air, packet.Formed)
    (e : LinkEvent M) : UsesOneCount alg codec side s e := by
  intro alg' agree
  cases e with
  | encrypt type inbuf outbuf length => simp only [linkStep, nasMessageEncrypt_agree (agree _ rfl)]
  | encode type buffer msg length => simp only [linkStep, nasMessageEncode_agree (agree _ rfl)]
  | lose => rfl
  | decrypt slack outbuf =>
    cases hair : s.air with
    | nil => simp only [linkStep, hair]
    | cons packet air =>
      obtain ⟨header, hseq, hheader⟩ := (hformed packet (hair ▸ mem_cons_self)).header slack
      have agree : alg.AgreeAt alg'
          ((s.receiver.count side.other.receives).heard header.sequence_number).used := by
        rw [hseq, side.other_receives]
        exact agree _ (by rw [counterAt, hair]; rfl)
      simp only [linkStep, hair, nasMessageDecrypt_agree hheader agree]
  | decode slack =>
    cases hair : s.air with
    | nil => simp only [linkStep, hair]
    | cons packet air =>
      obtain ⟨header, hseq, hheader⟩ := (hformed packet (hair ▸ mem_cons_self)).header slack
      have agree : alg.AgreeAt alg'
          ((s.receiver.count side.other.receives).heard header.sequence_number).used := by
        rw [hseq, side.other_receives]
        exact agree _ (by rw [counterAt, hair]; rfl)
      simp only [linkStep, hair, nasMessageDecode_agree hheader agree]

/-! ## Runs -/

/-- The counters of the messages are the numbers from 0 on, those on the way are the last ones, and
the receiver is not farther behind them than what was lost. -/
structure Link.Numbered (direction : Direction) (s : Link) : Prop where
  sent : s.sent.map Count.value = List.range s.sent.length
  next : (s.sender.count direction).value = s.sent.length
  air : ∃ first, first + s.air.length = s.sent.length ∧
    s.air.map (·.count.value) = range' first s.air.length ∧
    (s.receiver.count direction).value ≤ first ∧ first ≤
      (s.receiver.count direction).value + s.lost + 1
  received : ∀ pair ∈ s.received, pair.2 = pair.1

section Steps

variable {direction : Direction}

theorem Link.Numbered.send (h : s.Numbered direction) (octets : List Byte)
    (hfew : s.sent.length + 1 < 2 ^ 24) :
    (s.send direction octets (s.sender.setCount direction (s.sender.count direction).next)).Numbered
      direction := by
  obtain ⟨first, hlength, hair, hle, hfirst⟩ := h.air
  refine ⟨?_, ?_, ⟨first, ?_, ?_, hle, hfirst⟩, h.received⟩
  · simp only [Link.send, map_append, h.sent, length_append, length_singleton, range_succ, map_cons,
      map_nil, h.next]
  · simp only [Link.send, SecurityContext.count_setCount, length_append, length_singleton]
    rw [Count.value_next (by rw [h.next]; exact hfew), h.next]
  · simp only [Link.send, length_append, length_singleton]
    omega
  · simp only [Link.send, map_append, hair, length_append, length_singleton, range'_concat,
      map_cons, map_nil, h.next, ← hlength, one_mul]

variable {packet : Packet} {air : List Packet}

theorem Link.Numbered.front (h : s.Numbered direction) (hair : s.air = packet :: air) :
    packet.count.value + 1 + air.length = s.sent.length ∧
      air.map (·.count.value) = range' (packet.count.value + 1) air.length ∧
      (s.receiver.count direction).value ≤ packet.count.value ∧
      packet.count.value ≤ (s.receiver.count direction).value + s.lost + 1 := by
  obtain ⟨first, hlength, hvalues, hle, hfirst⟩ := h.air
  rw [hair, length_cons, map_cons, range'_succ, List.cons.injEq] at hvalues
  obtain ⟨rfl, hvalues⟩ := hvalues
  rw [hair, length_cons] at hlength
  exact ⟨by omega, hvalues, hle, hfirst⟩

theorem Link.Numbered.drop (h : s.Numbered direction) (hair : s.air = packet :: air) :
    (s.drop air).Numbered direction := by
  obtain ⟨hlength, hvalues, hle, hfirst⟩ := h.front hair
  refine ⟨h.sent, h.next, ⟨packet.count.value + 1, hlength, hvalues, ?_, ?_⟩, h.received⟩
  · exact Nat.le_succ_of_le hle
  · simp only [Link.drop]
    omega

theorem Link.Numbered.hear (h : s.Numbered direction) (hair : s.air = packet :: air)
    (hlost : s.lost < 255) :
    (s.hear direction packet air (s.receiver.hears direction packet.count.seq_num)).Numbered
      direction := by
  obtain ⟨hlength, hvalues, hle, hfirst⟩ := h.front hair
  have hcount : (s.receiver.hears direction packet.count.seq_num).count direction =
      packet.count := by
    rw [SecurityContext.hears, SecurityContext.count_setCount]
    exact Count.heard_of_ahead hle (by omega)
  refine ⟨h.sent, h.next, ⟨packet.count.value + 1, hlength, hvalues, ?_, ?_⟩, ?_⟩
  · simp only [Link.hear, hcount]
    omega
  · simp only [Link.hear, hcount]
    omega
  intro pair hpair
  simp only [Link.hear, hcount] at hpair
  rcases mem_append.1 hpair with hpair | hpair
  · exact h.received pair hpair
  · cases mem_singleton.1 hpair
    rfl

end Steps

/-- What every step in time keeps: the messages on the way have their headers, and up to the last
number all is numbered. -/
def Link.Good (side : Side) (s : Link) : Prop :=
  (∀ packet ∈ s.air, packet.Formed) ∧ (s.sent.length < 2 ^ 24 → s.Numbered side.sends)

/-- Both counts stay those of the messages sent and received. -/
theorem Link.Good.step (h : s.Good side) {e : LinkEvent M} (hintime : InTime s e)
    (hstep : linkStep alg codec side s e = some t) : t.Good side := by
  obtain ⟨hformed, hnumbered⟩ := h
  rcases linkStep_cases hformed hstep with rfl | ⟨octets, hpacket, rfl⟩ | ⟨packet, air, hair, rfl⟩ |
    ⟨packet, air, hair, hreceives, rfl⟩
  · exact ⟨hformed, hnumbered⟩
  · refine ⟨?_, fun hfew => ?_⟩
    · exact forall_mem_append.2 ⟨hformed, forall_mem_singleton.2 hpacket⟩
    · simp only [Link.send, length_append, length_singleton] at hfew
      exact (hnumbered (by omega)).send octets hfew
  · rw [hair] at hformed
    exact ⟨fun other hmem => hformed other (mem_cons_of_mem _ hmem),
      fun hfew => (hnumbered hfew).drop hair⟩
  · rw [hair] at hformed
    exact ⟨fun other hmem => hformed other (mem_cons_of_mem _ hmem),
      fun hfew => (hnumbered hfew).hear hair (hintime hreceives)⟩

theorem Link.Good.start {sender receiver : SecurityContext} (hsender : sender.count side.sends = {})
    (hreceiver : receiver.count side.sends = {}) : Link.Good side { sender, receiver } := by
  refine ⟨?_, fun _ => ⟨rfl, ?_, ⟨0, rfl, rfl, ?_, ?_⟩, ?_⟩⟩
  · intro packet hmem
    cases hmem
  · rw [hsender]
    rfl
  · rw [hreceiver]
    exact Nat.le_refl 0
  · exact Nat.zero_le _
  · intro pair hpair
    cases hpair

/-- The first two numbers are the only ones that the logical operators keep apart. -/
theorem nodup_used_iff {sent : List Count} (hsent : sent.map Count.value = List.range sent.length) :
    (sent.map Count.used).Nodup ↔ sent.length ≤ 2 := by
  have hused : sent.map Count.used = (List.range sent.length).map (min 1) := by
    rw [← hsent, List.map_map]
    exact map_congr_left fun c _ => c.used_eq
  rw [hused]
  constructor
  · intro hnodup
    by_contra hmore
    have heq := inj_on_of_nodup_map hnodup (mem_range.2 (show 1 < sent.length by omega))
      (mem_range.2 (show 2 < sent.length by omega)) rfl
    omega
  · intro hfew
    refine nodup_range.map_on fun x hx y hy heq => ?_
    rw [mem_range] at hx hy
    omega

/-- The counters of the messages are the numbers from 0 on, and the receiver has the counter of the
sender for every message that comes in time. Every call asks the algorithms only at the COUNT of its
counter. This is the counter for the first two messages only, and so only these have different
COUNTs. -/
theorem both_ends_count_alike (alg : Algorithms) (codec : Codec M) (side : Side)
    {sender receiver : SecurityContext} (hsender : sender.count side.sends = {})
    (hreceiver : receiver.count side.sends = {}) {es : List (LinkEvent M)}
    (hintime : Meets (linkStep alg codec side) InTime { sender, receiver } es) {t : Link}
    (hrun : run (linkStep alg codec side) { sender, receiver } es = some t)
    (hfew : t.sent.length < 2 ^ 24) :
    t.sent.map Count.value = List.range t.sent.length ∧ (∀ pair ∈ t.received, pair.2 = pair.1) ∧
      Meets (linkStep alg codec side) (UsesOneCount alg codec side) { sender, receiver } es ∧
      (∀ c ∈ t.sent, c.used = c.value ↔ c.value ≤ 1) ∧
      ((t.sent.map Count.used).Nodup ↔ t.sent.length ≤ 2) := by
  have start := Link.Good.start hsender hreceiver
  have keep : ∀ s (e : LinkEvent M) t, s.Good side → InTime s e →
      linkStep alg codec side s e = some t → t.Good side :=
    fun _ _ _ h => h.step
  have hnumbered := (run_invariant keep start hintime hrun).2 hfew
  exact ⟨hnumbered.sent, hnumbered.received,
    hintime.along keep (fun s e h _ => usesOneCount h.1 e) start,
    fun c _ => Count.used_eq_value, nodup_used_iff hnumbered.sent⟩

theorem integrityProtected_protected : KnownType SECURITY_HEADER_TYPE_INTEGRITY_PROTECTED ∧
    SECURITY_HEADER_TYPE_INTEGRITY_PROTECTED ≠ SECURITY_HEADER_TYPE_NOT_PROTECTED := by
  decide

def oneOctet : LinkEvent Unit := .encrypt ⟨_, integrityProtected_protected⟩ [0x07] (replicate 7 0) 7

def newLink : Link where
  sender := contextOf .eea0
  receiver := contextOf .eea0

def twoMessages : List (LinkEvent Unit) :=
  [oneOctet, .encode ⟨_, integrityProtected_protected⟩ (replicate 7 0) () 7, .lose, .decode []]

theorem twoMessages_alike : ∃ t, run (linkStep simple oneMessage .ue) newLink twoMessages = some t ∧
    t.received = [(⟨0, 1⟩, ⟨0, 1⟩)] ∧
    (∀ pair ∈ t.received, pair.2 = pair.1) ∧
    (∀ c ∈ t.sent, c.used = c.value ↔ c.value ≤ 1) ∧ (t.sent.map Count.used).Nodup := by
  have hintime : Meets (linkStep simple oneMessage .ue) InTime newLink twoMessages := by
    decide +kernel
  obtain ⟨t, hrun, hreceived, hlength⟩ : ∃ t,
      run (linkStep simple oneMessage .ue) newLink twoMessages = some t ∧
      t.received = [(⟨0, 1⟩, ⟨0, 1⟩)] ∧ t.sent.length = 2 := run_decided (by decide +kernel)
  obtain ⟨-, halike, -, hused, hnodup⟩ :=
    both_ends_count_alike simple oneMessage .ue rfl rfl hintime hrun (by rw [hlength]; decide)
  exact ⟨t, hrun, hreceived, halike, hused, hnodup.2 (by rw [hlength])⟩

/-- Three messages: the COUNTs are 0, 1 and 1. And with 255 losses in a row after the first of 257
messages, the receiver does not see the overflow: the last message has COUNT 1 for the sender and
COUNT 0 for the receiver. -/
theorem a_nas_count_is_used_again :
    (∃ t, run (linkStep simple oneMessage .ue) newLink [oneOctet, oneOctet, oneOctet] = some t ∧
      t.sent.map Count.value = [0, 1, 2] ∧ t.sent.map Count.used = [0, 1, 1]) ∧
    ∃ t, run (linkStep simple oneMessage .ue) newLink
        (replicate 257 oneOctet ++ [.decode []] ++ replicate 255 .lose ++ [.decode []]) = some t ∧
      t.received = [({}, {}), (⟨1, 0⟩, ⟨0, 0⟩)] ∧ Count.used ⟨1, 0⟩ = 1 ∧
      Count.used ⟨0, 0⟩ = 0 := by
  constructor
  all_goals exact run_decided (by decide +kernel)

end MacRlcSplit.Nas
