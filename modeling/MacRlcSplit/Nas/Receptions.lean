-- A receiver of protected NAS messages, with whatever octets come: what is
-- delivered has a code that was checked, but the counter is set before the
-- check, the same COUNT may come again, and the COUNT of the check is the right
-- one for the first two counters only.
import MacRlcSplit.Nas.Counts

namespace MacRlcSplit.Nas

open Lib List Option
open Am (Byte)
open Pdcp (Direction)

/-! ## Octets with a security header -/

def firstOctet : List Byte → Header
  | [] => {}
  | octet :: _ =>
    { protocol_discriminator := discriminatorOf octet, security_header_type := headerTypeOf octet }

/-- The header of octets that have a whole one. -/
def wholeHeader : List Byte → Option Header
  | octet :: a :: b :: c :: d :: sequence_number :: _ =>
    some { protocol_discriminator := discriminatorOf octet, security_header_type :=
      headerTypeOf octet,
           message_authentication_code := ⟨a, b, c, d⟩, sequence_number := sequence_number }
  | _ => none

/-- Octets with a protected header type. -/
structure Incoming where
  octets : List Byte
  secured : (firstOctet octets).secured

section Octets

variable {octets slack : List Byte} {header : Header}

theorem wholeHeader_length (h : wholeHeader octets = some header) : 6 ≤ octets.length := by
  unfold wholeHeader at h
  split at h
  · simp only [length_cons]
    omega
  · cases h

theorem nasMessageHeaderDecode_whole (hsecured : (firstOctet octets).secured)
    (h : wholeHeader octets = some header) :
    Static.nasMessageHeaderDecode (octets ++ slack) octets.length = some (some 6, header) := by
  have hlength := wholeHeader_length h
  unfold wholeHeader at h
  split at h
  · cases h
    have hlong : ¬ _ < NAS_MESSAGE_SECURITY_HEADER_SIZE := not_lt.2 hlength
    exact (if_pos hsecured).trans (if_neg hlong)
  · cases h

theorem length_of_wholeHeader_none : ∀ {octets : List Byte}, wholeHeader octets = none →
    octets.length < 6
  | [], _ | [_], _ | [_, _], _ | [_, _, _], _ | [_, _, _, _], _ | [_, _, _, _, _], _ => by simp

theorem nasMessageHeaderDecode_short (hsecured : (firstOctet octets).secured)
    (h : wholeHeader octets = none) :
    Static.nasMessageHeaderDecode (octets ++ slack) octets.length = some (none,
      firstOctet octets) := by
  have hshort := length_of_wholeHeader_none h
  cases octets with
  | nil => exact absurd hsecured (by decide)
  | cons octet tail => exact (if_pos hsecured).trans (if_pos hshort)

/-! ## The code of a message -/

variable {alg : Algorithms} {ctx : SecurityContext} {direction : Direction}

theorem macOf_hears (sn : UInt8) (octets : List Byte) :
    macOf alg (ctx.hears direction sn) direction octets =
      macFor alg ctx direction ((ctx.count direction).heard sn).used octets := by
  obtain ⟨-, hkey, -, halg⟩ := ctx.setCount_rest direction ((ctx.count direction).heard sn)
  simp only [macOf, macFor, SecurityContext.hears, SecurityContext.count_setCount, hkey, halg]

theorem nasMessageGetMac_whole (h : wholeHeader octets = some header) :
    Static.nasMessageGetMac alg ((octets ++ slack).drop 5) (octets.length - 5) direction
      (some ctx) = some (macOf alg ctx direction (octets.drop 5)) := by
  have hlength := wholeHeader_length h
  rw [drop_append_of_le_length (by omega)]
  exact Static.nasMessageGetMac_eq alg ctx direction slack (length_drop ..).symm

end Octets

/-! ## The receiver -/

/-- What came, and what was done with it. -/
structure Reception where
  octets : List Byte
  before : SecurityContext
  after : SecurityContext
  delivered : Bool

structure Receiver where
  ctx : SecurityContext
  log : List Reception := []

inductive ReceiveEvent where
  | decrypt (message : Incoming) (slack outbuf : List Byte)
  | decode (message : Incoming) (slack : List Byte)

def ReceiveEvent.octets : ReceiveEvent → List Byte
  | .decrypt message _ _ | .decode message _ => message.octets

def Receiver.receive (s : Receiver) (octets : List Byte) (delivered : Bool)
    (ctx : SecurityContext) : Receiver where
  ctx := ctx
  log := s.log ++ [⟨octets, s.ctx, ctx, delivered⟩]

/-- A message is delivered when the function returns no error. -/
def receiveStep {M : Type} (alg : Algorithms) (codec : Codec M) (side : Side)
    (s : Receiver) : ReceiveEvent → Option Receiver
  | .decrypt message slack outbuf => do
    let r ← nasMessageDecrypt alg side (message.octets ++ slack) outbuf message.octets.length
      (some s.ctx)
    let ctx ← r.ctx
    some (s.receive message.octets r.result.isOk ctx)
  | .decode message slack => do
    let r ← nasMessageDecode alg codec side (message.octets ++ slack) message.octets.length
      (some s.ctx)
    let ctx ← r.ctx
    some (s.receive message.octets r.result.isOk ctx)

variable {M : Type} {alg : Algorithms} {codec : Codec M} {side : Side} {s t : Receiver}

/-- The code in the octets is that for a COUNT. -/
def Verifies (alg : Algorithms) (ctx : SecurityContext) (direction : Direction) (count : Nat)
    (octets : List Byte) : Prop :=
  ∃ header ∈ wholeHeader octets, header.message_authentication_code =
    macFor alg ctx direction count (octets.drop 5)

instance (alg : Algorithms) (ctx : SecurityContext) (direction : Direction) (count : Nat)
    (octets : List Byte) :
    Decidable (Verifies alg ctx direction count octets) :=
  inferInstanceAs (Decidable (∃ header ∈ wholeHeader octets, _ = _))

/-- What the functions do. Octets without a whole header change nothing. With one, the counter hears
the message, and it is delivered only if the code is the one that is computed then. -/
def Taken (alg : Algorithms) (side : Side) (ctx : SecurityContext) (octets : List Byte)
    (delivered : Bool) (ctx' : Option SecurityContext) : Prop :=
  (wholeHeader octets = none ∧ delivered = false ∧ ctx' = some ctx) ∨
    ∃ header ∈ wholeHeader octets, ctx' = some (ctx.hears side.receives header.sequence_number) ∧
        (delivered = true →
        Verifies alg ctx side.receives ((ctx.count side.receives).heard header.sequence_number).used
          octets)

variable {ctx : SecurityContext} {e : ReceiveEvent}

theorem nasMessageDecrypt_taken (hint : ctx.integrity ≠ .eia0) (message : Incoming)
    {slack outbuf : List Byte} {r : Coded (Nat × Header)}
    (h : nasMessageDecrypt alg side (message.octets ++ slack) outbuf message.octets.length
      (some ctx) = some r) :
    Taken alg side ctx message.octets r.result.isOk r.ctx := by
  cases hwhole : wholeHeader message.octets with
  | none =>
    simp only [nasMessageDecrypt, nasMessageHeaderDecode_short message.secured hwhole] at h
    cases h
    exact .inl ⟨hwhole, rfl, rfl⟩
  | some header =>
    rw [nasMessageDecrypt_secured (nasMessageHeaderDecode_whole message.secured hwhole),
      nasMessageGetMac_whole hwhole, macOf_hears, bind_some] at h
    split at h
    · cases h
      exact .inr ⟨header, hwhole, rfl, fun h => absurd h Bool.false_ne_true⟩
    · rename_i hnot
      obtain ⟨r', -, rfl⟩ := map_eq_some_iff.1 h
      refine .inr ⟨header, hwhole, rfl, fun _ => ⟨header, hwhole, ?_⟩⟩
      by_contra hmac
      exact hnot ⟨fun heq => hmac heq.symm, fun _ => hint⟩

theorem nasMessageDecode_taken (message : Incoming) {slack : List Byte} {r : Buffered (M × Nat)}
    (h : nasMessageDecode alg codec side (message.octets ++ slack) message.octets.length
      (some ctx) = some r) :
    Taken alg side ctx message.octets r.result.isOk r.ctx := by
  cases hwhole : wholeHeader message.octets with
  | none =>
    simp only [nasMessageDecode, nasMessageHeaderDecode_short message.secured hwhole] at h
    cases h
    exact .inl ⟨hwhole, rfl, rfl⟩
  | some header =>
    rw [nasMessageDecode_secured (nasMessageHeaderDecode_whole message.secured hwhole),
      nasMessageGetMac_whole hwhole, macOf_hears, bind_some] at h
    split at h
    · cases h
      exact .inr ⟨header, hwhole, rfl, fun h => absurd h Bool.false_ne_true⟩
    · rename_i hnot
      obtain ⟨r', -, rfl⟩ := map_eq_some_iff.1 h
      exact .inr ⟨header, hwhole, rfl, fun _ => ⟨header, hwhole, (not_not.1 hnot).symm⟩⟩

theorem receiveStep_taken (hint : s.ctx.integrity ≠ .eia0)
    (h : receiveStep alg codec side s e = some t) :
    ∃ delivered ctx, t = s.receive e.octets delivered ctx ∧
    Taken alg side s.ctx e.octets delivered (some ctx) := by
  cases e with
  | decrypt message slack outbuf =>
    obtain ⟨r, hr, h⟩ := bind_eq_some_iff.1 h
    obtain ⟨ctx, hctx, h⟩ := bind_eq_some_iff.1 h
    cases h
    exact ⟨_, ctx, rfl, hctx ▸ nasMessageDecrypt_taken hint message hr⟩
  | decode message slack =>
    obtain ⟨r, hr, h⟩ := bind_eq_some_iff.1 h
    obtain ⟨ctx, hctx, h⟩ := bind_eq_some_iff.1 h
    cases h
    exact ⟨_, ctx, rfl, hctx ▸ nasMessageDecode_taken message hr⟩

/-! ## Runs -/

/-- The counter of a message, as the receiver takes it from the sequence number. -/
def Reception.count (direction : Direction) (r : Reception) : Option Count :=
  (wholeHeader r.octets).map fun header => (r.before.count direction).heard header.sequence_number

def Receiver.accepted (direction : Direction) (s : Receiver) : List Nat :=
  s.log.filterMap fun r => if r.delivered then (r.count direction).map Count.value else none

/-- A message has another sequence number than the counter, once something was accepted. -/
def Newer (direction : Direction) (s : Receiver) (e : ReceiveEvent) : Prop :=
  (s.ctx.count direction).overflow ≠ 0xFFFF ∧ (s.accepted direction = [] ∨
      ∀ header ∈ wholeHeader e.octets, header.sequence_number ≠ (s.ctx.count direction).seq_num)

instance (direction : Direction) (s : Receiver)
    (e : ReceiveEvent) : Decidable (Newer direction s e) :=
  inferInstanceAs (Decidable (_ ∧ (_ ∨ ∀ header ∈ wholeHeader e.octets, _ ≠ _)))

/-- What is delivered was checked with the COUNT that the code makes of the counter, and nothing
changes when the sequence number is that of the counter. -/
structure Reception.Checked (alg : Algorithms) (ctx : SecurityContext) (direction : Direction)
    (r : Reception) : Prop where
  delivered : r.delivered = true → ∃ c, r.count direction = some c ∧
    Verifies alg ctx direction c.used r.octets
  kept : (∀ header ∈ wholeHeader r.octets, header.sequence_number =
    (r.before.count direction).seq_num) → r.after = r.before

theorem SecurityContext.setCount_self (ctx : SecurityContext) (dir : Direction) :
    ctx.setCount dir (ctx.count dir) = ctx := by
  cases dir <;> rfl

/-- The key and the algorithm for the codes stay, and every message was checked. -/
structure Receiver.Good (alg : Algorithms) (ctx : SecurityContext) (direction : Direction)
    (s : Receiver) : Prop where
  knas_int : s.ctx.knas_int = ctx.knas_int
  integrity : s.ctx.integrity = ctx.integrity
  log : ∀ r ∈ s.log, r.Checked alg ctx direction

/-- What a reception adds to the log was checked, or changed nothing. -/
theorem Receiver.Good.step (hint : ctx.integrity ≠ .eia0) (hs : s.Good alg ctx side.receives)
    (h : receiveStep alg codec side s e = some t) : t.Good alg ctx side.receives := by
  obtain ⟨delivered, ctx', rfl, htaken⟩ := receiveStep_taken (hs.integrity ▸ hint) h
  rcases htaken with ⟨-, rfl, hctx⟩ | ⟨header, hwhole, hctx, hverifies⟩ <;> cases hctx
  · refine ⟨hs.knas_int, hs.integrity, forall_mem_append.2 ⟨hs.log, forall_mem_singleton.2 ?_⟩⟩
    exact ⟨fun h => absurd h Bool.false_ne_true, fun _ => rfl⟩
  obtain ⟨-, hkey, -, halg⟩ :=
    s.ctx.setCount_rest side.receives ((s.ctx.count side.receives).heard header.sequence_number)
  refine ⟨hkey.trans hs.knas_int, halg.trans hs.integrity, fun r hr => ?_⟩
  rcases mem_append.1 hr with hr | hr
  · exact hs.log r hr
  cases mem_singleton.1 hr
  refine ⟨fun hdelivered => ?_, fun hsame => ?_⟩
  · obtain ⟨header', hwhole', hmac⟩ := hverifies hdelivered
    refine ⟨_, congrArg _ hwhole, header', hwhole', ?_⟩
    rw [hmac]
    simp only [macFor, hs.knas_int, hs.integrity]
  · show s.ctx.setCount side.receives ((s.ctx.count side.receives).heard header.sequence_number) =
        s.ctx
    rw [hsame header hwhole, Count.heard_self, SecurityContext.setCount_self]

/-- The accepted counters are in order, and the counter of the receiver is not behind them. -/
structure Receiver.Ordered (direction : Direction) (s : Receiver) : Prop where
  pairwise : (s.accepted direction).Pairwise (· < ·)
  bound : ∀ v ∈ s.accepted direction, v ≤ (s.ctx.count direction).value

theorem Receiver.accepted_receive (dir : Direction) (s : Receiver) (octets : List Byte)
    (delivered : Bool) (ctx : SecurityContext) :
    (s.receive octets delivered ctx).accepted dir = s.accepted dir ++
      if delivered then ((wholeHeader octets).map fun header =>
        ((s.ctx.count dir).heard header.sequence_number).value).toList else [] := by
  cases delivered <;> cases hwhole : wholeHeader octets <;>
    simp [Receiver.accepted, Receiver.receive, Reception.count, hwhole]

/-- A newer message is accepted with a larger count than all before. -/
theorem Receiver.Ordered.step (hint : s.ctx.integrity ≠ .eia0) (hs : s.Ordered side.receives)
    (hnewer : Newer side.receives s e) (h : receiveStep alg codec side s e = some t) :
    t.Ordered side.receives := by
  obtain ⟨hoverflow, hother⟩ := hnewer
  obtain ⟨delivered, ctx', rfl, htaken⟩ := receiveStep_taken hint h
  rcases htaken with ⟨-, rfl, hctx⟩ | ⟨header, hwhole, hctx, -⟩ <;> cases hctx
  · have haccepted := s.accepted_receive side.receives e.octets false s.ctx
    rw [if_neg Bool.false_ne_true, append_nil] at haccepted
    exact ⟨haccepted ▸ hs.pairwise, fun v hv => hs.bound v (haccepted ▸ hv)⟩
  · have haccepted := s.accepted_receive side.receives e.octets delivered
      (s.ctx.hears side.receives header.sequence_number)
    have hcount : (s.ctx.hears side.receives header.sequence_number).count side.receives =
        (s.ctx.count side.receives).heard header.sequence_number :=
          SecurityContext.count_setCount ..
    have hle := Count.le_value_heard hoverflow header.sequence_number
    have hold : ∀ v ∈ s.accepted side.receives,
        v ≤ ((s.ctx.count side.receives).heard header.sequence_number).value :=
      fun v hv => le_trans (hs.bound v hv) hle
    cases delivered with
    | false =>
      rw [if_neg Bool.false_ne_true, append_nil] at haccepted
      refine ⟨haccepted ▸ hs.pairwise, fun v hv => ?_⟩
      exact hcount ▸ hold v (haccepted ▸ hv)
    | true =>
      rw [hwhole, map_some] at haccepted
      refine ⟨?_, fun v hv => ?_⟩
      · rw [haccepted, pairwise_append]
        refine ⟨hs.pairwise, pairwise_singleton _ _, fun v hv w hw => ?_⟩
        cases mem_singleton.1 hw
        -- Something was accepted, so the message has another number than the counter.
        rcases hother with hnone | hother
        · rw [hnone] at hv
          cases hv
        · exact lt_of_le_of_lt (hs.bound v hv)
            (Count.value_lt_heard hoverflow (hother header hwhole))
      · rw [haccepted, mem_append] at hv
        rcases hv with hv | hv
        · exact hcount ▸ hold v hv
        · cases mem_singleton.1 hv
          exact le_of_eq (congrArg Count.value hcount).symm

/-- Whatever comes: a message that is delivered has the code for its COUNT, if that is 0 or 1. A
message that fails changes no counter, if it has the sequence number of the counter. No counter is
accepted twice, if every message has another sequence number than the counter once something was
accepted. -/
theorem received_messages_are_checked (alg : Algorithms) (codec : Codec M) (side : Side)
    {ctx : SecurityContext} (hint : ctx.integrity = .eia1 ∨ ctx.integrity = .eia2)
    {es : List ReceiveEvent} {t : Receiver}
    (hrun : run (receiveStep alg codec side) { ctx } es = some t) :
    (∀ r ∈ t.log, r.delivered = true → ∃ c, r.count side.receives = some c ∧
      (c.value ≤ 1 → Verifies alg ctx side.receives c.value r.octets)) ∧
    (∀ r ∈ t.log, r.delivered = false →
      (∀ header ∈ wholeHeader r.octets, header.sequence_number =
        (r.before.count side.receives).seq_num) → r.after = r.before) ∧
    (Meets (receiveStep alg codec side) (Newer side.receives) { ctx } es →
      (t.accepted side.receives).Pairwise (· < ·)) := by
  have heia0 : ctx.integrity ≠ .eia0 := by
    rcases hint with h | h <;> rw [h] <;> decide
  have hstart : Receiver.Good alg ctx side.receives { ctx } := ⟨rfl, rfl, fun r hr => by cases hr⟩
  have hgood := run_always (fun s e t (hs : s.Good alg ctx side.receives) =>
    hs.step heia0) hstart hrun
  refine ⟨fun r hr hdelivered => ?_, fun r hr _ => (hgood.log r hr).kept, fun hnewer => ?_⟩
  · obtain ⟨c, hcount, hverifies⟩ := (hgood.log r hr).delivered hdelivered
    exact ⟨c, hcount, fun hvalue => Count.used_eq_value.2 hvalue ▸ hverifies⟩
  · have hkeep : ∀ s e t, s.Good alg ctx side.receives ∧ s.Ordered side.receives →
        Newer side.receives s e →
        receiveStep alg codec side s e = some t → t.Good alg ctx side.receives ∧
        t.Ordered side.receives :=
      fun s e t hs hnewer hstep =>
        ⟨hs.1.step heia0 hstep, hs.2.step (hs.1.integrity ▸ heia0) hnewer hstep⟩
    have hordered : Receiver.Ordered side.receives { ctx } :=
      ⟨List.Pairwise.nil, fun v hv => by cases hv⟩
    exact (run_invariant hkeep ⟨hstart, hordered⟩ hnewer hrun).2.pairwise

theorem integrityProtected_secured (rest : List Byte) : (firstOctet (0x17 :: rest)).secured := by
  show discriminatorOf 0x17 = EPS_MOBILITY_MANAGEMENT_MESSAGE ∧
      headerTypeOf 0x17 ≠ SECURITY_HEADER_TYPE_NOT_PROTECTED
  decide

def incoming (mac : Mac) (sequence_number : UInt8) : Incoming :=
  ⟨0x17 :: (mac.octets ++ [sequence_number, 0x07]), integrityProtected_secured _⟩

def receiver : Receiver where
  ctx := contextOf .eea0

def firstTwo : List ReceiveEvent :=
  [.decode (incoming ⟨0, 2, 2, 2⟩ 0) [], .decrypt (incoming ⟨1, 2, 2, 2⟩ 1) [] [0]]

theorem firstTwo_checked : ∃ t, run (receiveStep simple oneMessage .ue) receiver firstTwo = some t ∧
    t.log.map (·.delivered) = [true, true] ∧
    (∀ r ∈ t.log, r.delivered = true → ∃ c, r.count .downlink = some c ∧
      (c.value ≤ 1 → Verifies simple (contextOf .eea0) .downlink c.value r.octets)) ∧
    (t.accepted .downlink).Pairwise (· < ·) := by
  have hnewer : Meets (receiveStep simple oneMessage .ue) (Newer .downlink) receiver firstTwo := by
    decide +kernel
  obtain ⟨t, hrun, hdelivered⟩ : ∃ t, run (receiveStep simple oneMessage .ue) receiver firstTwo =
      some t ∧ t.log.map (·.delivered) = [true, true] := run_decided (by decide +kernel)
  obtain ⟨hchecked, -, hordered⟩ :=
    received_messages_are_checked simple oneMessage .ue (.inr rfl) hrun
  exact ⟨t, hrun, hdelivered, hchecked, hordered hnewer⟩

/-- A message with the counter 2 and the code for COUNT 1. -/
def skipped : Incoming := incoming ⟨1, 2, 2, 2⟩ 2

/-- A forged message is refused, but its sequence number stays in the counter. The first message is
accepted twice. And a message with the counter 2 is delivered with the code for COUNT 1, which is
not that for COUNT 2. -/
theorem a_message_is_not_checked :
    (∃ t, run (receiveStep simple oneMessage .ue) receiver [.decode (incoming ⟨9, 9, 9, 9⟩ 5) []] =
      some t ∧ t.log.map (·.delivered) = [false] ∧ t.ctx.dl_count = ⟨0, 5⟩) ∧
    (∃ t, run (receiveStep simple oneMessage .ue) receiver
        [.decode (incoming ⟨0, 2, 2, 2⟩ 0) [], .decode (incoming ⟨0, 2, 2, 2⟩ 0) []] = some t ∧
      t.accepted .downlink = [0, 0]) ∧
    ∃ t, run (receiveStep simple oneMessage .ue) receiver [.decode skipped []] = some t ∧
      t.accepted .downlink = [2] ∧
      ¬ Verifies simple (contextOf .eea0) .downlink 2 skipped.octets := by
  refine ⟨?_, ?_, ?_⟩
  · exact run_decided (by decide +kernel)
  · exact run_decided (by decide +kernel)
  · obtain ⟨t, hrun, haccepted⟩ : ∃ t,
        run (receiveStep simple oneMessage .ue) receiver [.decode skipped []] =
        some t ∧ t.accepted .downlink = [2] := run_decided (by decide +kernel)
    exact ⟨t, hrun, haccepted, by decide +kernel⟩

end MacRlcSplit.Nas
