-- The transmit window: VT(A), VT(S) and VT(MS), and which entries of the
-- retransmission buffer are held. Every call keeps it, and with it comes
-- the rule that carries any other law of the transmitter over one call.
import MacRlcSplit.Am.Transmit
import MacRlcSplit.Lib.Window

namespace MacRlcSplit.Am

open Lib List Option Function

/-! ## The window -/

def Retrans.inFlight (r : Retrans) (sn : Nat) : Prop :=
  sn < 1024 ∧ off 1024 r.vt_a sn < off 1024 r.vt_a r.vt_s

instance (r : Retrans) (sn : Nat) : Decidable (r.inFlight sn) := inferInstanceAs (Decidable (_ ∧ _))

/-- The same SNs as a list, from VT(A) on. -/
def Retrans.flight (r : Retrans) : List Nat := (List.range (off 1024 r.vt_a r.vt_s)).map fun k =>
    (r.vt_a + k) % 1024

def Retrans.outstanding (r : Retrans) (sn : Nat) : Prop :=
  r.inFlight sn ∧ (r.pdu_retrans_buffer sn).ack = false

instance (r : Retrans) (sn : Nat) : Decidable (r.outstanding sn) :=
  inferInstanceAs (Decidable (_ ∧ _))

/-- The window while VT(A) is on its way: in it, what is not acknowledged is held, and
outside of it nothing is. -/
structure TxOpen (r : Retrans) : Prop where
  vt_a : r.vt_a < 1024
  vt_s : r.vt_s < 1024
  le : off 1024 r.vt_a r.vt_s ≤ 512
  inside : ∀ sn, r.inFlight sn → (r.pdu_retrans_buffer sn).held = !(r.pdu_retrans_buffer sn).ack
  outside : ∀ sn, ¬ r.inFlight sn → (r.pdu_retrans_buffer sn).held = false ∧
    (r.pdu_retrans_buffer sn).ack = false
  /-- `retx_count` is an `int8_t`. -/
  retx : ∀ sn, -128 ≤ (r.pdu_retrans_buffer sn).retx_count

/-- The window between two calls: VT(A) waits for an acknowledgement. -/
structure TxWin (r : Retrans) : Prop extends TxOpen r where
  vt_ms : r.vt_ms = (r.vt_a + 512) % 1024
  oldest : (r.pdu_retrans_buffer r.vt_a).ack = false

variable {r r' : Retrans} {sn : Nat}

theorem TxOpen.inFlight_of_held (h : TxOpen r)
    (held : (r.pdu_retrans_buffer sn).held) : r.inFlight sn := by
  by_contra hout
  have := (h.outside sn hout).1
  rw [held] at this
  cases this

theorem TxOpen.ack_of_held (h : TxOpen r) (held : (r.pdu_retrans_buffer sn).held) :
    (r.pdu_retrans_buffer sn).ack = false := by
  have := h.inside sn (h.inFlight_of_held held)
  rw [held] at this
  simpa using this.symm

theorem TxOpen.inFlight_of_ack (h : TxOpen r)
    (ack : (r.pdu_retrans_buffer sn).ack) : r.inFlight sn := by
  by_contra hout
  have := (h.outside sn hout).2
  rw [ack] at this
  cases this

theorem TxOpen.held_iff (h : TxOpen r) : (r.pdu_retrans_buffer sn).held ↔ r.outstanding sn := by
  constructor
  · intro held
    exact ⟨h.inFlight_of_held held, h.ack_of_held held⟩
  · rintro ⟨hin, ack⟩
    rw [h.inside sn hin, ack]
    rfl

theorem TxOpen.mem_flight (h : TxOpen r) (hin : r.inFlight sn) : sn ∈ r.flight :=
  List.mem_map.2 ⟨off 1024 r.vt_a sn, mem_range.2 hin.2, add_off h.vt_a hin.1⟩

theorem TxOpen.of_entries (h : TxOpen r) (vt_a : r'.vt_a = r.vt_a) (vt_s : r'.vt_s = r.vt_s)
    (inside : ∀ sn, r.inFlight sn → (r'.pdu_retrans_buffer sn).held =
      !(r'.pdu_retrans_buffer sn).ack)
    (outside : ∀ sn, ¬ r.inFlight sn → (r'.pdu_retrans_buffer sn).held = false ∧
      (r'.pdu_retrans_buffer sn).ack = false)
    (retx : ∀ sn, -128 ≤ (r'.pdu_retrans_buffer sn).retx_count) : TxOpen r' := by
  have same : ∀ sn, r'.inFlight sn ↔ r.inFlight sn := by
    intro sn
    unfold Retrans.inFlight
    rw [vt_a, vt_s]
  refine ⟨by rw [vt_a]; exact h.vt_a, by rw [vt_s]; exact h.vt_s, ?_,
    fun sn hin => inside sn ((same sn).1 hin),
    fun sn hout => outside sn (mt (same sn).2 hout), retx⟩
  rw [vt_a, vt_s]
  exact h.le

theorem TxOpen.set {p : TxPdu} (h : TxOpen r) (vt_a : r'.vt_a = r.vt_a) (vt_s : r'.vt_s = r.vt_s)
    (buffer : r'.pdu_retrans_buffer = update r.pdu_retrans_buffer sn p)
    (hin : r.inFlight sn → p.held = !p.ack)
    (hout : ¬ r.inFlight sn → p.held = false ∧ p.ack = false)
    (retx : -128 ≤ p.retx_count) : TxOpen r' := by
  refine h.of_entries vt_a vt_s ?_ ?_ ?_
  all_goals
    intro sn'
    rw [buffer, update_apply]
    split
  · next heq => exact heq ▸ hin
  · exact h.inside sn'
  · next heq => exact heq ▸ hout
  · exact h.outside sn'
  · exact retx
  · exact h.retx sn'

theorem TxWin.set {p : TxPdu} (h : TxWin r) (vt_a : r'.vt_a = r.vt_a) (vt_s : r'.vt_s = r.vt_s)
    (vt_ms : r'.vt_ms = r.vt_ms) (buffer : r'.pdu_retrans_buffer = update r.pdu_retrans_buffer sn p)
    (held : p.held = (r.pdu_retrans_buffer sn).held) (ack : p.ack = (r.pdu_retrans_buffer sn).ack)
    (retx : -128 ≤ p.retx_count) : TxWin r' := by
  refine ⟨h.toTxOpen.set vt_a vt_s buffer ?_ ?_ retx, by rw [vt_ms, vt_a]; exact h.vt_ms, ?_⟩
  · rw [held, ack]
    exact h.inside sn
  · rw [held, ack]
    exact h.outside sn
  · rw [buffer, vt_a, update_apply]
    split
    · next heq => rw [ack, ← heq]; exact h.oldest
    · exact h.oldest

theorem TxWin.touch (h : TxWin r) (t : r.Touch r') : TxWin r' := by
  refine ⟨h.toTxOpen.of_entries t.vt_a t.vt_s ?_ ?_ ?_, by rw [t.vt_ms, t.vt_a]; exact h.vt_ms, ?_⟩
  · intro sn
    rw [(t.entry sn).held, (t.entry sn).ack]
    exact h.inside sn
  · intro sn
    rw [(t.entry sn).held, (t.entry sn).ack]
    exact h.outside sn
  · intro sn
    rw [(t.entry sn).retx_count]
    exact h.retx sn
  · rw [(t.entry _).ack, t.vt_a]
    exact h.oldest

/-! ## VT(A) moves on -/

theorem inFlight_vtA (h : TxOpen r) : r.inFlight r.vt_a ↔ r.vt_a ≠ r.vt_s := by
  unfold Retrans.inFlight
  rw [off_self, Nat.pos_iff_ne_zero, Ne, off_eq_zero h.vt_a, eq_comm]
  exact and_iff_right h.vt_a

theorem TxOpen.passVtA (h : TxOpen r) (ack : (r.pdu_retrans_buffer r.vt_a).ack) :
    TxOpen r.passVtA := by
  have hne : r.vt_a ≠ r.vt_s := (inFlight_vtA h).1 (h.inFlight_of_ack ack)
  have hs : off 1024 ((r.vt_a + 1) % 1024) r.vt_s + 1 = off 1024 r.vt_a r.vt_s :=
    off_base_succ h.vt_a h.vt_s hne.symm
  have same : ∀ sn, r.passVtA.inFlight sn ↔ r.inFlight sn ∧ sn ≠ r.vt_a := by
    intro sn
    unfold Retrans.inFlight Retrans.passVtA
    dsimp only [Retrans.set]
    by_cases heq : sn = r.vt_a
    · subst heq
      have hself := off_succ_self h.vt_a
      have hle := h.le
      omega
    · constructor
      · rintro ⟨hlt, hoff⟩
        have := off_base_succ h.vt_a hlt heq
        exact ⟨⟨hlt, by omega⟩, heq⟩
      · rintro ⟨⟨hlt, hoff⟩, -⟩
        have := off_base_succ h.vt_a hlt heq
        exact ⟨hlt, by omega⟩
  have entry : ∀ sn, r.passVtA.pdu_retrans_buffer sn = if sn =
      r.vt_a then {} else r.pdu_retrans_buffer sn := by
    intro sn
    unfold Retrans.passVtA
    simp only [Retrans.set, update_apply]
  refine ⟨succ_mod_lt h.vt_a, h.vt_s, ?_, ?_, ?_, ?_⟩
  · have hle := h.le
    unfold Retrans.passVtA
    dsimp only [Retrans.set]
    omega
  · intro sn hin
    have := (same sn).1 hin
    rw [entry, if_neg this.2]
    exact h.inside sn this.1
  · intro sn hout
    rw [entry]
    split
    · exact ⟨rfl, rfl⟩
    · next hne => exact h.outside sn (fun hin => hout ((same sn).2 ⟨hin, hne⟩))
  · intro sn
    rw [entry]
    split
    · decide
    · exact h.retx sn

/-- Two buffers that hold the same PDUs and count the same. -/
structure Retrans.Keeps (r r' : Retrans) : Prop where
  held : ∀ sn, (r'.pdu_retrans_buffer sn).held = (r.pdu_retrans_buffer sn).held
  entry : ∀ sn, (r.pdu_retrans_buffer sn).held = true →
    (r.pdu_retrans_buffer sn).Alike (r'.pdu_retrans_buffer sn)
  num_pdus : r'.retrans_num_pdus = r.retrans_num_pdus
  num_bytes : r'.retrans_num_bytes = r.retrans_num_bytes
  to_retransmit : r'.retrans_num_bytes_to_retransmit = r.retrans_num_bytes_to_retransmit
  sent : r'.sent = r.sent
  number : r'.number = r.number

theorem Retrans.Touch.keeps (h : r.Touch r') : r.Keeps r' :=
  ⟨fun sn => (h.entry sn).held, fun sn _ => h.entry sn, h.num_pdus, h.num_bytes, h.to_retransmit,
    h.sent, h.number⟩

theorem Retrans.Keeps.trans {r'' : Retrans} (h : r.Keeps r') (h' : r'.Keeps r'') : r.Keeps r'' where
  held sn := (h'.held sn).trans (h.held sn)
  entry sn held := (h.entry sn held).trans (h'.entry sn ((h.held sn).trans held))
  num_pdus := h'.num_pdus.trans h.num_pdus
  num_bytes := h'.num_bytes.trans h.num_bytes
  to_retransmit := h'.to_retransmit.trans h.to_retransmit
  sent := h'.sent.trans h.sent
  number := h'.number.trans h.number

theorem keeps_passVtA (free : (r.pdu_retrans_buffer r.vt_a).held = false) : r.Keeps r.passVtA := by
  unfold Retrans.passVtA
  refine ⟨?_, ?_, rfl, rfl, rfl, rfl, rfl⟩
  · intro sn
    dsimp only [Retrans.set]
    rw [update_apply]
    split
    · next heq => rw [heq, free]; rfl
    · rfl
  · intro sn held
    dsimp only [Retrans.set]
    rw [update_of_ne]
    · exact .refl _
    · rintro rfl
      rw [free] at held
      cases held

theorem slideVtA_spec (n : Nat) (h : TxOpen r) (ack : (r.pdu_retrans_buffer r.vt_a).ack)
    (enough : off 1024 r.vt_a r.vt_s ≤ n) :
    TxOpen (slideVtA n r) ∧ ((slideVtA n r).pdu_retrans_buffer (slideVtA n r).vt_a).ack = false ∧
      r.Keeps (slideVtA n r) := by
  -- each turn brings VT(A) one step nearer to VT(S), where nothing is acknowledged
  induction n generalizing r with
  | zero =>
    have hin := h.inFlight_of_ack ack
    have := hin.2
    omega
  | succ n ih =>
    have hin := h.inFlight_of_ack ack
    have hne := (inFlight_vtA h).1 hin
    have h' := h.passVtA ack
    have free : (r.pdu_retrans_buffer r.vt_a).held = false := by
      rw [h.inside _ hin, ack]
      rfl
    have keeps := keeps_passVtA free
    have closer : off 1024 r.passVtA.vt_a r.passVtA.vt_s + 1 = off 1024 r.vt_a r.vt_s :=
      off_base_succ h.vt_a h.vt_s hne.symm
    unfold slideVtA
    dsimp only
    split
    · next hagain =>
      obtain ⟨hopen, hack, hkeeps⟩ := ih h' hagain.1 (by omega)
      exact ⟨hopen, hack, keeps.trans hkeeps⟩
    · next hstop =>
      refine ⟨h', ?_, keeps⟩
      by_contra hack
      rw [Bool.not_eq_false] at hack
      exact hstop ⟨hack, (inFlight_vtA h').1 (h'.inFlight_of_ack hack)⟩

theorem slide_spec (h : TxOpen r) (ack : (r.pdu_retrans_buffer r.vt_a).ack) :
    TxWin r.slide ∧ r.Keeps r.slide := by
  have hspec := slideVtA_spec 1024 h ack (Nat.le_trans h.le (by decide))
  unfold Retrans.slide
  generalize slideVtA 1024 r = q at hspec
  obtain ⟨hopen, hack, keeps⟩ := hspec
  exact ⟨⟨hopen.of_entries rfl rfl hopen.inside hopen.outside hopen.retx, rfl, hack⟩,
    ⟨keeps.held, keeps.entry, keeps.num_pdus, keeps.num_bytes, keeps.to_retransmit, keeps.sent,
      keeps.number⟩⟩

/-! ## The window is kept -/

theorem neg128_le_int8 (x : Int) : -128 ≤ int8 x := by
  unfold int8
  omega

theorem neg128_le_nackCount (x : Int) : -128 ≤ nackCount x := by
  unfold nackCount
  split
  · omega
  · exact neg128_le_int8 _

theorem TxWin.nacked (h : TxWin r) (sn : Nat) : TxWin (r.nacked sn) :=
  h.set rfl rfl rfl rfl rfl rfl (neg128_le_nackCount _)

theorem TxWin.resent (h : TxWin r) (sn : Nat) : TxWin (r.resent sn) :=
  h.set rfl rfl rfl rfl rfl rfl (neg128_le_int8 _)

theorem TxWin.acked (h : TxWin r) (held : (r.pdu_retrans_buffer sn).held) :
    TxWin (if sn = r.vt_a then (ackEntry r sn).slide else ackEntry r sn) ∧
      (ackEntry r sn).Keeps (if sn = r.vt_a then (ackEntry r sn).slide else ackEntry r sn) := by
  have hin := h.inFlight_of_held held
  have hopen : TxOpen (ackEntry r sn) :=
    h.toTxOpen.set rfl rfl rfl (fun _ => rfl) (fun hout => absurd hin hout) (h.retx sn)
  split
  · next heq =>
    subst heq
    apply slide_spec hopen
    unfold ackEntry Retrans.set
    dsimp only
    rw [update_self]
  · next hne =>
    refine ⟨⟨hopen, h.vt_ms, ?_⟩, (Retrans.Touch.refl _).keeps⟩
    unfold ackEntry Retrans.set
    dsimp only
    rw [update_of_ne (Ne.symm hne)]
    exact h.oldest

theorem TxWin.room (h : TxWin r) (hopen : r.vt_s ≠ r.vt_ms) : off 1024 r.vt_a r.vt_s < 512 := by
  refine Nat.lt_of_le_of_ne h.le ?_
  intro heq
  apply hopen
  have hms : off 1024 r.vt_a r.vt_ms = 512 := by
    rw [h.vt_ms]
    exact off_add h.vt_a (by decide)
  refine off_inj h.vt_a h.vt_s ?_ (heq.trans hms.symm)
  rw [h.vt_ms]
  exact Nat.mod_lt _ (by decide)

theorem inFlight_store (h : TxWin r) (hopen : r.vt_s ≠ r.vt_ms) (p : TxPdu) (sn : Nat) :
    (r.store p).inFlight sn ↔ r.inFlight sn ∨ sn = r.vt_s := by
  have hroom := h.room hopen
  have hs : off 1024 r.vt_a ((r.vt_s + 1) % 1024) = off 1024 r.vt_a r.vt_s + 1 :=
    off_succ h.vt_a h.vt_s (by omega)
  unfold Retrans.inFlight Retrans.store
  dsimp only [Retrans.set]
  constructor
  · rintro ⟨hlt, hoff⟩
    by_cases heq : off 1024 r.vt_a sn = off 1024 r.vt_a r.vt_s
    · exact .inr (off_inj h.vt_a hlt h.vt_s heq)
    · exact .inl ⟨hlt, by omega⟩
  · rintro (⟨hlt, hoff⟩ | rfl)
    · exact ⟨hlt, by omega⟩
    · exact ⟨h.vt_s, by omega⟩

theorem store_apply (r : Retrans) (p : TxPdu) (sn : Nat) : (r.store p).pdu_retrans_buffer sn =
      if sn = r.vt_s then p else r.pdu_retrans_buffer sn := by
  unfold Retrans.store
  simp only [Retrans.set, update_apply]

theorem TxWin.store {p : TxPdu} (h : TxWin r) (hopen : r.vt_s ≠ r.vt_ms)
    (held : p.held) (ack : p.ack = false) (retx : -128 ≤ p.retx_count) : TxWin (r.store p) := by
  have hroom := h.room hopen
  refine ⟨⟨h.vt_a, succ_mod_lt h.vt_s, ?_, ?_, ?_, ?_⟩, h.vt_ms, ?_⟩
  · have hs : off 1024 r.vt_a ((r.vt_s + 1) % 1024) = off 1024 r.vt_a r.vt_s + 1 :=
      off_succ h.vt_a h.vt_s (by omega)
    unfold Retrans.store
    dsimp only [Retrans.set]
    omega
  · intro sn hin
    rw [store_apply]
    split
    · rw [held, ack]
      rfl
    · next hne => exact h.inside sn (((inFlight_store h hopen p sn).1 hin).resolve_right hne)
  · intro sn hout
    rw [inFlight_store h hopen, not_or] at hout
    rw [store_apply, if_neg hout.2]
    exact h.outside sn hout.1
  · intro sn
    rw [store_apply]
    split
    · exact retx
    · exact h.retx sn
  · rw [store_apply]
    split
    · exact ack
    · exact h.oldest

/-! ## Laws of the transmitter -/

/-- Two entities that no law of the transmitter tells apart. -/
structure TxSame (s s' : Entity) : Prop where
  cfg : s'.cfg = s.cfg
  sdus : s'.sdus = s.sdus
  retrans : s.retrans.Keeps s'.retrans

theorem Quiet.same {s s' : Entity} (h : Quiet s s') : TxSame s s' :=
  ⟨h.cfg, h.sdus, h.retrans.keeps⟩

/-- A law `P` of the transmitter. The first argument of `P` says for each SN how often
`retx_count` may still be raised before the call is over. -/
structure Law (P : (Nat → Nat) → Entity → Prop) : Prop where
  same : ∀ {b s s'}, TxSame s s' → P b s → P b s'
  less : ∀ {b b' s}, (∀ sn, b' sn ≤ b sn) → P b s → P b' s
  acked : ∀ {b s sn}, TxWin s.retrans → (s.retrans.pdu_retrans_buffer sn).held = true → P b s →
    P b (s.acked sn)
  nacked : ∀ {b s sn}, TxWin s.retrans → (s.retrans.pdu_retrans_buffer sn).held = true →
    0 < b sn → P b s → P (update b sn (b sn - 1)) (s.nacked sn)
  resent : ∀ {b s sn}, TxWin s.retrans → (s.retrans.pdu_retrans_buffer sn).held = true →
    0 < b sn → (s.retrans.pdu_retrans_buffer sn).retx_count ≥ 0 → P b s →
    P (update b sn (b sn - 1)) { s with retrans := s.retrans.resent sn }
  cut : ∀ {s junk plan}, TxWin s.retrans → s.retrans.vt_s ≠ s.retrans.vt_ms →
    (s.sdus.input_sdus s.sdus.current_sdu_index).mem_block.isSome = true →
    planPdu 31 s.sdus s.sdus.current_sdu_index (dataPduSize s - 2) 2 0 0 [] = some plan →
    P (fun _ => 0) s → P (fun _ => 0) (s.cutPdu junk plan)

/-- How often a call may raise the `retx_count` of an SN: a grant once, and a STATUS PDU with
each entry of its NACK list. -/
def hits : Event → Nat → Nat
  | .macDataRequest _ _, _ => 1
  | .macDataIndication _ tb, sn =>
    match (rlcAmGetControlPduInfos tb.data tb.size).1 with
    | none => 0
    | some info => info.nack_list.countP fun nack => nack.nack_sn = sn
  | _, _ => 0

def zeroSdu (mui n : Nat) (pos : 0 < n) (fits : n < 2 ^ 16) : RlcAmDataReq where
  mui := mui
  data := replicate n 0
  pos := by rwa [length_replicate]
  fits := by rwa [length_replicate]

def threeBytes : RlcAmDataReq := zeroSdu 7 3 (by decide) (by decide)

def tenBytes : RlcAmDataReq := zeroSdu 7 10 (by decide) (by decide)

def statusTb (ack_sn : Nat) (nack_list : List NackSn) : MacTbInd :=
  let (m, size) := rlcAmWriteStatusPdu ⟨ack_sn, nack_list⟩
  ⟨m, size⟩

/-- The NACK of a whole PDU, last in its list. -/
def wholeNack (sn : Nat) : NackSn := ⟨sn, false, false, 0, 0x7FFF⟩

section Laws

variable {P : (Nat → Nat) → Entity → Prop} {b : Nat → Nat} {s s' : Entity} {ctxt : Ctxt}

theorem Law.of_quiet (law : Law P) (quiet : Quiet s s')
    (h : TxWin s.retrans ∧ P b s) : TxWin s'.retrans ∧ P b s' :=
  ⟨h.1.touch quiet.retrans, law.same quiet.same h.2⟩

theorem Law.ackPdu (law : Law P) (sn : Nat) (h : TxWin s.retrans ∧ P b s) :
    TxWin (rlcAmAckPdu s sn).retrans ∧ P b (rlcAmAckPdu s sn) := by
  by_cases held : (s.retrans.pdu_retrans_buffer sn).held
  · have quiet := ackPdu_of_held held (h.1.ack_of_held held)
    obtain ⟨win, keeps⟩ := h.1.acked held
    apply law.of_quiet quiet
    refine ⟨win, law.same ?_ (law.acked h.1 held h.2)⟩
    exact ⟨rfl, rfl, keeps⟩
  · apply law.of_quiet (ackPdu_of_not_held (Bool.not_eq_true _ ▸ held) ?_) h
    rintro ack rfl
    rw [h.1.oldest] at ack
    cases ack

theorem Law.of_nacked (law : Law P) {sn : Nat} (held : (s.retrans.pdu_retrans_buffer sn).held)
    (hit : 0 < b sn) (h : TxWin s.retrans ∧ P b s) : TxWin (s.nacked sn).retrans ∧
    P (update b sn (b sn - 1)) (s.nacked sn) :=
  ⟨h.1.nacked sn, law.nacked h.1 held hit h.2⟩

theorem update_pred_le (b : Nat → Nat) (sn sn' : Nat) : update b sn (b sn - 1) sn' ≤ b sn' := by
  rw [update_apply]
  split
  · next heq => rw [heq]; omega
  · exact Nat.le_refl _

theorem Law.nackPdu (law : Law P) {sn : Nat} {x y : Int} (hit : 0 < b sn)
    (h : TxWin s.retrans ∧ P b s) (hnack : rlcAmNackPdu s ctxt sn x y = some s') :
    TxWin s'.retrans ∧ P (update b sn (b sn - 1)) s' := by
  rcases nackPdu_cases hnack with ⟨-, rfl⟩ | ⟨held, quiet⟩
  · exact ⟨h.1, law.less (update_pred_le b sn) h.2⟩
  · exact law.of_quiet quiet (law.of_nacked held hit h)

/-- The loop over a STATUS report. What may still be raised is what is left of its list. -/
theorem Law.processStatus (law : Law P) {ack_sn n sn : Nat} {last : Option Nat}
    {nacks : List NackSn} (h : TxWin s.retrans ∧ P (fun sn => nacks.countP (·.nack_sn = sn)) s)
    (hs : processStatus ctxt ack_sn n s sn last nacks = some s') :
    TxWin s'.retrans ∧ P (fun _ => 0) s' := by
  induction n generalizing s sn last nacks with
  | zero => cases hs
  | succ n ih =>
    unfold Am.processStatus at hs
    split at hs
    · cases hs
      exact ⟨h.1, law.less (fun _ => Nat.zero_le _) h.2⟩
    have h := law.of_quiet (stopPoll_quiet s sn) h
    cases nacks with
    | nil => exact ih (law.ackPdu sn h) hs
    | cons nack rest =>
      dsimp only at hs
      split at hs
      · exact ih (law.ackPdu sn h) hs
      next hsn =>
      have hsn : nack.nack_sn = sn := (not_not.1 hsn).symm
      obtain ⟨s₁, hnack, hs⟩ := bind_eq_some_iff.1 hs
      refine ih ?_ hs
      have h₁ := law.nackPdu (by simp [hsn]) h hnack
      refine ⟨h₁.1, law.less ?_ h₁.2⟩
      intro sn'
      rw [update_apply]
      split
      · next heq => simp [heq, hsn]
      · exact (sublist_cons_self nack rest).countP_le

theorem Law.controlPdu (law : Law P) {tb : MacTbInd} {left : Int}
    (h : TxWin s.retrans ∧ P (hits (.macDataIndication ctxt tb)) s)
    (hs : rlcAmReceiveProcessControlPdu s ctxt tb = some (s', left)) :
    TxWin s'.retrans ∧ P (fun _ => 0) s' := by
  have idle : TxWin s.retrans ∧ P (fun _ => 0) s := ⟨h.1, law.less (fun _ => Nat.zero_le _) h.2⟩
  unfold rlcAmReceiveProcessControlPdu at hs
  unfold hits at h
  dsimp only at hs h
  cases hinfo : (rlcAmGetControlPduInfos tb.data tb.size).1 with
  | none =>
    rw [hinfo] at hs
    cases hs
    exact idle
  | some info =>
    rw [hinfo] at hs h
    dsimp only at hs
    split at hs
    · cases hs
    split at hs
    · obtain ⟨s₁, hloop, hs⟩ := map_eq_some_iff.1 hs
      cases hs
      refine law.processStatus (law.of_quiet ?_ h) hloop
      exact ⟨rfl, rfl, rfl, id, ⟨fun _ => .refl _, rfl, rfl, rfl, rfl, rfl, rfl, rfl, rfl⟩⟩
    · cases hs
      exact idle

theorem Law.resentPdu (law : Law P) {sn : Nat} (hit : 0 < b sn)
    (again : (s.retrans.pdu_retrans_buffer sn).retx_count ≥ 0) (h : TxWin s.retrans ∧ P b s) :
    P (fun _ => 0) { s with retrans := s.retrans.resent sn } := by
  by_cases held : (s.retrans.pdu_retrans_buffer sn).held
  · exact law.less (fun _ => Nat.zero_le _) (law.resent h.1 held hit again h.2)
  refine law.less (fun _ => Nat.zero_le _) (law.same (s := s) ⟨rfl, rfl, ?_⟩ h.2)
  -- the count of a PDU that is not held counts for nothing
  unfold Retrans.resent Retrans.set
  refine ⟨?_, ?_, rfl, rfl, rfl, rfl, rfl⟩
  · intro sn'
    dsimp only
    rw [update_apply]
    split
    · next heq => rw [heq]; rfl
    · rfl
  · intro sn' held'
    dsimp only
    rw [update_of_ne]
    · exact .refl _
    · rintro rfl
      exact held held'

theorem Law.granted (law : Law P) {junk : Mem} {t : Entity} (h : TxWin s.retrans ∧ P (fun _ => 1) s)
    (granted : Granted s junk t) :
    TxWin t.retrans ∧ P (fun _ => 0) t := by
  have zero : ∀ {b : Nat → Nat} {u}, P b u → P (fun _ => 0) u :=
    fun hp => law.less (fun _ => Nat.zero_le _) hp
  cases granted with
  | idle => exact ⟨h.1, zero h.2⟩
  | status requested t =>
    exact ⟨h.1, law.same (s := s) ⟨rfl, rfl, (Retrans.Touch.refl _).keeps⟩ (zero h.2)⟩
  | resent sn again => exact ⟨h.1.resent sn, law.resentPdu Nat.one_pos again h⟩
  | cut plan hopen current planned =>
    refine ⟨h.1.store hopen rfl rfl ?_, law.cut h.1 hopen current planned (zero h.2)⟩
    exact (by decide : (-128 : Int) ≤ -1)
  | nacked sn held => exact ⟨h.1.nacked sn, zero (law.nacked h.1 held Nat.one_pos h.2)⟩

theorem macStatusIndication_eq {tb_size n : Nat}
    (h : rlcAmMacStatusIndication s ctxt tb_size = some (s', n)) : s' = { checkTimers s ctxt with
      last_frame_status_indication := ctxt.frame
      nb_bytes_requested_by_mac := (tb_size % 2 ^ 16 : Nat) } := by
  unfold rlcAmMacStatusIndication at h
  dsimp only at h
  split at h
  · split at h <;> cases h
    rfl
  · cases h
    rfl

theorem checkTimers_same (s : Entity) (ctxt : Ctxt) :
    (checkTimers s ctxt).cfg = s.cfg ∧ (checkTimers s ctxt).sdus = s.sdus ∧
      (checkTimers s ctxt).retrans = s.retrans := by
  unfold checkTimers
  split <;> exact ⟨rfl, rfl, rfl⟩

/-- A law that acknowledgements and transmissions keep is kept by every event. -/
theorem Law.step (law : Law P) {e : Event}
    (accept : ∀ req, e = .dataReq req → P (fun _ => 0) { s with sdus := rlcAmDataReq s.sdus req })
    (h : TxWin s.retrans ∧ P (hits e) s) (hs : Am.step s e = some s') :
    TxWin s'.retrans ∧ P (fun _ => 0) s' := by
  cases e with
  | dataReq req =>
    cases hs
    exact ⟨h.1, accept req rfl⟩
  | macStatusIndication ctxt tb_size =>
    obtain ⟨⟨s₁, n⟩, hind, rfl⟩ := map_eq_some_iff.1 hs
    rw [macStatusIndication_eq hind]
    obtain ⟨hcfg, hsdus, hretrans⟩ := checkTimers_same s ctxt
    refine ⟨hretrans ▸ h.1, law.same ⟨hcfg, hsdus, ?_⟩ h.2⟩
    rw [hretrans]
    exact (Retrans.Touch.refl _).keeps
  | macDataRequest ctxt junk =>
    obtain ⟨⟨s₁, pdus⟩, hget, rfl⟩ := map_eq_some_iff.1 hs
    obtain ⟨t, granted, quiet⟩ := getPdus_granted hget
    exact law.of_quiet quiet (law.granted h granted)
  | macDataIndication ctxt tb =>
    have idle : TxWin s.retrans ∧ P (fun _ => 0) s := ⟨h.1, law.less (fun _ => Nat.zero_le _) h.2⟩
    unfold Am.step rlcAmReceiveRouting at hs
    dsimp only at hs
    split at hs
    · cases hs
      exact idle
    split at hs
    · obtain ⟨rx, -, rfl⟩ := map_eq_some_iff.1 hs
      exact ⟨idle.1, law.same (s := s) ⟨rfl, rfl, (Retrans.Touch.refl _).keeps⟩ idle.2⟩
    · obtain ⟨⟨s₁, left⟩, hctl, hs⟩ := bind_eq_some_iff.1 hs
      obtain ⟨-, hs⟩ := ite_none_right_eq_some.1 hs
      cases hs
      exact law.controlPdu h hctl

theorem txWin_configure (cfg : Config) : TxWin (rlcAmConfigure cfg).retrans := by
  have hnew : (rlcAmConfigure cfg).retrans = {} := rfl
  rw [hnew]
  refine ⟨⟨by decide, by decide, by decide, ?_, ?_, ?_⟩, by decide, rfl⟩
  · rintro sn ⟨-, hoff⟩
    simp at hoff
  · intro sn _
    exact ⟨rfl, rfl⟩
  · intro sn
    exact (by decide : (-128 : Int) ≤ 0)

/-- A law holds after every run of calls that meet a condition, if it holds at the start,
storing an SDU keeps it, and the condition leaves room for the hits of a call. -/
theorem Law.run (law : Law P) {C : Entity → Event → Prop} {s₀ : Entity} {es : List Event}
    (win : TxWin s₀.retrans) (start : P (fun _ => 0) s₀)
    (room : ∀ s e, C s e → TxWin s.retrans → P (fun _ => 0) s → P (hits e) s)
    (accept : ∀ s req, C s (.dataReq req) → TxWin s.retrans → P (fun _ => 0) s →
      P (fun _ => 0) { s with sdus := rlcAmDataReq s.sdus req })
    (meets : Meets Am.step C s₀ es) (h : Lib.run Am.step s₀ es = some s) :
    TxWin s.retrans ∧ P (fun _ => 0) s := by
  have keep : ∀ s e t, (TxWin s.retrans ∧ P (fun _ => 0) s) → C s e → Am.step s e = some t →
      TxWin t.retrans ∧ P (fun _ => 0) t := by
    intro s e t hp hc hs
    refine law.step ?_ ⟨hp.1, room s e hc hp.1 hp.2⟩ hs
    rintro req rfl
    exact accept s req hc hp.1 hp.2
  exact run_invariant keep ⟨win, start⟩ meets h

end Laws

end MacRlcSplit.Am
