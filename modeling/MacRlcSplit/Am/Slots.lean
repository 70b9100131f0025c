-- The slots of `input_sdus`. Each slot counts in `nb_pdus` the PDUs that its
-- SDU is in, and in `nb_pdus_ack` those of them that were acknowledged; the
-- difference is how often the held PDUs list it. But `rlc_am_data_req` looks
-- at neither: a slot is taken as soon as its SDU has been segmented.
import MacRlcSplit.Am.TxWindow
import MacRlcSplit.Lib.Table

namespace MacRlcSplit.Am

open Lib List Function

/-! ## How often the held PDUs list a slot -/

def TxPdu.lists (i : Nat) (p : TxPdu) : Int := if p.held then p.sdus_index.count i else 0

def Retrans.listings (r : Retrans) (i : Nat) : Int :=
  total 1024 (TxPdu.lists i) r.pdu_retrans_buffer

variable {r r' : Retrans} {sn i : Nat}

theorem lists_nonneg (i : Nat) (p : TxPdu) : 0 ≤ p.lists i := by
  unfold TxPdu.lists
  split <;> omega

theorem listings_nonneg (r : Retrans) (i : Nat) : 0 ≤ r.listings i :=
  total_nonneg _ (lists_nonneg i)

theorem not_listed (none : r.listings i = 0) (lt : sn < 1024)
    (held : (r.pdu_retrans_buffer sn).held) : i ∉ (r.pdu_retrans_buffer sn).sdus_index := by
  intro hi
  have hle : (r.pdu_retrans_buffer sn).lists i ≤ r.listings i := le_total _ (lists_nonneg i) lt
  have hpos := count_pos_iff.2 hi
  rw [TxPdu.lists, if_pos held] at hle
  omega

theorem listings_keeps (keeps : r.Keeps r') (i : Nat) : r'.listings i = r.listings i := by
  apply total_congr
  intro sn _
  unfold TxPdu.lists
  rw [keeps.held sn]
  by_cases held : (r.pdu_retrans_buffer sn).held
  · rw [(keeps.entry sn held).sdus_index]
  · rw [if_neg held, if_neg held]

theorem listings_acked (lt : sn < 1024) (held : (r.pdu_retrans_buffer sn).held) (i : Nat) :
    (ackEntry r sn).listings i = r.listings i - (r.pdu_retrans_buffer sn).sdus_index.count i := by
  unfold Retrans.listings ackEntry Retrans.set
  rw [total_update _ _ _ (.inl lt)]
  simp only [TxPdu.lists, held, if_true]
  simp [TxPdu.held, Int.sub_eq_add_neg]

theorem listings_retx {n : Int} (buffer : r'.pdu_retrans_buffer = update r.pdu_retrans_buffer sn
      { r.pdu_retrans_buffer sn with retx_count := n }) (i : Nat) :
    r'.listings i = r.listings i := by
  have same : ({ r.pdu_retrans_buffer sn with retx_count := n } : TxPdu).lists i =
      (r.pdu_retrans_buffer sn).lists i := rfl
  unfold Retrans.listings
  rw [buffer, total_update _ _ _ (.inr same), same, Int.sub_self, add_zero]

theorem listings_store {p : TxPdu} (win : TxWin r) (held : p.held) (i : Nat) :
    (r.store p).listings i = r.listings i + p.sdus_index.count i := by
  have free : (r.pdu_retrans_buffer r.vt_s).held = false :=
    (win.outside _ fun hin => lt_irrefl _ hin.2).1
  unfold Retrans.listings Retrans.store Retrans.set
  rw [total_update _ _ _ (.inl win.vt_s)]
  simp [TxPdu.lists, free, held]

/-! ## The counters of a slot -/

/-- The PDUs that an SDU is in are the acknowledged ones and `w` more. -/
def Balanced (w : Nat → Int) (q : Sdus) : Prop :=
  ∀ i, ((q.input_sdus i).nb_pdus : Int) = (q.input_sdus i).nb_pdus_ack + w i ∧
  (q.input_sdus i).nb_pdus < 32

variable {w : Nat → Int} {q q' : Sdus}

theorem Balanced.set {w' : Nat → Int} {x : TxSdu} (h : Balanced w q)
    (table : q'.input_sdus = update q.input_sdus i x) (rest : ∀ j ≠ i, w' j = w j)
    (slot : (x.nb_pdus : Int) = x.nb_pdus_ack + w' i) (few : x.nb_pdus < 32) : Balanced w' q' := by
  intro j
  rw [table, update_apply]
  split
  · next heq =>
    subst heq
    exact ⟨slot, few⟩
  · next hne =>
    rw [rest j hne]
    exact h j

theorem Balanced.ackSdu (h : Balanced w q) (open_ : 0 < w i) :
    Balanced (update w i (w i - 1)) (ackSdu q i) := by
  have slot := (h i).1
  have few := (h i).2
  have count : ((q.input_sdus i).nb_pdus_ack + 1) % 256 = (q.input_sdus i).nb_pdus_ack + 1 :=
    Nat.mod_eq_of_lt (by omega)
  have counted : Balanced (update w i (w i - 1)) (q.set i { q.input_sdus i with
      nb_pdus_ack := ((q.input_sdus i).nb_pdus_ack + 1) % 256 }) := by
    refine h.set rfl (fun j hne => update_of_ne hne _ _) ?_ few
    rw [update_self]
    dsimp only
    omega
  unfold Am.ackSdu
  dsimp only
  split
  · next hlast =>
    -- the last one: nothing is to come, and the slot starts again at 0
    refine counted.set rfl (fun _ _ => rfl) ?_ (by decide)
    have := (counted i).1
    simp only [Sdus.set, update_self] at this
    rw [update_self]
    dsimp only
    omega
  · exact counted

theorem Balanced.ackSdus {l : List Nat} (nonneg : ∀ i, 0 ≤ w i)
    (h : Balanced (fun i => w i + l.count i) q) : Balanced w (l.foldl Am.ackSdu q) := by
  induction l generalizing q with
  | nil => simpa using h
  | cons i l ih =>
    apply ih
    have hpos : 0 < w i + ((i :: l).count i : Nat) := by
      have := nonneg i
      rw [count_cons_self]
      omega
    have step := h.ackSdu hpos
    convert step using 1
    funext j
    rw [update_apply]
    split
    · next heq =>
      subst heq
      rw [count_cons_self]
      omega
    · next hne => rw [count_cons_of_ne (Ne.symm hne)]

theorem Balanced.listed {l : List Nat} (h : Balanced (fun i => w i + l.count i) q)
    (few : (q.input_sdus i).nb_pdus + 1 < 32) :
    Balanced (fun j => w j + (l ++ [i]).count j) (q.listed i) := by
  refine h.set rfl ?_ ?_ few
  · intro j hne
    simp [Ne.symm hne]
  · have := (h i).1
    dsimp only at this ⊢
    rw [count_append, count_singleton_self]
    omega

theorem Balanced.same {x : TxSdu} (h : Balanced w q)
    (table : q'.input_sdus = update q.input_sdus i x)
    (nb_pdus : x.nb_pdus = (q.input_sdus i).nb_pdus)
    (nb_pdus_ack : x.nb_pdus_ack = (q.input_sdus i).nb_pdus_ack) : Balanced w q' := by
  refine h.set table (fun _ _ => rfl) ?_ ?_
  · rw [nb_pdus, nb_pdus_ack]
    exact (h i).1
  · rw [nb_pdus]
    exact (h i).2

variable {s : Entity} {junk : Mem} {plan : Plan} {b : Nat → Nat}

theorem Balanced.cutPdu (h : Balanced w s.sdus)
    (planned : planPdu 31 s.sdus s.sdus.current_sdu_index (dataPduSize s - 2) 2 0 0 [] =
      some plan) :
    Balanced (fun i => w i + plan.sdus_index.count i) (s.cutPdu junk plan).sdus := by
  apply cutPdu_rule planned
  · intro q n _ _ _ hq
    exact hq.same rfl rfl rfl
  · intro q current _ hq
    unfold Sdus.finish freeInSduData
    dsimp only
    rw [if_pos current]
    exact hq.same rfl rfl rfl
  · refine planPdu_rule (P := fun q l => Balanced (fun i => w i + l.count i) q) ?_ ?_ planned
    · intro q l i _ few hq
      exact hq.listed few
    · simpa using h

/-! ## The law -/

theorem int8_le {x : Int} (low : -128 ≤ x) : int8 x ≤ x := by
  unfold int8
  omega

theorem nackCount_le {x : Int} (low : -128 ≤ x) : nackCount x ≤ x + 1 := by
  unfold nackCount
  split
  · omega
  · exact int8_le (by omega)

/-- No hit that may still come takes the `retx_count` of a held PDU to the threshold. -/
def Calm (b : Nat → Nat) (s : Entity) : Prop :=
  ∀ sn, (s.retrans.pdu_retrans_buffer sn).held = true → 0 < b sn →
    (s.retrans.pdu_retrans_buffer sn).retx_count + b sn < s.cfg.max_retx_threshold

theorem calm_zero (s : Entity) : Calm (fun _ => 0) s := fun _ _ hit => absurd hit (Nat.lt_irrefl 0)

theorem Calm.same {s' : Entity} (same : TxSame s s') (h : Calm b s) : Calm b s' := by
  intro sn held hit
  rw [same.retrans.held] at held
  rw [(same.retrans.entry sn held).retx_count, same.cfg]
  exact h sn held hit

theorem Calm.less {b' : Nat → Nat} (le : ∀ sn, b' sn ≤ b sn) (h : Calm b s) : Calm b' s := by
  intro sn held hit
  have := le sn
  have := h sn held (by omega)
  omega

theorem Calm.acked {sn : Nat} (h : Calm b s) : Calm b (s.acked sn) := by
  intro sn' held' hit
  unfold Entity.acked ackEntry Retrans.set at held' ⊢
  dsimp only at held' ⊢
  rw [update_apply] at held' ⊢
  split at held'
  · cases held'
  · next hne =>
    rw [if_neg hne]
    exact h sn' held' hit

theorem Calm.raised {s' : Entity} {sn : Nat} {n : Int} (h : Calm b s) (hit : 0 < b sn)
    (held : (s.retrans.pdu_retrans_buffer sn).held)
    (count : n ≤ (s.retrans.pdu_retrans_buffer sn).retx_count + 1) (cfg : s'.cfg = s.cfg)
    (buffer : s'.retrans.pdu_retrans_buffer = update s.retrans.pdu_retrans_buffer sn
      { s.retrans.pdu_retrans_buffer sn with retx_count := n }) :
    Calm (update b sn (b sn - 1)) s' := by
  intro sn' held' hit'
  rw [buffer] at held' ⊢
  rw [cfg]
  by_cases heq : sn' = sn
  · subst heq
    rw [update_self] at hit' ⊢
    rw [update_self]
    have := h sn' held hit
    dsimp only
    omega
  · rw [update_of_ne heq] at held' hit' ⊢
    rw [update_of_ne heq]
    exact h sn' held' hit'

/-- A calm NACK gives up no SDU. -/
theorem Calm.nacked_sdus {sn : Nat} (h : Calm b s) (win : TxWin s.retrans)
    (held : (s.retrans.pdu_retrans_buffer sn).held)
    (hit : 0 < b sn) : (s.nacked sn).sdus = s.sdus := by
  have count := nackCount_le (win.retx sn)
  have below := h sn held hit
  unfold Entity.nacked
  dsimp only
  rw [if_neg (by omega)]

/-- The slots are balanced, and no hit that may still come gives up an SDU. -/
structure SlotsExact (b : Nat → Nat) (s : Entity) : Prop where
  balanced : Balanced s.retrans.listings s.sdus
  next : s.sdus.next_sdu_index < 128
  calm : Calm b s

theorem ackSdu_next (q : Sdus) (i : Nat) : (ackSdu q i).next_sdu_index = q.next_sdu_index := by
  unfold ackSdu
  dsimp only
  split <;> rfl

theorem ackSdus_next (q : Sdus) (l : List Nat) :
    (l.foldl ackSdu q).next_sdu_index = q.next_sdu_index := by
  induction l generalizing q with
  | nil => rfl
  | cons i l ih => exact (ih _).trans (ackSdu_next q i)

theorem cutPdu_next
    (planned : planPdu 31 s.sdus s.sdus.current_sdu_index (dataPduSize s - 2) 2 0 0 [] =
      some plan) : (s.cutPdu junk plan).sdus.next_sdu_index = s.sdus.next_sdu_index := by
  apply cutPdu_rule planned (P := fun q => q.next_sdu_index = s.sdus.next_sdu_index)
  · intro q n _ _ _ hq
    exact hq
  · intro q current _ hq
    unfold Sdus.finish freeInSduData
    dsimp only
    rw [if_pos current]
    exact hq
  · refine planPdu_rule (P := fun q _ => q.next_sdu_index = s.sdus.next_sdu_index) ?_ rfl planned
    intro q l i _ _ hq
    exact hq

theorem SlotsExact.same {s' : Entity} (same : TxSame s s')
    (h : SlotsExact b s) : SlotsExact b s' := by
  refine ⟨?_, same.sdus ▸ h.next, h.calm.same same⟩
  rw [same.sdus, funext (listings_keeps same.retrans)]
  exact h.balanced

theorem SlotsExact.less {b' : Nat → Nat} (le : ∀ sn, b' sn ≤ b sn) (h : SlotsExact b s) :
    SlotsExact b' s := ⟨h.balanced, h.next, h.calm.less le⟩

theorem SlotsExact.acked {sn : Nat} (win : TxWin s.retrans)
    (held : (s.retrans.pdu_retrans_buffer sn).held)
    (h : SlotsExact b s) : SlotsExact b (s.acked sn) := by
  have hlt := (win.inFlight_of_held held).1
  refine ⟨?_, ?_, h.calm.acked⟩
  · refine Balanced.ackSdus (listings_nonneg _) ?_
    intro i
    have := h.balanced i
    unfold Entity.acked
    dsimp only
    rw [listings_acked hlt held]
    omega
  · unfold Entity.acked
    rw [ackSdus_next]
    exact h.next

theorem SlotsExact.raised {s' : Entity} {sn : Nat} {n : Int} (h : SlotsExact b s) (hit : 0 < b sn)
    (held : (s.retrans.pdu_retrans_buffer sn).held)
    (count : n ≤ (s.retrans.pdu_retrans_buffer sn).retx_count + 1) (cfg : s'.cfg = s.cfg)
    (sdus : s'.sdus = s.sdus)
    (buffer : s'.retrans.pdu_retrans_buffer = update s.retrans.pdu_retrans_buffer sn
      { s.retrans.pdu_retrans_buffer sn with retx_count := n }) :
    SlotsExact (update b sn (b sn - 1)) s' := by
  refine ⟨?_, sdus ▸ h.next, h.calm.raised hit held count cfg buffer⟩
  rw [sdus, funext (listings_retx buffer)]
  exact h.balanced

theorem SlotsExact.nacked {sn : Nat} (win : TxWin s.retrans)
    (held : (s.retrans.pdu_retrans_buffer sn).held) (hit : 0 < b sn) (h : SlotsExact b s) :
    SlotsExact (update b sn (b sn - 1)) (s.nacked sn) :=
  h.raised hit held (nackCount_le (win.retx sn)) rfl (h.calm.nacked_sdus win held hit) rfl

theorem SlotsExact.resent {sn : Nat} (win : TxWin s.retrans)
    (held : (s.retrans.pdu_retrans_buffer sn).held) (hit : 0 < b sn) (h : SlotsExact b s) :
    SlotsExact (update b sn (b sn - 1)) { s with retrans := s.retrans.resent sn } := by
  have := win.retx sn
  exact h.raised hit held (int8_le (by omega)) rfl rfl rfl

theorem listings_cutPdu (win : TxWin s.retrans) :
    (s.cutPdu junk plan).retrans.listings = fun i =>
      s.retrans.listings i + plan.sdus_index.count i :=
  funext fun i => listings_store win rfl i

theorem SlotsExact.cut (win : TxWin s.retrans)
    (planned : planPdu 31 s.sdus s.sdus.current_sdu_index (dataPduSize s - 2) 2 0 0 [] =
      some plan) (h : SlotsExact (fun _ => 0) s) :
      SlotsExact (fun _ => 0) (s.cutPdu junk plan) := by
  refine ⟨?_, ?_, calm_zero _⟩
  · rw [listings_cutPdu win]
    exact h.balanced.cutPdu planned
  · rw [cutPdu_next planned]
    exact h.next

theorem slots_law : Law SlotsExact where
  same := SlotsExact.same
  less := SlotsExact.less
  acked := SlotsExact.acked
  nacked := SlotsExact.nacked
  resent win held hit _ h := h.resent win held hit
  cut win _ _ planned h := h.cut win planned

theorem slots_configure (cfg : Config) : SlotsExact (fun _ => 0) (rlcAmConfigure cfg) := by
  refine ⟨?_, (by decide : 0 < 128), calm_zero _⟩
  intro i
  have none : (rlcAmConfigure cfg).retrans.listings i = 0 := total_eq_zero fun _ _ => rfl
  rw [none]
  exact ⟨rfl, (by decide : 0 < 32)⟩

/-! ## New SDUs over whole runs -/

def Retrans.listed (r : Retrans) (i : Nat) : Prop :=
  ∃ sn, r.outstanding sn ∧ i ∈ (r.pdu_retrans_buffer sn).sdus_index

/-- A call that respects the slots: an SDU is stored only where `nb_pdus` is 0, and no hit
takes the `retx_count` of an outstanding PDU to the threshold. -/
def SparesSlots (s : Entity) : Event → Prop
  | .dataReq _ =>
    s.sdus.hasRoom = true → (s.sdus.input_sdus s.sdus.next_sdu_index).nb_pdus = 0
  | e => ∀ sn ∈ s.retrans.flight, s.retrans.outstanding sn → 0 < hits e sn →
    (s.retrans.pdu_retrans_buffer sn).retx_count + hits e sn < s.cfg.max_retx_threshold

instance (s : Entity) (e : Event) : Decidable (SparesSlots s e) := by
  cases e <;> unfold SparesSlots <;> infer_instance

theorem calm_of_flight {s : Entity} {b : Nat → Nat} (win : TxWin s.retrans)
    (h : ∀ sn ∈ s.retrans.flight, s.retrans.outstanding sn → 0 < b sn →
      (s.retrans.pdu_retrans_buffer sn).retx_count + b sn < s.cfg.max_retx_threshold) : Calm b s :=
  fun sn held hit => h sn (win.mem_flight (win.inFlight_of_held held)) (win.held_iff.1 held) hit

def Sdus.refused (q : Sdus) (req : RlcAmDataReq) : Sdus :=
  { q with
    stat_tx_pdcp_sdu_discarded := (q.stat_tx_pdcp_sdu_discarded + 1) % 2 ^ 32
    stat_tx_pdcp_bytes_discarded := (q.stat_tx_pdcp_bytes_discarded + req.data.length) % 2 ^ 32 }

theorem listings_eq_zero (h : SlotsExact b s) (unused : (s.sdus.input_sdus i).nb_pdus = 0) :
    s.retrans.listings i = 0 := by
  have := (h.balanced i).1
  have := listings_nonneg s.retrans i
  omega

/-- The slots are balanced after a run that spares them. -/
theorem slots_of_run {cfg : Config} {es : List Event}
    (meets : Meets step SparesSlots (rlcAmConfigure cfg) es)
    (h : run step (rlcAmConfigure cfg) es = some s) : TxWin s.retrans ∧
    SlotsExact (fun _ => 0) s := by
  refine slots_law.run (txWin_configure cfg) (slots_configure cfg) ?_ ?_ meets h
  · intro s e spares win hp
    refine ⟨hp.balanced, hp.next, ?_⟩
    cases e with
    | dataReq req => exact calm_zero s
    | _ => exact calm_of_flight win spares
  · intro s req spares win hp
    refine ⟨?_, ?_, calm_zero _⟩
    · unfold rlcAmDataReq
      split
      · next room =>
        refine hp.balanced.set rfl (fun _ _ => rfl) ?_ (by decide : 0 < 32)
        rw [listings_eq_zero hp (spares room)]
        rfl
      · exact hp.balanced
    · unfold rlcAmDataReq
      split
      · exact Nat.mod_lt _ (by decide)
      · exact hp.next

/-- An SDU is stored in a slot that no outstanding PDU lists, and with all 128 slots listed it
is refused: in every run of calls that respect the slots. -/
theorem a_new_sdu_never_takes_a_listed_slot {cfg : Config} {es : List Event} {s s' : Entity}
    {req : RlcAmDataReq} (meets : Meets step SparesSlots (rlcAmConfigure cfg) es)
    (h : run step (rlcAmConfigure cfg) es = some s) (spares : SparesSlots s (.dataReq req))
    (hs : step s (.dataReq req) = some s') :
    (∀ i, s'.sdus.input_sdus i ≠ s.sdus.input_sdus i → ¬ s.retrans.listed i) ∧
      ((∀ i < 128, s.retrans.listed i) → s' = { s with sdus := s.sdus.refused req }) := by
  obtain ⟨win, hp⟩ := slots_of_run meets h
  have unlisted : s.sdus.hasRoom → ¬ s.retrans.listed s.sdus.next_sdu_index := by
    rintro room ⟨sn, hout, hi⟩
    have held := win.held_iff.2 hout
    exact not_listed (listings_eq_zero hp (spares room)) hout.1.1 held hi
  cases hs
  unfold rlcAmDataReq
  by_cases room : s.sdus.hasRoom
  · rw [if_pos room]
    constructor
    · intro i changed
      by_cases heq : i = s.sdus.next_sdu_index
      · rw [heq]
        exact unlisted room
      · exact absurd (update_of_ne heq _ _) changed
    · intro all
      exact absurd (all _ hp.next) (unlisted room)
  · rw [if_neg room]
    exact ⟨fun i changed => absurd rfl changed, fun _ => rfl⟩

def oneByte (mui : Nat) : List Event :=
  [.dataReq (zeroSdu mui 1 (by decide) (by decide)), .macStatusIndication ⟨1, 0⟩ 3,
    .macDataRequest ⟨1, 0⟩ (fun _ => 0)]

theorem the_next_sdu_finds_its_slot_unlisted : ∃ s s',
    Meets step SparesSlots (rlcAmConfigure ⟨2, 4, 100, 20, 20, 20⟩)
        (oneByte 0 ++ [.macDataIndication ⟨2, 0⟩ (statusTb 1 [])] ++ oneByte 1) ∧
      run step (rlcAmConfigure ⟨2, 4, 100, 20, 20, 20⟩)
        (oneByte 0 ++ [.macDataIndication ⟨2, 0⟩ (statusTb 1 [])] ++ oneByte 1) = some s ∧
      SparesSlots s (.dataReq (zeroSdu 2 1 (by decide) (by decide))) ∧
      step s (.dataReq (zeroSdu 2 1 (by decide) (by decide))) = some s' ∧
      ∀ i, s'.sdus.input_sdus i ≠ s.sdus.input_sdus i → ¬ s.retrans.listed i := by
  have meets : Meets step SparesSlots (rlcAmConfigure ⟨2, 4, 100, 20, 20, 20⟩)
      (oneByte 0 ++ [.macDataIndication ⟨2, 0⟩ (statusTb 1 [])] ++ oneByte 1) := by
    decide +kernel
  obtain ⟨s, hs, hspares⟩ : ∃ s,
      run step (rlcAmConfigure ⟨2, 4, 100, 20, 20, 20⟩) (oneByte 0 ++ [.macDataIndication
      ⟨2, 0⟩ (statusTb 1 [])] ++ oneByte 1) = some s ∧
      SparesSlots s (.dataReq (zeroSdu 2 1 (by decide) (by decide)))
      := run_decided (by decide +kernel)
  exact ⟨s, _, meets, hs, hspares, rfl,
    (a_new_sdu_never_takes_a_listed_slot meets hs hspares rfl).1⟩

/-- Once 128 SDUs of one byte are sent and none is acknowledged, every slot is listed, and
the next SDU is stored in slot 0 all the same. -/
theorem the_129th_sdu_takes_a_listed_slot : ∃ s s',
    run step (rlcAmConfigure ⟨2, 4, 100, 20, 20, 20⟩)
        ((List.range 128).flatMap oneByte) = some s ∧
      step s (.dataReq (zeroSdu 128 1 (by decide) (by decide))) = some s' ∧
      (∀ i < 128, s.retrans.listed i) ∧ (s.sdus.input_sdus 0).mem_block = none ∧
      (s'.sdus.input_sdus 0).mem_block = some [0] := by
  obtain ⟨s, hs, listed, before, after⟩ : ∃ s,
      run step (rlcAmConfigure ⟨2, 4, 100, 20, 20, 20⟩) ((List.range
      128).flatMap oneByte) = some s ∧ (∀ i ∈ List.range 128, s.retrans.outstanding i ∧ i ∈
      (s.retrans.pdu_retrans_buffer i).sdus_index) ∧ (s.sdus.input_sdus 0).mem_block = none ∧
      ((rlcAmDataReq s.sdus
      (zeroSdu 128 1 (by decide) (by decide))).input_sdus 0).mem_block = some [0] :=
        run_decided (by decide +kernel)
  refine ⟨s, _, hs, rfl, ?_, before, after⟩
  intro i hi
  exact ⟨i, listed i (mem_range.2 hi)⟩

end MacRlcSplit.Am
