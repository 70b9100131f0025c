-- A bearer sends and is reconfigured. Is a COUNT ever used for two PDUs?
import MacRlcSplit.Lib.Run
import MacRlcSplit.Pdcp.Count

namespace MacRlcSplit.Pdcp.Uniqueness

open Lib List
open Am (Byte)

/-! ## The sending side of a bearer -/

structure Sender where
  p : Entity
  /-- How many PDUs went to the RLC. -/
  pdus : Nat := 0
  /-- The COUNTs of those with security, the last one first. -/
  counts : List Nat := []

inductive Event where
  | dataReq (mode : Mode) (sdu : List Byte)
  /-- `CONFIG_ACTION_MODIFY`. -/
  | modify (setting : Setting) (sec : Security)

/-- The bearer once it has been added. -/
def start (ctxt : Ctxt) (setting : Setting) (sec : Security) : Sender :=
  { p := configAdd ctxt setting.config sec }

section Runs

variable (osa : Osa) (srb : Bool) (rb_id : Nat)

def Sender.send (s : Sender) (mode : Mode) (sdu : List Byte) : Sender :=
  let result := s.p.dataReq osa srb rb_id mode sdu
  if result.2.isSome then
    { p := result.1
      pdus := s.pdus + 1
      counts := if result.1.secures then s.p.txCount srb mode :: s.counts else s.counts }
  else { s with p := result.1 }

/-- A setting for an SRB is none for a DRB, and the other way around. -/
def step (s : Sender) : Event → Option Sender
  | .dataReq mode sdu => some (s.send osa srb rb_id mode sdu)
  | .modify setting sec =>
    if setting.config.srb_flag = srb then some { s with p := configModify s.p setting.config sec }
    else none

/-- The HFN of a DRB with short SNs still fits in front of 12 bits, and a size changes only while
the number of the next PDU is an SN of both. -/
def Keeps (s : Sender) : Event → Prop
  | .dataReq _ _ => srb = true ∨ s.p.seq_num_size = 12 ∨ s.p.tx_hfn + 1 < 2 ^ 20
  | .modify setting _ =>
    setting.size = s.p.seq_num_size ∨ s.p.tx_hfn = 0 ∧ s.p.next_pdcp_tx_sn < 2 ^ setting.size

instance (s : Sender) (e : Event) : Decidable (Keeps srb s e) := by
  cases e <;> unfold Keeps <;> infer_instance

end Runs

/-! ## What a reconfiguration changes -/

theorem configModify_numbers (p : Entity) (setting : Setting) (sec : Security) :
    (configModify p setting.config sec).next_pdcp_tx_sn = p.next_pdcp_tx_sn ∧
      (configModify p setting.config sec).tx_hfn = p.tx_hfn ∧
      (configModify p setting.config sec).seq_num_size = setting.size := by
  unfold configModify
  obtain ⟨_, _, _, _, _, _, heq⟩ := setSecurity_eq
    { p with
      header_compression_profile := setting.config.header_compression_profile
      status_report := setting.config.rb_report
      rlc_mode := setting.config.rlc_mode } sec
  rw [heq]
  exact ⟨rfl, rfl, rfl⟩

/-! ## The invariant -/

/-- The COUNTs used are the labels of numbers below the one of the next PDU. -/
structure Fresh (srb : Bool) (s : Sender) (k : Nat) : Prop where
  numbered : SendsAt s.p k
  srb_size : srb = true → s.p.seq_num_size = 5
  counted : k ≤ s.pdus
  used : ∀ c ∈ s.counts, ∃ j < k, c =
    Counter.label (2 ^ (if srb then 5 else 12)) (2 ^ s.p.seq_num_size) j
  nodup : s.counts.Nodup

variable {srb : Bool} {s : Sender} {k : Nat}

theorem Fresh.fits (h : Fresh srb s k) (few : s.pdus + 1 < 2 ^ 31)
    (keeps : srb ∨ s.p.seq_num_size = 12 ∨ s.p.tx_hfn + 1 < 2 ^ 20) :
    (k + 1) / 2 ^ s.p.seq_num_size * 2 ^ (if srb then 5 else 12) < 2 ^ 32 := by
  have hk : k + 1 < 2 ^ 31 := by
    have := h.counted
    omega
  have within : ∀ n, (k + 1) / n * n < 2 ^ 32 := fun n => by
    have := Nat.div_mul_le_self (k + 1) n
    omega
  cases srb with
  | true =>
    rw [h.srb_size rfl]
    exact within 32
  | false =>
    rcases keeps with hsrb | hsize | hhfn
    · cases hsrb
    · rw [hsize]
      exact within 4096
    -- The HFN grows by one at most.
    have hquot : k / 2 ^ s.p.seq_num_size ≤ k := Nat.div_le_self k _
    have hsucc : (k + 1) / 2 ^ s.p.seq_num_size ≤ k / 2 ^ s.p.seq_num_size + 1 := by
      rw [← Nat.add_div_right k (Nat.two_pow_pos _)]
      exact Nat.div_le_div_right (by have := Nat.two_pow_pos s.p.seq_num_size; omega)
    rw [h.numbered.hfn] at hhfn
    show _ * 2 ^ 12 < 2 ^ 32
    omega

theorem Fresh.size_le (h : Fresh srb s k) : 2 ^ s.p.seq_num_size ≤ 2 ^ (if srb then 5 else 12) := by
  cases srb with
  | true => rw [h.srb_size rfl]; rfl
  | false => exact h.numbered.sized.le

theorem Fresh.txCount_eq (h : Fresh srb s k) (mode : Mode) (few : s.pdus + 1 < 2 ^ 31)
    (keeps : srb ∨ s.p.seq_num_size = 12 ∨ s.p.tx_hfn + 1 < 2 ^ 20) :
    s.p.txCount srb mode = Counter.label (2 ^ (if srb then 5 else 12)) (2 ^ s.p.seq_num_size)
      k := by
  have hfits := h.fits few keeps
  have hpos := Nat.two_pow_pos (if srb then 5 else 12)
  have hlt : k % 2 ^ s.p.seq_num_size < 2 ^ (if srb then 5 else 12) :=
    lt_of_lt_of_le (Nat.mod_lt k (Nat.two_pow_pos _)) h.size_le
  have hsmall : (k + 1) / 2 ^ s.p.seq_num_size < 2 ^ 32 :=
    lt_of_le_of_lt (Nat.le_mul_of_pos_right _ hpos) hfits
  rw [h.numbered.txCount, Nat.mod_eq_of_lt hsmall, countOf_eq hlt hfits, Counter.label]

/-! ## Steps -/

variable {osa : Osa} {rb_id : Nat}

theorem Sender.send_eq {mode : Mode} {sdu pdu : List Byte} {p' : Entity}
    (h : s.p.dataReq osa srb rb_id mode sdu = (p', some pdu)) :
    s.send osa srb rb_id mode sdu =
      { p := p'
        pdus := s.pdus + 1
        counts := if p'.secures then s.p.txCount srb mode :: s.counts else s.counts } := by
  simp [Sender.send, h]

theorem Fresh.send (h : Fresh srb s k) (osa : Osa) (rb_id : Nat) (mode : Mode) (sdu : List Byte)
    (few : (s.send osa srb rb_id mode sdu).pdus < 2 ^ 31)
    (keeps : srb ∨ s.p.seq_num_size = 12 ∨ s.p.tx_hfn + 1 < 2 ^ 20) :
    Fresh srb (s.send osa srb rb_id mode sdu) (k + 1) := by
  obtain ⟨pdu, hreq⟩ := h.numbered.dataReq osa srb rb_id mode sdu
  rw [Sender.send_eq hreq] at few ⊢
  have hused : ∀ c ∈ s.p.txCount srb mode :: s.counts, ∃ j < k + 1,
      c = Counter.label (2 ^ (if srb then 5 else 12)) (2 ^ s.p.seq_num_size) j := by
    refine forall_mem_cons.2 ⟨⟨k, Nat.lt_succ_self k, h.txCount_eq mode few keeps⟩, fun c hc => ?_⟩
    obtain ⟨j, hj, rfl⟩ := h.used c hc
    exact ⟨j, Nat.lt_succ_of_lt hj, rfl⟩
  have hnew : s.p.txCount srb mode ∉ s.counts := by
    intro hmem
    obtain ⟨j, hj, heq⟩ := h.used _ hmem
    rw [h.txCount_eq mode few keeps] at heq
    have := Counter.label_injective (Nat.two_pow_pos _) h.size_le heq
    omega
  refine ⟨sendsAt_setTx h.numbered.sized (k + 1), h.srb_size, Nat.succ_le_succ h.counted, ?_, ?_⟩
  · split
    · exact hused
    · exact fun c hc => hused c (mem_cons_of_mem _ hc)
  · split
    · exact nodup_cons.2 ⟨hnew, h.nodup⟩
    · exact h.nodup

theorem SendsAt.resized {p q : Entity} (h : SendsAt p k) (sized : q.Sized)
    (hsn : q.next_pdcp_tx_sn = p.next_pdcp_tx_sn) (hhfn : q.tx_hfn = p.tx_hfn)
    (hp : k < 2 ^ p.seq_num_size) (hq : k < 2 ^ q.seq_num_size) : SendsAt q k := by
  refine ⟨sized, ?_, ?_⟩
  · rw [hsn, h.sn, Nat.mod_eq_of_lt hp, Nat.mod_eq_of_lt hq]
  · rw [hhfn, h.hfn, Nat.div_eq_of_lt hp, Nat.div_eq_of_lt hq]

/-- A new size is harmless while the number of the next PDU is an SN of both sizes. -/
theorem Fresh.modify (h : Fresh srb s k) (setting : Setting) (sec : Security)
    (hflag : setting.config.srb_flag = srb) (few : s.pdus < 2 ^ 31)
    (keeps : setting.size = s.p.seq_num_size ∨ s.p.tx_hfn = 0 ∧
      s.p.next_pdcp_tx_sn < 2 ^ setting.size) :
    Fresh srb { s with p := configModify s.p setting.config sec } k := by
  obtain ⟨hsn, hhfn, hsize⟩ := configModify_numbers s.p setting sec
  have hsized : (configModify s.p setting.config sec).Sized := Setting.sized hsize
  have hsrb : srb → (configModify s.p setting.config sec).seq_num_size = 5 := fun hs => by
    exact Setting.size_of_srb_flag (hflag.trans hs)
  rcases keeps with heq | ⟨hzero, hlt⟩
  · refine ⟨⟨hsized, ?_, ?_⟩, hsrb, h.counted, ?_, h.nodup⟩
    · rw [hsn, hsize, heq, h.numbered.sn]
    · rw [hhfn, hsize, heq, h.numbered.hfn]
    · rw [hsize, heq]
      exact h.used
  · -- No SN has been used twice, so the number is the SN.
    have hk : k < 2 ^ 31 := lt_of_le_of_lt h.counted few
    have hquot : k / 2 ^ s.p.seq_num_size = 0 := by
      have hle := Nat.div_le_self k (2 ^ s.p.seq_num_size)
      have := h.numbered.hfn
      rw [hzero, Nat.mod_eq_of_lt (by omega)] at this
      exact this.symm
    have hold : k < 2 ^ s.p.seq_num_size := (Nat.div_eq_zero_iff_lt (Nat.two_pow_pos _)).1 hquot
    rw [h.numbered.sn, Nat.mod_eq_of_lt hold, ← hsize] at hlt
    refine ⟨SendsAt.resized h.numbered hsized hsn hhfn hold hlt, hsrb, h.counted, ?_, h.nodup⟩
    intro c hc
    obtain ⟨j, hj, rfl⟩ := h.used c hc
    refine ⟨j, hj, ?_⟩
    rw [Counter.label_of_lt (by omega), Counter.label_of_lt (by dsimp only; omega)]

theorem step_pdus_le {e : Event} {t : Sender}
    (h : step osa srb rb_id s e = some t) : s.pdus ≤ t.pdus := by
  cases e with
  | dataReq mode sdu =>
    rw [← Option.some.inj h, Sender.send]
    split <;> simp
  | modify setting sec =>
    simp only [step] at h
    split at h
    · cases h
      exact le_rfl
    · cases h

/-- The counts used stay different, and those of numbers before the next one. -/
theorem step_fresh {e : Event} {t : Sender} (h : s.pdus < 2 ^ 31 → ∃ k, Fresh srb s k)
    (keeps : Keeps srb s e) (hstep : step osa srb rb_id s e = some t)
    (few : t.pdus < 2 ^ 31) : ∃ k, Fresh srb t k := by
  have hfew : s.pdus < 2 ^ 31 := lt_of_le_of_lt (step_pdus_le hstep) few
  obtain ⟨k, hfresh⟩ := h hfew
  cases e with
  | dataReq mode sdu =>
    cases hstep
    exact ⟨k + 1, hfresh.send osa rb_id mode sdu few keeps⟩
  | modify setting sec =>
    simp only [step] at hstep
    split at hstep
    case isTrue hflag =>
      cases hstep
      exact ⟨k, hfresh.modify setting sec hflag hfew keeps⟩
    case isFalse => cases hstep

theorem fresh_start (ctxt : Ctxt) (setting : Setting) (sec : Security) :
    Fresh setting.config.srb_flag (start ctxt setting sec) 0 where
  numbered := configAdd_sendsAt ctxt setting sec
  srb_size h := (configAdd_size ctxt setting sec).trans (Setting.size_of_srb_flag h)
  counted := Nat.le_refl 0
  used _ hc := by cases hc
  nodup := nodup_nil

/-! ## The result -/

/-- With fewer than 2^31 PDUs, no two PDUs of a bearer are ciphered with one COUNT, if sizes change
in time and a DRB with short SNs stops before its HFN overflows. The keys may change or stay. -/
theorem no_count_is_used_twice (osa : Osa) (ctxt : Ctxt) (setting : Setting) (sec : Security)
    {es : List Event} {t : Sender}
    (keeps : Meets (step osa setting.config.srb_flag setting.config.rb_id)
      (Keeps setting.config.srb_flag) (start ctxt setting sec) es)
    (h : run (step osa setting.config.srb_flag setting.config.rb_id) (start ctxt setting sec) es =
      some t) (few : t.pdus < 2 ^ 31) : t.counts.Nodup := by
  have inv : t.pdus < 2 ^ 31 → ∃ k, Fresh setting.config.srb_flag t k :=
    run_invariant
      (fun _ _ _ hs hc hst => step_fresh hs hc hst)
      (fun _ => ⟨0, fresh_start ctxt setting sec⟩) keeps h
  obtain ⟨k, hfresh⟩ := inv few
  exact hfresh.nodup

/-! ## Examples -/

/-- A size that changes before the first SN comes again. -/
theorem no_count_is_used_twice_in_time : ∃ t,
    run (step Osa.plain false 1) (start anEnb (umDrb .len7bits) eea2)
        [.dataReq .data [1], .modify (umDrb .len12bits) {}, .dataReq .data [2]] = some t ∧
      t.counts = [1, 0] ∧ t.counts.Nodup := by
  obtain ⟨t, hrun, hcounts⟩ : ∃ t, run (step Osa.plain false 1) (start anEnb (umDrb .len7bits) eea2)
      [.dataReq .data [1], .modify (umDrb .len12bits) {}, .dataReq .data [2]] = some t ∧
      t.counts = [1, 0] ∧ t.pdus < 2 ^ 31 := run_decided (by decide +kernel)
  exact ⟨t, hrun, hcounts.1, no_count_is_used_twice Osa.plain anEnb (umDrb .len7bits) eea2
    (by decide +kernel) hrun hcounts.2⟩

theorem run_sends (osa : Osa) (srb : Bool) (rb_id : Nat) (mode : Mode) (sdu : List Byte) (n : Nat)
    (h : SendsAt s.p k) (hsec : s.p.secures) :
    ∃ t new, run (step osa srb rb_id) s (replicate n (.dataReq mode sdu)) = some t ∧
      t.p = (s.p.setTx (k + n)) ∧ t.pdus = s.pdus + n ∧ t.counts = new ++ s.counts ∧
      ∀ i < n, countOf (if srb then 5 else 12) ((k + i + 1) / 2 ^ s.p.seq_num_size % 2 ^ 32)
        ((k + i) % 2 ^ s.p.seq_num_size) ∈ new := by
  induction n generalizing s k with
  | zero => exact ⟨s, [], rfl, by rw [add_zero, h.setTx_self], rfl, rfl, fun i hi => by cases hi⟩
  | succ n ih =>
    obtain ⟨pdu, hreq⟩ := h.dataReq osa srb rb_id mode sdu
    have hsend : s.send osa srb rb_id mode sdu =
        { p := s.p.setTx (k + 1), pdus := s.pdus + 1,
          counts := s.p.txCount srb mode :: s.counts } := by
      rw [Sender.send_eq hreq, if_pos (show (s.p.setTx (k + 1)).secures from hsec)]
    obtain ⟨t, new, hrun, hp, hpdus, hcounts, hmem⟩ :=
      ih (s := s.send osa srb rb_id mode sdu) (k := k + 1)
        (hsend ▸ sendsAt_setTx h.sized (k + 1)) (hsend ▸ hsec)
    rw [hsend] at hp hpdus hcounts hmem
    dsimp only at hp hpdus hcounts
    refine ⟨t, new ++ [s.p.txCount srb mode], ?_, ?_, ?_, ?_, ?_⟩
    · exact run_cons.2 ⟨_, rfl, hrun⟩
    · rw [hp, add_comm n, ← add_assoc]
      rfl
    · omega
    · simpa using hcounts
    intro i hi
    cases i with
    | zero => simp [h.txCount]
    | succ i =>
      have := hmem i (by omega)
      rw [show k + (i + 1) = k + 1 + i by omega]
      exact mem_append_left _ this

def widened : List Event := replicate 128 (.dataReq .data [1]) ++ .modify (umDrb .len12bits) {} ::
    replicate 128 (.dataReq .data [1])

/-- With SNs of 7 bits the PDU 127 has COUNT 2^12 + 127. After the change to 12 bits, the SN 127
with HFN 1 has it again. -/
theorem a_count_is_used_again :
    ∃ t, run (step Osa.plain false 1) (start anEnb (umDrb .len7bits) eea2) widened = some t ∧
      t.pdus = 256 ∧ ¬ t.counts.Nodup := by
  obtain ⟨u, new, hu, hp, hpdus, hcounts, hmem⟩ :=
    run_sends (s := start anEnb (umDrb .len7bits) eea2)
    Osa.plain false 1 .data [1] 128 (configAdd_sendsAt anEnb (umDrb .len7bits) eea2) rfl
  have hmod : SendsAt (configModify u.p (umDrb .len12bits).config {}) 4096 := by
    rw [hp]
    exact ⟨Setting.sized (configModify_numbers _ _ _).2.2, by decide, by decide⟩
  obtain ⟨t, new', ht, -, hpdus', hcounts', hmem'⟩ := run_sends
    (s := { u with p := configModify u.p (umDrb .len12bits).config {} })
    Osa.plain false 1 .data [1] 128 hmod (by rw [hp]; rfl)
  refine ⟨t, run_append.2 ⟨u, hu, run_cons.2 ⟨_, rfl, ht⟩⟩, ?_, ?_⟩
  · rw [hpdus', hpdus]
    rfl
  rw [hcounts', hcounts]
  intro hnodup
  have hfirst : 4223 ∈ new ++ (start anEnb (umDrb .len7bits) eea2).counts :=
    mem_append_left _ (hmem 127 (by decide))
  have hagain : 4223 ∈ new' := by
    have := hmem' 127 (by decide)
    simp only [(configModify_numbers u.p (umDrb .len12bits) {}).2.2] at this
    exact this
  exact (nodup_append.1 hnodup).2.2 _ hagain _ hfirst rfl

end MacRlcSplit.Pdcp.Uniqueness
