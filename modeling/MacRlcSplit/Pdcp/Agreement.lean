-- A sender and a receiver of one bearer, and a channel between them that
-- keeps the order and loses PDUs. Do both ends use the same COUNTs?
import MacRlcSplit.Lib.Run
import MacRlcSplit.Pdcp.Count

namespace MacRlcSplit.Pdcp.Agreement

open Lib List
open Am (Byte)

/-! ## The channel -/

structure Channel where
  tx : Entity
  rx : Entity
  /-- The PDUs on their way, the oldest first, with the COUNTs of the sender. -/
  air : List (List Byte × Nat) := []
  /-- The PDUs lost since one was received. -/
  gap : Nat := 0
  /-- The COUNTs of the sender and of the receiver, for all PDUs received. -/
  seen : List (Nat × Nat) := []

inductive Event where
  | send (mode : Mode) (sdu : List Byte)
  | lose
  | receive

/-- The end that sends and the end that receives, set up the same way. -/
def start (sender receiver : Ctxt) (setting : Setting) (sec sec' : Security) : Channel where
  tx := configAdd sender setting.config sec
  rx := configAdd receiver setting.config sec'

section Runs

variable (osa : Osa) (gtp : Bool) (ctxt : Ctxt) (srb : Bool) (rb_id : Nat)

/-- The PDU of an SDU, if it gets one, and its COUNT. -/
def Channel.sent (c : Channel) (mode : Mode) (sdu : List Byte) : List (List Byte × Nat) :=
  (c.tx.dataReq osa srb rb_id mode sdu).2.toList.map fun pdu => (pdu, c.tx.txCount srb mode)

/-- Fewer PDUs are lost in a row than half of the SNs. -/
def step (c : Channel) : Event → Option Channel
  | .send mode sdu =>
    some
      { c with
        tx := (c.tx.dataReq osa srb rb_id mode sdu).1
        air := c.air ++ c.sent osa srb rb_id mode sdu }
  | .lose =>
    match c.air with
    | [] => none
    | _ :: rest =>
      if c.gap + 1 < 2 ^ c.rx.seq_num_size / 2 then some { c with air := rest, gap := c.gap + 1 }
      else none
  | .receive =>
    match c.air with
    | [] => none
    | (pdu, count) :: rest =>
      some
        { c with
          air := rest
          gap := 0
          rx := (c.rx.dataInd osa gtp ctxt srb rb_id pdu).1
          seen := (count, c.rx.rxCount srb pdu) :: c.seen }

/-- Over RLC AM, a DRB must not lose the PDU after which the SN starts again, and what goes to
GTP-U has only SNs of the lower half. -/
def InStep (c : Channel) : Event → Prop
  | .send _ _ | .lose => True
  | .receive =>
    c.rx.rlc_mode = .am ∧ srb = false → ∀ sent ∈ c.air.head?,
    c.rx.next_pdcp_rx_sn ≤ (rxHeader c.rx srb sent.1).2 ∧
        (gtp = true ∧ ctxt.enb_flag = true → (rxHeader c.rx srb sent.1).2 < 2048)

instance (c : Channel) (e : Event) : Decidable (InStep gtp ctxt srb c e) := by
  cases e <;> unfold InStep <;> infer_instance

end Runs

/-! ## One PDU at the receiver -/

/-- An SRB, or a DRB with 12 bits over RLC UM or AM. -/
def Covered (srb : Bool) (size : Nat) (rlc_mode : RlcMode) : Prop :=
  srb = true ∧ size = 5 ∨ srb = false ∧ size = 12 ∧ (rlc_mode = .um ∨ rlc_mode = .am)

theorem Covered.size_of_drb {srb : Bool} {size : Nat} {rlc_mode : RlcMode}
    (h : Covered srb size rlc_mode) (hsrb : srb = false) : size = 12 := by
  rcases h with ⟨hsrb', -⟩ | ⟨-, hsize, -⟩
  · cases hsrb.symm.trans hsrb'
  · exact hsize

/-- The last SN that went to the upper layer, as the receiver has it. For GTP-U it stays what it was
at the start. -/
def lastSubmitted (up : Bool) (j : Nat) : Nat := if up then 4095 else (j + 4095) % 4096

variable {p : Entity} {srb up : Bool} {j k : Nat}

theorem not_outOfWindow (hsize : p.seq_num_size = 12)
    (hlast : p.last_submitted_pdcp_rx_sn = lastSubmitted up j) (hjk : j ≤ k) (hlt : k < j + 2048)
    (hup : up → k % 2 ^ 12 < 2048) : ¬ outOfWindow p (k % 2 ^ 12) := by
  have hwin : p.reorderingWindow = 2048 := by simp [Entity.reorderingWindow, hsize]
  rw [outOfWindow, hlast, lastSubmitted]
  cases up with
  | true =>
    have := hup rfl
    simp only [if_true]
    omega
  | false =>
    simp only [Bool.false_eq_true, if_false]
    omega

theorem receives_next (covered : Covered srb p.seq_num_size p.rlc_mode) (h : ReceivesAt p j)
    (hlast : p.rlc_mode = .am ∧ srb = false → p.last_submitted_pdcp_rx_sn = lastSubmitted up j)
    (hjk : j ≤ k) (hlt : k < j + 2 ^ p.seq_num_size / 2)
    (hsn : p.rlc_mode = .am ∧ srb = false → p.next_pdcp_rx_sn ≤
      k % 2 ^ 12 ∧ (up → k % 2 ^ 12 < 2048)) :
    ReceivesAt (pdcpIsRxSeqNumberValid (k % 2 ^ p.seq_num_size) p srb).1 (k + 1) := by
  have hvalid : pdcpIsSeqNumValid (k % 2 ^ p.seq_num_size) p.seq_num_size := by
    have hmax := h.sized.maxSn_succ
    exact decide_eq_true (show _ ≤ p.maxSn by omega)
  have hhalf : k < j + 2 ^ p.seq_num_size := by omega
  rw [pdcpIsRxSeqNumberValid, if_neg (by simp [pdcpIsSeqNumSizeValid_iff.2 h.sized, hvalid])]
  rcases covered with ⟨rfl, -⟩ | ⟨rfl, hsize, hmode | hmode⟩
  · -- An SRB keeps the SN for a step back that is never made.
    have hkept : ReceivesAt { p with rx_hfn_offset := 0, next_pdcp_rx_sn_before_integrity :=
        p.next_pdcp_rx_sn } j :=
      ⟨h.sized, h.sn, h.hfn, rfl⟩
    rw [hkept.receiveNext hjk hhalf]
    exact hkept.setRx (k + 1)
  · rw [hmode]
    rw [h.receiveNext hjk hhalf]
    exact h.setRx (k + 1)
  · rw [hsize] at hlt ⊢
    obtain ⟨hle, hup⟩ := hsn ⟨hmode, rfl⟩
    have hwindow := not_outOfWindow hsize (hlast ⟨hmode, rfl⟩) hjk hlt hup
    rw [if_neg (by decide), hmode]
    rw [h.receiveAm hjk hsize hlt hle hwindow]
    exact h.setRx (k + 1)

theorem dataInd_state (osa : Osa) (gtp : Bool) (ctxt : Ctxt) (rb_id : Nat) {pdu : List Byte}
    {sn : Nat} (hsn : (rxHeader p srb pdu).2 = sn) {q : Entity}
    (hq : (pdcpIsRxSeqNumberValid sn p srb).1 = q) (hoffset : q.rx_hfn_offset = 0)
    (hlen : (rxHeader p srb pdu).1 + tailerLen srb ≤ pdu.length) :
    (p.dataInd osa gtp ctxt srb rb_id pdu).1 =
      if q.rlc_mode = .am ∧ srb = false ∧ ¬ (gtp ∧ ctxt.enb_flag) then
        { q with last_submitted_pdcp_rx_sn := sn }
      else q := by
  have hopen : (p.open osa srb rb_id pdu).1 = q := by
    have hsame : { q with rx_hfn_offset := 0 } = q := by rw [← hoffset]
    rw [Entity.open]
    dsimp only
    rw [hsn, hq]
    split
    · exact hsame
    · rfl
  rw [Entity.dataInd]
  dsimp only
  rw [if_neg (by omega), hopen, hsn]
  cases srb with
  | true => simp
  | false =>
    by_cases hgtp : gtp ∧ ctxt.enb_flag
    · simp [hgtp]
    · by_cases ham : q.rlc_mode = .am <;> simp [hgtp, ham]

theorem dataInd_receives (osa : Osa) {gtp : Bool} {ctxt : Ctxt} (rb_id : Nat) {pdu : List Byte}
    (covered : Covered srb p.seq_num_size p.rlc_mode) (h : ReceivesAt p j)
    (hlast : p.rlc_mode = .am ∧ srb = false → p.last_submitted_pdcp_rx_sn =
      lastSubmitted (gtp && ctxt.enb_flag) j) (hjk : j ≤ k) (hlt : k < j + 2 ^ p.seq_num_size / 2)
    (hheader : (rxHeader p srb pdu).2 = k % 2 ^ p.seq_num_size)
    (hlen : (rxHeader p srb pdu).1 + tailerLen srb ≤ pdu.length)
    (hsn : p.rlc_mode = .am ∧ srb = false →
      p.next_pdcp_rx_sn ≤ k % 2 ^ 12 ∧ ((gtp && ctxt.enb_flag) → k % 2 ^ 12 < 2048)) :
    let q := (p.dataInd osa gtp ctxt srb rb_id pdu).1
    ReceivesAt q (k + 1) ∧ q.seq_num_size = p.seq_num_size ∧ q.rlc_mode = p.rlc_mode ∧
        (q.rlc_mode = .am ∧ srb = false →
        q.last_submitted_pdcp_rx_sn = lastSubmitted (gtp && ctxt.enb_flag) (k + 1)) := by
  have hrec := receives_next covered h hlast hjk hlt hsn
  obtain ⟨n, hn⟩ := pdcpIsRxSeqNumberValid_frame (k % 2 ^ p.seq_num_size) p srb
  rw [hn] at hrec
  rw [dataInd_state osa gtp ctxt rb_id hheader hn hrec.offset hlen]
  split
  case isTrue hip =>
    refine ⟨⟨hrec.sized, hrec.sn, hrec.hfn, hrec.offset⟩, rfl, rfl, fun ham => ?_⟩
    have hsize := covered.size_of_drb ham.2
    rw [lastSubmitted, if_neg (by simpa using hip.2.2)]
    dsimp only
    rw [hsize]
    omega
  case isFalse hnot =>
    refine ⟨hrec, rfl, rfl, fun ham => ?_⟩
    have hup : (gtp && ctxt.enb_flag) := by
      by_contra hno
      exact hnot ⟨ham.1, ham.2, by simpa using hno⟩
    have hkeep : (p.withRx n).last_submitted_pdcp_rx_sn = lastSubmitted (gtp && ctxt.enb_flag) j :=
      hlast ham
    rw [hkeep, lastSubmitted, lastSubmitted, if_pos hup, if_pos hup]

/-! ## The invariant -/

/-- The PDU has the number `i` and the COUNT that goes with it. -/
def Carries (srb : Bool) (size i : Nat) (sent : List Byte × Nat) : Prop :=
  (∃ mode rest, sent.1 = (txHeader srb mode (i % 2 ^ size)).1 ++ rest ∧
    tailerLen srb ≤ rest.length) ∧
    sent.2 = countOf (if srb then 5 else 12) ((i + 1) / 2 ^ size % 2 ^ 32) (i % 2 ^ size)

/-- The PDUs have the numbers from `i` on. -/
def Numbered (srb : Bool) (size : Nat) : Nat → List (List Byte × Nat) → Prop
  | _, [] => True
  | i, sent :: rest => Carries srb size i sent ∧ Numbered srb size (i + 1) rest

variable {sent : List Byte × Nat}

theorem numbered_append {size i : Nat} {air : List (List Byte × Nat)} (h : Numbered srb size i air)
    (hsent : Carries srb size (i + air.length) sent) : Numbered srb size i (air ++ [sent]) := by
  induction air generalizing i with
  | nil => exact ⟨hsent, trivial⟩
  | cons first rest ih =>
    refine ⟨h.1, ih h.2 ?_⟩
    rwa [show i + 1 + rest.length = i + (rest.length + 1) by omega]

/-- Both ends are at their numbers: the PDUs on their way have those from `i` on, and the receiver
expects `j`. -/
structure Synced (up srb : Bool) (c : Channel) (i j : Nat) : Prop where
  covered : Covered srb c.rx.seq_num_size c.rx.rlc_mode
  same : c.tx.seq_num_size = c.rx.seq_num_size
  sends : SendsAt c.tx (i + c.air.length)
  numbered : Numbered srb c.rx.seq_num_size i c.air
  receives : ReceivesAt c.rx j
  apart : i = j + c.gap
  gap : c.gap < 2 ^ c.rx.seq_num_size / 2
  last : c.rx.rlc_mode = .am ∧ srb = false → c.rx.last_submitted_pdcp_rx_sn = lastSubmitted up j
  agree : ∀ counts ∈ c.seen, counts.1 = counts.2

variable {gtp : Bool} {ctxt : Ctxt} {c : Channel} {i : Nat}

theorem Synced.send (h : Synced up srb c i j) (osa : Osa) (rb_id : Nat) (mode : Mode)
    (sdu : List Byte) : Synced up srb
      { c with
        tx := (c.tx.dataReq osa srb rb_id mode sdu).1
        air := c.air ++ c.sent osa srb rb_id mode sdu } i j := by
  obtain ⟨pdu, hreq⟩ := h.sends.dataReq osa srb rb_id mode sdu
  obtain ⟨-, tail, htail, hpdu⟩ := Entity.dataReq_some hreq
  have hsent : c.sent osa srb rb_id mode sdu = [(pdu, c.tx.txCount srb mode)] := by
    simp [Channel.sent, hreq]
  have hcarries : Carries srb c.rx.seq_num_size (i + c.air.length) (pdu,
      c.tx.txCount srb mode) := by
    rw [h.sends.next] at hpdu
    refine ⟨⟨mode, _, h.same ▸ hpdu, ?_⟩, ?_⟩
    · split
      · rw [length_streamEncrypt, length_append]
        omega
      · rw [length_append]
        omega
    · rw [← h.same]
      exact h.sends.txCount srb mode
  rw [hsent, hreq]
  refine { h with same := h.same, sends := ?_, numbered := numbered_append h.numbered hcarries }
  rw [length_append]
  exact sendsAt_setTx h.sends.sized _

theorem Synced.lose (h : Synced up srb c i j) {rest : List (List Byte × Nat)}
    (hair : c.air = sent :: rest) (hgap : c.gap + 1 < 2 ^ c.rx.seq_num_size / 2) :
    Synced up srb { c with air := rest, gap := c.gap + 1 } (i + 1) j where
  covered := h.covered
  same := h.same
  sends := by
    have := h.sends
    rw [hair] at this
    rwa [show i + 1 + rest.length = i + (rest.length + 1) by omega]
  numbered := (hair ▸ h.numbered).2
  receives := h.receives
  apart := by
    have := h.apart
    dsimp only
    omega
  gap := hgap
  last := h.last
  agree := h.agree

theorem Carries.rxHeader_eq (h : Carries srb p.seq_num_size i sent)
    (covered : Covered srb p.seq_num_size p.rlc_mode) :
    (rxHeader p srb sent.1).2 = i % 2 ^ p.seq_num_size ∧
    (rxHeader p srb sent.1).1 + tailerLen srb ≤ sent.1.length := by
  obtain ⟨⟨mode, rest, hpdu, hrest⟩, -⟩ := h
  have hlt := Nat.mod_lt i (Nat.two_pow_pos p.seq_num_size)
  have hheader : rxHeader p srb sent.1 = ((txHeader srb mode (i % 2 ^ p.seq_num_size)).1.length,
      i % 2 ^ p.seq_num_size) := by
    rw [hpdu]
    apply rxHeader_txHeader
    rcases covered with ⟨hsrb, hsize⟩ | ⟨hsrb, hsize, -⟩
    · exact .inl ⟨hsrb, hsize ▸ hlt⟩
    · exact .inr ⟨hsrb, hsize, hsize ▸ hlt⟩
  rw [hheader]
  refine ⟨rfl, ?_⟩
  rw [hpdu, length_append]
  omega

/-- A PDU that arrives in step brings the receiver to the number after it, with one COUNT at both
ends. -/
theorem Synced.receive (h : Synced (gtp && ctxt.enb_flag) srb c i j) (osa : Osa) (rb_id : Nat)
    {rest : List (List Byte × Nat)} (hair : c.air = sent :: rest)
    (inStep : InStep gtp ctxt srb c .receive) : Synced (gtp && ctxt.enb_flag) srb
      { c with
        air := rest
        gap := 0
        rx := (c.rx.dataInd osa gtp ctxt srb rb_id sent.1).1
        seen := (sent.2, c.rx.rxCount srb sent.1) :: c.seen } (i + 1) (i + 1) := by
  have hnumbered := hair ▸ h.numbered
  obtain ⟨hsn, hlen⟩ := hnumbered.1.rxHeader_eq h.covered
  have hapart := h.apart
  have hgap := h.gap
  have hin : c.rx.rlc_mode = .am ∧ srb = false →
      c.rx.next_pdcp_rx_sn ≤ i % 2 ^ 12 ∧ ((gtp && ctxt.enb_flag) → i % 2 ^ 12 < 2048) := by
    intro ham
    have hsize := h.covered.size_of_drb ham.2
    have := inStep ham sent (by rw [hair]; rfl)
    rw [hsn, hsize] at this
    simpa using this
  have hjk : j ≤ i := by omega
  have hlt : i < j + 2 ^ c.rx.seq_num_size / 2 := by omega
  obtain ⟨hafter, hsize, hmode, hlast⟩ :=
    dataInd_receives osa rb_id h.covered h.receives h.last hjk hlt hsn hlen hin
  have hcount : sent.2 = c.rx.rxCount srb sent.1 := by
    have hrec := receives_next h.covered h.receives h.last hjk hlt hin
    obtain ⟨n, hn⟩ := pdcpIsRxSeqNumberValid_frame (i % 2 ^ c.rx.seq_num_size) c.rx srb
    rw [hn] at hrec
    rw [Entity.rxCount, hsn, hnumbered.1.2, hn]
    exact (hrec.count srb).symm
  have hsends := h.sends
  rw [hair, length_cons, show i + (rest.length + 1) = i + 1 + rest.length by omega] at hsends
  refine ⟨?_, h.same.trans hsize.symm, hsends, ?_, hafter, rfl, ?_, hlast, ?_⟩
  · rw [hsize, hmode]
    exact h.covered
  · rw [hsize]
    exact hnumbered.2
  · dsimp only
    rw [hsize]
    omega
  · exact forall_mem_cons.2 ⟨hcount, h.agree⟩

/-- The receiver expects the count that the sender uses next, or one that was lost. -/
theorem step_synced (osa : Osa) (rb_id : Nat) {e : Event} {t : Channel}
    (h : ∃ i j, Synced (gtp && ctxt.enb_flag) srb c i j) (inStep : InStep gtp ctxt srb c e)
    (hstep : step osa gtp ctxt srb rb_id c e = some t) :
    ∃ i j, Synced (gtp && ctxt.enb_flag) srb t i j := by
  obtain ⟨i, j, hsync⟩ := h
  cases e with
  | send mode sdu =>
    cases hstep
    exact ⟨i, j, hsync.send osa rb_id mode sdu⟩
  | lose =>
    simp only [step] at hstep
    split at hstep
    · cases hstep
    case _ sent rest hair =>
      split at hstep
      · cases hstep
        exact ⟨i + 1, j, hsync.lose hair ‹_›⟩
      · cases hstep
  | receive =>
    simp only [step] at hstep
    split at hstep
    · cases hstep
    case _ pdu count rest hair =>
      cases hstep
      exact ⟨i + 1, i + 1, hsync.receive osa rb_id hair inStep⟩

/-! ## The result -/

/-- A setting that the result is about. -/
def Setting.Covered (setting : Setting) : Prop :=
  Agreement.Covered setting.config.srb_flag setting.size setting.config.rlc_mode

theorem synced_start (up : Bool) (sender receiver : Ctxt) (setting : Setting) (sec sec' : Security)
    (covered : Setting.Covered setting) :
    Synced up setting.config.srb_flag (start sender receiver setting sec sec') 0 0 := by
  have hsize := configAdd_size receiver setting sec'
  have hpos : 0 < 2 ^ setting.size / 2 := by
    rcases setting.size_cases with h | h | h <;> rw [h] <;> decide
  refine ⟨?_, ?_, configAdd_sendsAt sender setting sec, trivial,
    configAdd_receivesAt receiver setting sec', rfl, ?_, fun _ => ?_, fun _ hx => by cases hx⟩
  · obtain ⟨_, _, _, _, _, _, heq⟩ := configAdd_eq receiver setting sec'
    rw [start, heq]
    exact covered
  · exact (configAdd_size sender setting sec).trans hsize.symm
  · rw [start, hsize]
    exact hpos
  · obtain ⟨_, _, _, _, _, _, heq⟩ := configAdd_eq receiver setting sec'
    rw [start, heq]
    cases up <;> rfl

/-- On an SRB or on a DRB with 12 bits, both ends use one COUNT for each PDU received, however many
there are, if a DRB over RLC AM stays in step. -/
theorem both_ends_use_the_same_count (osa : Osa) (gtp : Bool) (sender receiver : Ctxt)
    (setting : Setting) (sec sec' : Security) (covered : Setting.Covered setting) {es : List Event}
    {t : Channel}
    (inStep : Meets (step osa gtp receiver setting.config.srb_flag setting.config.rb_id)
      (InStep gtp receiver setting.config.srb_flag) (start sender receiver setting sec sec') es)
    (h : run (step osa gtp receiver setting.config.srb_flag setting.config.rb_id)
      (start sender receiver setting sec sec') es = some t) :
    ∀ counts ∈ t.seen, counts.1 = counts.2 := by
  obtain ⟨i, j, hsync⟩ := run_invariant
    (fun _ _ _ hc hin hst => step_synced osa setting.config.rb_id hc hin hst)
    ⟨0, 0, synced_start _ sender receiver setting sec sec' covered⟩ inStep h
  exact hsync.agree

/-! ## Examples -/

/-- PDUs that are sent and lost, one after the other. -/
def losses (n : Nat) : List Event := (replicate n [.send .data [1], .lose]).flatten

theorem run_losses (osa : Osa) (gtp : Bool) (ctxt : Ctxt) (srb : Bool) (rb_id n : Nat)
    (h : SendsAt c.tx k) (hair : c.air = []) (hgap : c.gap + n < 2 ^ c.rx.seq_num_size / 2) :
    run (step osa gtp ctxt srb rb_id) c (losses n) =
      some { c with tx := c.tx.setTx (k + n), gap := c.gap + n } := by
  induction n generalizing c k with
  | zero => rw [add_zero, h.setTx_self]; rfl
  | succ n ih =>
    obtain ⟨pdu, hreq⟩ := h.dataReq osa srb rb_id .data [1]
    have hsend : step osa gtp ctxt srb rb_id c (.send .data [1]) =
        some { c with tx := c.tx.setTx (k + 1), air := [(pdu, c.tx.txCount srb .data)] } := by
      simp only [step, Channel.sent, hreq, hair]
      rfl
    have hlose : step osa gtp ctxt srb rb_id
        { c with tx := c.tx.setTx (k + 1), air := [(pdu, c.tx.txCount srb .data)] } .lose =
        some { c with tx := c.tx.setTx (k + 1), air := [], gap := c.gap + 1 } := by
      simp only [step]
      rw [if_pos (by omega)]
    have hrest := ih (c := { c with tx := c.tx.setTx (k + 1), air := [], gap := c.gap + 1 })
      (sendsAt_setTx h.sized (k + 1)) rfl (by dsimp only; omega)
    rw [show losses (n + 1) = .send .data [1] :: .lose :: losses n from rfl, run, hsend,
      Option.bind_some, run, hlose, Option.bind_some, hrest]
    have hk : k + 1 + n = k + (n + 1) := by omega
    have hg : c.gap + 1 + n = c.gap + (n + 1) := by omega
    simp only [hk, hg, ← hair]
    rfl

/-- A PDU is lost between the UE and GTP-U, and the next one has COUNT 1 at both ends. -/
theorem the_same_count_after_a_loss : ∃ t,
    run (step Osa.plain true anEnb false 1) (start itsUe anEnb amDrb eea2 eea2)
        [.send .data [1], .send .data [2], .lose, .receive] = some t ∧
      t.seen.length = 1 ∧ ∀ counts ∈ t.seen, counts.1 = counts.2 := by
  obtain ⟨t, hrun, hlen⟩ : ∃ t,
      run (step Osa.plain true anEnb false 1) (start itsUe anEnb amDrb eea2 eea2)
      [.send .data [1], .send .data [2], .lose, .receive] = some t ∧
      t.seen.length = 1 := run_decided (by decide +kernel)
  exact ⟨t, hrun, hlen, both_ends_use_the_same_count Osa.plain true itsUe anEnb amDrb eea2 eea2
    (.inr ⟨rfl, rfl, .inr rfl⟩) (by decide +kernel) hrun⟩

/-- The PDUs up to 2046 are lost, and the next three arrive. For GTP-U no SN counts as submitted, so
2048 and 2049 look old, and the second of them gets the HFN before. -/
theorem gtpu_has_another_count : ∃ t,
    run (step Osa.plain true anEnb false 1) (start itsUe anEnb amDrb eea2 eea2)
        (losses 2047 ++ [.send .data [1], .receive, .send .data [2], .receive, .send .data [3],
          .receive]) = some t ∧
      (2049, 4294965249) ∈ t.seen := by
  have hlost :=
    run_losses Osa.plain true anEnb false 1 2047 (c := start itsUe anEnb amDrb eea2 eea2)
    (configAdd_sendsAt itsUe amDrb eea2) rfl (by decide)
  obtain ⟨t, hrun, hseen⟩ := run_decided (P := fun t => (2049, 4294965249) ∈ t.seen)
    (show (run (step Osa.plain true anEnb false 1)
      { start itsUe anEnb amDrb eea2 eea2 with
        tx := (start itsUe anEnb amDrb eea2 eea2).tx.setTx (0 + 2047)
        gap := (start itsUe anEnb amDrb eea2 eea2).gap + 2047 }
      [.send .data [1], .receive, .send .data [2], .receive, .send .data [3], .receive]).any _ by
      decide +kernel)
  exact ⟨t, run_append.2 ⟨_, hlost, hrun⟩, hseen⟩

end MacRlcSplit.Pdcp.Agreement
