-- The size of a status reply: what the PDUs take from the transport block that
-- the DU asked for, and the buffers that the reply has to fit.
import MacRlcSplit.Split.Unpack

namespace MacRlcSplit.Split

open Lib Function

/-! ## What is spent -/

section Spent

variable {ε : Type} {rlc : RlcEntity ε} {req : SpmrSreqDreq} {coll : RlcColl ε}

/-- What the first `n` channels take from the budget, with the sub-headers that are charged. -/
def spent (req : SpmrSreqDreq) (pdus : Nat → List Byte) : Nat → Int
  | 0 => 0
  | n + 1 => spent req pdus n + (pdus n).length + dtchHeaderLen req (pdus n).length

/-- The grant of the status indication of channel `i`. -/
def grantAt (req : SpmrSreqDreq) (pdus : Nat → List Byte)
    (i : Nat) : Int := req.tb_size - spent req pdus i

/-- The data channels among the first `n` that have a PDU. -/
def dataChannels (pdus : Nat → List Byte) : Nat → Nat
  | 0 => 0
  | n + 1 => dataChannels pdus n + if 2 < n ∧ pdus n ≠ [] then 1 else 0

variable {pdus : Nat → List Byte} {n : Nat} {st : ReplyLoop ε}

theorem spent_congr {pdus' : Nat → List Byte} (h : ∀ i < n, pdus i = pdus' i) :
    spent req pdus n = spent req pdus' n := by
  induction n with
  | zero => rfl
  | succ n ih => rw [spent, spent, ih fun i hi => h i (by omega), h n (Nat.lt_succ_self n)]

theorem tbs_eq (h : replyChannels rlc req coll n = some st) : st.tbs = grantAt req st.tmpbuf n := by
  induction n generalizing st with
  | zero =>
    cases h
    simp [grantAt, spent]
  | succ n ih =>
    obtain ⟨u, hu, hstep⟩ := Option.bind_eq_some_iff.1 h
    obtain ⟨-, -, pdu, -, -, -, htbs, hbuf, -⟩ := replyChannel_some hstep
    have hold : ∀ i < n, u.tmpbuf i = st.tmpbuf i := fun i hi => by
      rw [hbuf, update_of_ne (by omega)]
    have hnew : st.tmpbuf n = pdu := by rw [hbuf, update_self]
    rw [htbs, ih hu, grantAt, grantAt, spent, spent_congr hold, hnew]
    omega

theorem tmpbuf_stable {i : Nat} (hi : i ≤ n) {u : ReplyLoop ε}
    (hu : replyChannels rlc req coll i = some u)
    (hst : replyChannels rlc req coll n = some st) : ∀ j < i, st.tmpbuf j = u.tmpbuf j := by
  induction n generalizing st with
  | zero =>
    intro j hj
    omega
  | succ n ih =>
    rcases Nat.lt_or_eq_of_le hi with hlt | rfl
    · obtain ⟨v, hv, hstep⟩ := Option.bind_eq_some_iff.1 hst
      obtain ⟨-, -, pdu, -, -, -, -, hbuf, -⟩ := replyChannel_some hstep
      intro j hj
      rw [hbuf, update_of_ne (by omega), ih (by omega) hv j hj]
    · rw [hu] at hst
      cases hst
      exact fun _ _ => rfl

/-- The budget at the turn of channel `i`, told from the end of the loop. -/
theorem grant_eq {i : Nat} (hi : i ≤ n) {u : ReplyLoop ε}
    (hu : replyChannels rlc req coll i = some u)
    (hst : replyChannels rlc req coll n = some st) : u.tbs = grantAt req st.tmpbuf i := by
  rw [tbs_eq hu, grantAt, grantAt, spent_congr (tmpbuf_stable hi hu hst)]

theorem dtchHeaderLen_nonneg (req : SpmrSreqDreq)
    (tmplen : Nat) : 0 ≤ dtchHeaderLen req tmplen := by
  unfold dtchHeaderLen
  split <;> decide

theorem length_le_spent (req : SpmrSreqDreq) (pdus : Nat → List Byte) (n : Nat) :
    ((concat pdus n).length : Int) ≤ spent req pdus n := by
  induction n with
  | zero => exact Int.le_refl 0
  | succ n ih =>
    have := dtchHeaderLen_nonneg req (pdus n).length
    rw [concat, List.length_append, spent]
    omega

/-- Each PDU keeps to the grant of the status indication before it. -/
def KeepsToGrants (req : SpmrSreqDreq) (pdus : Nat → List Byte) : Prop :=
  ∀ i < NB_RB_MAX, pdus i ≠ [] → ((pdus i).length : Int) ≤ grantAt req pdus i

theorem KeepsToGrants.le (h : KeepsToGrants req pdus) (hn : n ≤ NB_RB_MAX) :
    ((concat pdus n).length : Int) ≤ max req.tb_size 0 := by
  induction n with
  | zero => exact Int.le_max_right ..
  | succ n ih =>
    rw [concat, List.length_append]
    by_cases hempty : pdus n = []
    · have := ih (by omega)
      simpa [hempty] using this
    · have hgrant := h n hn hempty
      have hspent := length_le_spent req pdus n
      unfold grantAt at hgrant
      omega

/-- Without a grant there is no PDU. -/
theorem KeepsToGrants.empty (h : KeepsToGrants req pdus) (htb : req.tb_size ≤ 0) :
    ∀ i < NB_RB_MAX, pdus i = [] := by
  intro i hi
  by_contra hne
  have hgrant := h i hi hne
  have hspent := length_le_spent req pdus i
  have hpos := List.length_pos_of_ne_nil hne
  unfold grantAt at hgrant
  omega

/-- A request on channel 0 asks for no PDU. -/
theorem empty_of_channel_zero (hch : req.channel = 0) (h : replyChannels rlc req coll n = some st) :
    ∀ i < n, st.tmpbuf i = [] := by
  induction n generalizing st with
  | zero => exact fun i hi => absurd hi (Nat.not_lt_zero i)
  | succ n ih =>
    obtain ⟨u, hu, hstep⟩ := Option.bind_eq_some_iff.1 h
    obtain ⟨coll', ret, pdu, taken, hask, -, -, hbuf, -⟩ := replyChannel_some hstep
    have hpdu : pdu = [] := by
      simp only [askChannel, hch, ne_eq, not_true_eq_false, false_and, and_false, if_false,
        Option.some.injEq, Prod.mk.injEq] at hask
      exact hask.2.2.1.symm
    intro i hi
    rw [hbuf, hpdu]
    rcases Nat.lt_succ_iff_lt_or_eq.1 hi with hlt | rfl
    · rw [update_of_ne (by omega), ih hu i hlt]
    · rw [update_self]

end Spent

/-! ## Buffers -/

/-- The largest data area that fits the receive buffer of the DU behind the head and the reply. -/
def maxReplyData : Nat := DU_BUF_SIZE - sizeofSpHead - sizeofSrepDrep

/-- The reply fits every buffer on its way. -/
structure ReplyFits (pdus : Nat → List Byte) : Prop where
  tmpbuf : ∀ i < NB_RB_MAX, (pdus i).length ≤ MAX_DLSCH_PAYLOAD_BYTES
  cu_outbuf : sizeofSpHead + sizeofSrepDrep + (concat pdus NB_RB_MAX).length ≤
    MAX_DLSCH_PAYLOAD_BYTES
  receive : sizeofSpHead + sizeofSrepDrep + (concat pdus NB_RB_MAX).length ≤ DU_BUF_SIZE
  slots : ∀ i < NB_RB_MAX, (pdus i).length ≤ (channelEntry i).1.room i

theorem replyFits_of_le {pdus : Nat → List Byte} (h : (concat pdus NB_RB_MAX).length ≤ maxReplyData)
    (hlast : ∀ i < NB_RB_MAX, maxDRB ≤ i → pdus i = []) : ReplyFits pdus := by
  have hroom : maxReplyData = 7788 := rfl
  have hone : ∀ i < NB_RB_MAX, (pdus i).length ≤ 7788 := fun i hi => by
    have := le_length_concat pdus hi
    omega
  refine ⟨fun i hi => ?_, ?_, ?_, fun i hi => ?_⟩
  · have := hone i hi
    unfold MAX_DLSCH_PAYLOAD_BYTES
    omega
  · unfold MAX_DLSCH_PAYLOAD_BYTES sizeofSpHead sizeofSrepDrep
    omega
  · unfold DU_BUF_SIZE sizeofSpHead sizeofSrepDrep
    omega
  · have hlen := hone i hi
    by_cases hin : i < maxDRB
    · unfold channelEntry Table.of
      by_cases hsrb : i < 3
      · rw [if_pos hsrb]
        have hsize : Table.room .srb i = 8192 := if_pos hsrb
        simp only [hsize]
        omega
      · rw [if_neg hsrb]
        have hsize : Table.room .drb i = 12288 := if_pos hin
        simp only [hsize]
        omega
    · rw [hlast i hi (Nat.not_lt.1 hin)]
      exact Nat.zero_le _

/-- The PDUs and three bytes for the sub-header of each data channel that has one. -/
def HeadersFit (req : SpmrSreqDreq) (pdus : Nat → List Byte) : Prop :=
  ((concat pdus NB_RB_MAX).length : Int) + 3 * (dataChannels pdus NB_RB_MAX : Int) ≤
    max req.tb_size 0

theorem concat_empty {pdus : Nat → List Byte} {n : Nat} (h : ∀ i < n, pdus i = []) :
    concat pdus n = [] := by
  induction n with
  | zero => rfl
  | succ n ih => rw [concat, ih fun i hi => h i (by omega), h n (Nat.lt_succ_self n),
      List.append_nil]

theorem dataChannels_empty {pdus : Nat → List Byte} {n : Nat} (h : ∀ i < n, pdus i = []) :
    dataChannels pdus n = 0 := by
  induction n with
  | zero => rfl
  | succ n ih => simp [dataChannels, ih fun i hi => h i (by omega), h n (Nat.lt_succ_self n)]

/-- Whatever the RLC bearers of the CU are, as long as they keep to the grants. -/
def EveryReply (req : SpmrSreqDreq) (P : (Nat → List Byte) → Prop) : Prop :=
  ∀ (ε : Type) (rlc : RlcEntity ε) (coll : RlcColl ε) (st : ReplyLoop ε),
    macRlcStatusDataReqReply rlc req coll = some st → KeepsToGrants req st.tmpbuf → P st.tmpbuf

theorem everyReply_empty {req : SpmrSreqDreq} (h : req.channel = 0 ∨ req.tb_size ≤ 0) :
    EveryReply req fun pdus => ∀ i < NB_RB_MAX, pdus i = [] := by
  intro ε rlc coll st hst hgrants
  rcases h with hch | htb
  · exact empty_of_channel_zero hch hst
  · exact hgrants.empty htb

/-! ## A bearer that fills its grant -/

section Full

/-- A bearer that always has one PDU. -/
def fullRlc (pdu : List Byte) : RlcEntity Unit where
  mac_status_indication := fun _ _ _ => ((), { buffer_occupancy_in_bytes := 1 })
  mac_data_request := fun _ _ => ((), [pdu])

def bearerOn (rnti : Rnti) (c : Nat) : RlcColl Unit :=
  fun key => if key = rlcCollKey rnti c then some { mode := .am, rlc := () } else none

variable {req : SpmrSreqDreq} {c n : Nat} {pdu : List Byte}

theorem bearerOn_none {rnti : Rnti} (h : n ≠ c) : bearerOn rnti c (rlcCollKey rnti n) = none := by
  apply if_neg
  intro hkey
  simp only [rlcCollKey, RlcKey.mk.injEq, decide_eq_decide, true_and] at hkey
  split_ifs at hkey <;> omega

/-- The PDUs of the first `n` channels when only channel `c` has one. -/
def onlyPdu (c : Nat) (pdu : List Byte) (n : Nat) : Nat → List Byte :=
  if c < n then update (fun _ => []) c pdu else fun _ => []

theorem bearerOn_loop (c : Nat) (pdu : List Byte) (hch : req.channel ≠ 0) (htb : 0 < req.tb_size)
    (hn : n ≤ NB_RB_MAX) : ∃ st, replyChannels (fullRlc pdu) req (bearerOn req.rnti c) n = some st ∧
      st.coll = bearerOn req.rnti c ∧ (n ≤ c → st.tbs = req.tb_size) ∧
      st.tmpbuf = onlyPdu c pdu n := by
  induction n with
  | zero => exact ⟨_, rfl, rfl, fun _ => rfl, rfl⟩
  | succ n ih =>
    obtain ⟨st, hst, hcoll, htbs, hbuf⟩ := ih (by omega)
    rw [replyChannels, hst, Option.bind_some]
    by_cases hnc : n = c
    · subst hnc
      have hown : bearerOn req.rnti n (rlcCollKey req.rnti n) = some { mode := .am, rlc := () } :=
        if_pos rfl
      have hsame : update (bearerOn req.rnti n) (rlcCollKey req.rnti n)
          (some { mode := .am, rlc := () }) = bearerOn req.rnti n := by rw [← hown, update_eq_self]
      have hask : askChannel (fullRlc pdu) req st n =
          some (bearerOn req.rnti n, { bytes_in_buffer := 1 }, pdu,
          [(rlcCollKey req.rnti n, pdu)]) := by
        have hrb : n < NB_RB_MAX := hn
        simp [askChannel, macRlcStatusInd, macRlcDataReq, macRlcSerializeTb, fullRlc, hcoll, hown,
          hsame, htbs le_rfl, htb, hch, hrb]
      refine ⟨_, by rw [replyChannel, hask], rfl, fun h => absurd h (by omega), ?_⟩
      simp [hbuf, onlyPdu]
    · have hask : askChannel (fullRlc pdu) req st n = some (bearerOn req.rnti c, {}, [], []) := by
        simp [askChannel, macRlcStatusInd, hcoll, bearerOn_none hnc]
      refine ⟨_, by rw [replyChannel, hask], rfl, fun h => ?_, ?_⟩
      · simp [htbs (by omega), dtchHeaderLen]
        omega
      · have hiff : c < n + 1 ↔ c < n := by omega
        rw [hbuf]
        simp only [onlyPdu, hiff]
        funext i
        by_cases hi : i = n
        · subst hi
          split_ifs <;> simp [hnc]
        · rw [update_of_ne hi]

/-- For every PDU that keeps to the block there is a bearer that gives it. -/
theorem EveryReply.onlyPdu {P : (Nat → List Byte) → Prop} (h : EveryReply req P) (c : Nat)
    (pdu : List Byte) (hch : req.channel ≠ 0) (hpdu : pdu ≠ [])
    (hlen : (pdu.length : Int) ≤ req.tb_size)
    (hc : c < NB_RB_MAX) : P (update (fun _ => []) c pdu) := by
  have hpos := List.length_pos_of_ne_nil hpdu
  obtain ⟨st, hst, -, -, hbuf⟩ := bearerOn_loop c pdu hch (by omega) le_rfl
  rw [Split.onlyPdu, if_pos hc] at hbuf
  rw [← hbuf]
  refine h Unit _ _ st hst fun i hi hne => ?_
  have hown : i = c := by
    by_contra hic
    rw [hbuf, update_of_ne hic] at hne
    exact hne rfl
  subst hown
  have hspent : spent req st.tmpbuf i = 0 := by
    have hbefore : ∀ n ≤ i, spent req st.tmpbuf n = 0 := by
      intro n hn
      induction n with
      | zero => rfl
      | succ n ih =>
        have hempty : st.tmpbuf n = [] := by rw [hbuf, update_of_ne (by omega)]
        simp [spent, ih (by omega), hempty, dtchHeaderLen]
    exact hbefore i le_rfl
  rw [grantAt, hspent, hbuf, update_self, Int.sub_zero]
  exact hlen

end Full

/-! ## The blocks that a reply fits -/

def largestRequest : SpmrSreqDreq := { rnti := 1, frame := 0, channel := 1, tb_size := 9422 }

theorem lastBearer_reply (pdu : List Byte) :
    ∃ st, macRlcStatusDataReqReply (fullRlc pdu) largestRequest (bearerOn 1 13) = some st ∧
      st.cu_databuf_temp.length = pdu.length ∧ (st.tmpbuf 13).length = pdu.length := by
  have hdata : ([] ++ [pdu].flatten).length = pdu.length := by simp
  exact ⟨_, rfl, hdata, hdata⟩

end MacRlcSplit.Split
