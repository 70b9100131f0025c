-- The answer to a setup request of the MME. A loop over the E-RABs of the UE
-- writes those of one transaction into a message, and sends the message from
-- inside the loop.
import MacRlcSplit.Rrc.Erabs

namespace MacRlcSplit.Rrc

open Lib Function List Option
open Pdcp (NB_RB_MAX)

/-! ## The message -/

/-- `e_rab_setup_t`. -/
structure ERabSetup where
  e_rab_id : Nat
  gtp_teid : Nat
  eNB_addr : List Nat
deriving DecidableEq, Repr

/-- `s1ap_e_rab_setup_resp_t`. The numbers of E-RABs in it are the lengths of the lists. -/
structure ERabSetupResp where
  eNB_ue_s1ap_id : Nat
  e_rabs : List ERabSetup := []
  e_rabs_failed : List Nat := []
deriving DecidableEq, Repr

/-- The variables of the loop, and the message as it was each time that it was sent. -/
structure ResponseLoop where
  ue : Erabs
  msg : ERabSetupResp
  sent : List ERabSetupResp := []

namespace Erabs

def setupOf (ue : Erabs) (e_rab : Nat) : ERabSetup where
  e_rab_id := (ue.e_rab e_rab).param.e_rab_id
  gtp_teid := (ue.enb_gtp e_rab).teid
  eNB_addr := (ue.enb_gtp e_rab).addrs

end Erabs

namespace ResponseLoop

/-- An E-RAB of the transaction is written into the message. -/
def collect (x : ResponseLoop) (e_rab : Nat) : Option ResponseLoop :=
  match (x.ue.e_rab e_rab).status with
  | .done =>
    if e_rab < S1AP_MAX_E_RAB ∧ x.msg.e_rabs.length < S1AP_MAX_E_RAB then
      some { x with
        msg.e_rabs := x.msg.e_rabs ++ [x.ue.setupOf e_rab]
        ue.e_rab := update x.ue.e_rab e_rab { x.ue.e_rab e_rab with status := .established } }
    else none
  | .new | .established => some x
  | .failed =>
    if x.msg.e_rabs_failed.length < S1AP_MAX_E_RAB then
      some { x with msg.e_rabs_failed := x.msg.e_rabs_failed ++
        [(x.ue.e_rab e_rab).param.e_rab_id] }
    else none

/-- There is no condition on the failed ones. -/
def send (x : ResponseLoop) : ResponseLoop :=
  if 0 < x.msg.e_rabs.length then { x with sent := x.sent ++ [x.msg] } else x

def turn (xid : Nat) (x : ResponseLoop) (e_rab : Nat) : Option ResponseLoop :=
  if e_rab < NB_RB_MAX then
    if xid = (x.ue.e_rab e_rab).xid then (x.collect e_rab).map send else some x
  else none

end ResponseLoop

namespace Erabs

variable (ue : Erabs) (ue_id xid : Nat)

/-- `rrc_eNB_send_S1AP_E_RAB_SETUP_RESP`: the messages that are sent, and the E-RABs afterwards. -/
def sendSetupResp : Option (List ERabSetupResp × Erabs) :=
  (run (ResponseLoop.turn xid) { ue := ue, msg := { eNB_ue_s1ap_id := ue_id } }
    (List.range ue.setup_e_rabs)).map fun x => (x.sent, x.ue)

/-! ## What the answer should be -/

/-- The E-RAB is one of the transaction. -/
def Of (status : ERabStatus) (i : Nat) : Prop :=
  (ue.e_rab i).xid = xid ∧ (ue.e_rab i).status = status

instance (status : ERabStatus) (i : Nat) : Decidable (ue.Of xid status i) :=
  inferInstanceAs (Decidable (_ ∧ _))

/-- The E-RABs of the transaction that are newly done, among the first `n`. -/
def dones (n : Nat) : List ERabSetup :=
  ((List.range n).filter fun i => ue.Of xid .done i).map ue.setupOf

def faileds (n : Nat) : List Nat :=
  ((List.range n).filter fun i => ue.Of xid .failed i).map fun i => (ue.e_rab i).param.e_rab_id

/-- The message with what the first `n` E-RABs give. -/
def setupResp (n : Nat) : ERabSetupResp := ⟨ue_id, ue.dones xid n, ue.faileds xid n⟩

/-- If there is something to tell, one message with all of it is sent. -/
def Answered : Prop :=
  ∃ sent ue', ue.sendSetupResp ue_id xid = some (sent, ue') ∧
    ((∃ i < ue.setup_e_rabs, ue.Of xid .done i ∨ ue.Of xid .failed i) →
      sent = [ue.setupResp ue_id xid ue.setup_e_rabs])

/-- Either there is nothing to tell, or one E-RAB of the transaction is newly done, and it is the
last of them. -/
structure DoneLast : Prop where
  inside : ue.setup_e_rabs ≤ NB_RB_MAX
  last : (∀ i < ue.setup_e_rabs, ¬ ue.Of xid .done i ∧ ¬ ue.Of xid .failed i) ∨
    ∃ k < ue.setup_e_rabs, k < S1AP_MAX_E_RAB ∧ ue.Of xid .done k ∧
      ∀ i < ue.setup_e_rabs, (ue.e_rab i).xid = xid → i ≠ k → i < k ∧ (ue.e_rab i).status ≠ .done

/-! ## What the loop does -/

variable {ue : Erabs} {ue_id xid n : Nat} {y : ResponseLoop}

theorem map_filter_range_succ {β : Type} (p : Nat → Prop) [DecidablePred p] (f : Nat → β)
    (n : Nat) : ((List.range (n + 1)).filter fun i => p i).map f =
      ((List.range n).filter fun i => p i).map f ++ if p n then [f n] else [] := by
  rw [range_succ, filter_append, map_append]
  by_cases h : p n <;> simp [h]

theorem dones_succ : ue.dones xid (n + 1) = ue.dones xid n ++
    if ue.Of xid .done n then [ue.setupOf n] else [] := by
  apply map_filter_range_succ

theorem faileds_succ : ue.faileds xid (n + 1) =
    ue.faileds xid n ++ if ue.Of xid .failed n then [(ue.e_rab n).param.e_rab_id] else [] := by
  apply map_filter_range_succ

/-- The message is sent for this E-RAB. -/
def Fires (ue : Erabs) (xid k : Nat) : Prop := (ue.e_rab k).xid = xid ∧ ue.dones xid (k + 1) ≠ []

instance (k : Nat) : Decidable (ue.Fires xid k) := inferInstanceAs (Decidable (_ ∧ _))

/-- The messages that are sent for the first `n` E-RABs. -/
def sends (ue : Erabs) (ue_id xid n : Nat) : List ERabSetupResp :=
  ((List.range n).filter fun k => ue.Fires xid k).map fun k => ue.setupResp ue_id xid (k + 1)

theorem sends_succ : ue.sends ue_id xid (n + 1) = ue.sends ue_id xid n ++
    if ue.Fires xid n then [ue.setupResp ue_id xid (n + 1)] else [] := by
  apply map_filter_range_succ

/-- What the first `n` turns have made of an E-RAB. -/
def settled (ue : Erabs) (xid n i : Nat) : ERab :=
  if i < n ∧ ue.Of xid .done i then { ue.e_rab i with status := .established } else ue.e_rab i

theorem settled_self : ue.settled xid n n = ue.e_rab n := if_neg (by simp)

theorem settled_succ : ue.settled xid (n + 1) = if ue.Of xid .done n then
    update (ue.settled xid n) n { ue.e_rab n with status := .established } else ue.settled xid
      n := by
  funext i
  by_cases hi : i = n
  · subst hi
    by_cases hdone : ue.Of xid .done i <;> simp [settled, hdone]
  · have hlt : i < n + 1 ↔ i < n := by omega
    by_cases hdone : ue.Of xid .done n <;> simp [settled, hdone, hi, hlt]

/-- The loop after its first `n` turns. -/
def loopAfter (ue : Erabs) (ue_id xid n : Nat) : ResponseLoop :=
  ⟨{ ue with e_rab := ue.settled xid n }, ue.setupResp ue_id xid n, ue.sends ue_id xid n⟩

/-- The E-RAB has its place in the tables, and what is written of it has a place in the message. -/
@[mk_iff]
structure Fits (ue : Erabs) (xid n : Nat) : Prop where
  inside : n < NB_RB_MAX
  done : ue.Of xid .done n → n < S1AP_MAX_E_RAB ∧ (ue.dones xid n).length < S1AP_MAX_E_RAB
  failed : ue.Of xid .failed n → (ue.faileds xid n).length < S1AP_MAX_E_RAB

theorem collect_loopAfter (hinside : n < NB_RB_MAX) (hxid : (ue.e_rab n).xid = xid) :
    (ue.loopAfter ue_id xid n).collect n = some y ↔
      ue.Fits xid n ∧ y = { ue.loopAfter ue_id xid (n + 1) with sent := ue.sends ue_id xid n } := by
  have hn : (ue.loopAfter ue_id xid n).ue.e_rab n = ue.e_rab n := settled_self
  have hsetup : ({ ue with e_rab := ue.settled xid n } : Erabs).setupOf n = ue.setupOf n := by
    simp [setupOf, settled_self]
  unfold ResponseLoop.collect
  rw [hn, eq_comm (a := y)]
  by_cases hroom : (ue.faileds xid n).length < S1AP_MAX_E_RAB <;>
    cases hstatus : (ue.e_rab n).status <;>
    simp [fits_iff, hinside, Of, hxid, hstatus, hroom, loopAfter, settled_succ, setupResp,
      dones_succ, faileds_succ, hsetup, and_assoc]

theorem turn_loopAfter : (ue.loopAfter ue_id xid n).turn xid n = some y ↔
    ue.Fits xid n ∧ y = ue.loopAfter ue_id xid (n + 1) := by
  have hn : (ue.loopAfter ue_id xid n).ue.e_rab n = ue.e_rab n := settled_self
  unfold ResponseLoop.turn
  rw [hn]
  by_cases hinside : n < NB_RB_MAX
  · rw [if_pos hinside]
    by_cases hxid : xid = (ue.e_rab n).xid
    · have hfires : ue.Fires xid n ↔ 0 < (ue.dones xid (n + 1)).length := by
        simp [Fires, ← hxid, length_pos_iff]
      have hsend : ({ ue.loopAfter ue_id xid (n + 1) with sent := ue.sends ue_id xid n } :
          ResponseLoop).send = ue.loopAfter ue_id xid (n + 1) := by
        by_cases hpos : 0 < (ue.dones xid (n + 1)).length <;>
          simp [ResponseLoop.send, loopAfter, setupResp, sends_succ, hfires, hpos]
      rw [if_pos hxid, map_eq_some_iff]
      constructor
      · rintro ⟨z, hz, rfl⟩
        obtain ⟨hfits, rfl⟩ := (collect_loopAfter hinside hxid.symm).1 hz
        exact ⟨hfits, hsend⟩
      · rintro ⟨hfits, rfl⟩
        exact ⟨_, (collect_loopAfter hinside hxid.symm).2 ⟨hfits, rfl⟩, hsend⟩
    · -- an E-RAB of another transaction changes nothing
      have hnot : ∀ status, ¬ ue.Of xid status n := fun _ hof => hxid hof.1.symm
      have hfires : ¬ ue.Fires xid n := fun hfires => hxid hfires.1.symm
      have hsame : ue.loopAfter ue_id xid (n + 1) = ue.loopAfter ue_id xid n := by
        simp [loopAfter, settled_succ, setupResp, dones_succ, faileds_succ, sends_succ, hnot,
          hfires]
      rw [if_neg hxid, hsame]
      constructor
      · rintro ⟨⟩
        exact ⟨⟨hinside, fun h => absurd h (hnot _), fun h => absurd h (hnot _)⟩, rfl⟩
      · rintro ⟨-, rfl⟩
        rfl
  · rw [if_neg hinside]
    exact ⟨nofun, fun h => absurd h.1.inside hinside⟩

theorem run_iff : run (ResponseLoop.turn xid) { ue := ue, msg := { eNB_ue_s1ap_id := ue_id } }
    (List.range n) = some y ↔ (∀ i < n, ue.Fits xid i) ∧ y = ue.loopAfter ue_id xid n := by
  induction n generalizing y with
  | zero =>
    have hsettled : ue.settled xid 0 = ue.e_rab := by
      funext i
      simp [settled]
    simp [run, loopAfter, hsettled, setupResp, dones, faileds, sends, eq_comm (a := y)]
  | succ n ih =>
    rw [range_succ, run_append, Nat.forall_lt_succ_right]
    constructor
    · rintro ⟨x, hx, hlast⟩
      obtain ⟨hfits, rfl⟩ := ih.1 hx
      obtain ⟨z, hz, hnil⟩ := run_cons.1 hlast
      cases hnil
      obtain ⟨hn, rfl⟩ := turn_loopAfter.1 hz
      exact ⟨⟨hfits, hn⟩, rfl⟩
    · rintro ⟨⟨hfits, hn⟩, rfl⟩
      exact ⟨_, ih.2 ⟨hfits, rfl⟩, run_cons.2 ⟨_, turn_loopAfter.2 ⟨hn, rfl⟩, rfl⟩⟩

/-! ## When the answer is complete -/

theorem fires_iff {k : Nat} : ue.Fires xid k ↔ (ue.e_rab k).xid = xid ∧
    ∃ j ≤ k, ue.Of xid .done j := by
  simp only [Fires, dones, ne_eq, map_eq_nil_iff, filter_eq_nil_iff, mem_range, Nat.lt_succ_iff,
    decide_eq_true_eq, not_forall, not_not, exists_prop]

theorem filter_range_singleton {p : Nat → Prop} [DecidablePred p] {k : Nat} (hk : k < n) (hp : p k)
    (hall : ∀ i < n, p i → i = k) : ((List.range n).filter fun i => p i) = [k] := by
  apply perm_singleton.1
  apply (perm_ext_iff_of_nodup (nodup_range.filter _) (nodup_singleton k)).2
  intro i
  simp only [mem_filter, mem_range, decide_eq_true_eq, mem_singleton]
  constructor
  · rintro ⟨hi, hpi⟩
    exact hall i hi hpi
  · rintro rfl
    exact ⟨hk, hp⟩

/-- E-RABs of other transactions add nothing to the message. -/
theorem response_skip {m : Nat} (hm : m ≤ n) (hother : ∀ i < n, m ≤ i → (ue.e_rab i).xid ≠ xid) :
    ue.setupResp ue_id xid m = ue.setupResp ue_id xid n := by
  induction n, hm using Nat.le_induction with
  | base => rfl
  | succ n hn ih =>
    have hnot : ∀ status, ¬ ue.Of xid status n := fun _ hof => hother n (by omega) hn hof.1
    rw [ih fun i hi => hother i (by omega)]
    simp [setupResp, dones_succ, faileds_succ, hnot]

theorem DoneLast.fits (h : ue.DoneLast xid) : ∀ i < ue.setup_e_rabs, ue.Fits xid i := by
  intro i hi
  have hinside := lt_of_lt_of_le hi h.inside
  obtain hnone | ⟨k, hk, hroom, hdone, hlast⟩ := h.last
  · exact ⟨hinside, fun hof => absurd hof (hnone i hi).1, fun hof => absurd hof (hnone i hi).2⟩
  refine ⟨hinside, fun hof => ?_, fun hof => ?_⟩
  · obtain rfl : i = k := by
      by_contra hne
      exact (hlast i hi hof.1 hne).2 hof.2
    have hempty : ue.dones xid i = [] := by
      simp only [dones, map_eq_nil_iff, filter_eq_nil_iff, mem_range, decide_eq_true_eq]
      intro j hj hdone'
      exact (hlast j (by omega) hdone'.1 (by omega)).2 hdone'.2
    exact ⟨hroom, by simp [hempty, S1AP_MAX_E_RAB]⟩
  · have hne : i ≠ k := by
      rintro rfl
      cases hof.2.symm.trans hdone.2
    have hlt := (hlast i hi hof.1 hne).1
    have hle : (ue.faileds xid i).length ≤ i := by
      simpa [faileds] using (List.range i).length_filter_le fun i => ue.Of xid .failed i
    omega

/-- A single message with all newly done and failed E-RABs of the transaction is sent if and only if
there are none, or one is newly done and is the last E-RAB of the transaction in the table. -/
theorem the_response_is_complete_iff (ue : Erabs) (ue_id xid : Nat) :
    ue.Answered ue_id xid ↔ ue.DoneLast xid := by
  constructor
  · rintro ⟨sent, ue', hsome, hsent⟩
    obtain ⟨x, hrun, heq⟩ := map_eq_some_iff.1 hsome
    obtain ⟨rfl, rfl⟩ := Prod.mk.inj heq
    obtain ⟨hfits, rfl⟩ := run_iff.1 hrun
    refine ⟨?_, ?_⟩
    · rcases Nat.eq_zero_or_pos ue.setup_e_rabs with hzero | hpos
      · omega
      · have := (hfits (ue.setup_e_rabs - 1) (by omega)).inside
        omega
    by_cases hany : ∃ i < ue.setup_e_rabs, ue.Of xid .done i ∨ ue.Of xid .failed i
    · right
      have hone := hsent hany
      rw [loopAfter, sends, map_eq_singleton_iff] at hone
      obtain ⟨k, hfilter, -⟩ := hone
      have hmem : ∀ i, i < ue.setup_e_rabs ∧ ue.Fires xid i ↔ i = k := by
        intro i
        have := congrArg (i ∈ ·) hfilter
        simpa using this
      obtain ⟨hk, hfires⟩ := (hmem k).2 rfl
      -- The one that fires is the first that is done, since a done one fires itself.
      obtain ⟨j, hj, hdone⟩ := (fires_iff.1 hfires).2
      obtain rfl : j = k := (hmem j).1 ⟨by omega, fires_iff.2 ⟨hdone.1, j, le_rfl, hdone⟩⟩
      refine ⟨j, hk, ((hfits j hk).done hdone).1,
        hdone, fun i hi hxid hne => ⟨?_, fun hstatus => hne ?_⟩⟩
      · by_contra hnot
        exact hne ((hmem i).1 ⟨hi, fires_iff.2 ⟨hxid, j, by omega, hdone⟩⟩)
      · exact (hmem i).1 ⟨hi, fires_iff.2 ⟨hxid, i, le_rfl, hxid, hstatus⟩⟩
    · left
      intro i hi
      exact ⟨fun h => hany ⟨i, hi, .inl h⟩, fun h => hany ⟨i, hi, .inr h⟩⟩
  · intro h
    refine ⟨_, _, map_eq_some_iff.2 ⟨_, run_iff.2 ⟨h.fits, rfl⟩, rfl⟩, ?_⟩
    rintro ⟨i, hi, hof⟩
    obtain hnone | ⟨k, hk, -, hdone, hlast⟩ := h.last
    · exact absurd hof (by simp [hnone i hi])
    have honly : ∀ j < ue.setup_e_rabs, ue.Fires xid j → j = k := by
      intro j hj hfires
      obtain ⟨hxid, m, hm, hdone'⟩ := fires_iff.1 hfires
      by_contra hne
      have hlt := (hlast j hj hxid hne).1
      exact (hlast m (by omega) hdone'.1 (by omega)).2 hdone'.2
    have hfilter := filter_range_singleton hk (fires_iff.2 ⟨hdone.1, k, le_rfl, hdone⟩) honly
    rw [loopAfter, sends, hfilter, map_singleton, response_skip (Nat.succ_le_of_lt hk)]
    intro j hj hkj hxid
    have := (hlast j hj hxid (by omega)).1
    omega

/-- Two E-RABs of transaction 1, both newly done. -/
def twoDone : Erabs where
  setup_e_rabs := 2
  e_rab i := { status := .done, param := { e_rab_id := 5 + i }, xid := 1 }
  enb_gtp i := { teid := 100 + i }

/-- The message is sent twice, and what is sent first names only one of them. -/
theorem the_response_is_sent_twice : ¬ twoDone.Answered 7 1 ∧
    (twoDone.sendSetupResp 7 1).map Prod.fst =
      some [⟨7, [⟨5, 100, []⟩], []⟩, ⟨7, [⟨5, 100, []⟩, ⟨6, 101, []⟩], []⟩] := by
  have hsent : (twoDone.sendSetupResp 7 1).map Prod.fst =
      some [⟨7, [⟨5, 100, []⟩], []⟩, ⟨7, [⟨5, 100, []⟩, ⟨6, 101, []⟩], []⟩] := by
    decide
  refine ⟨?_, hsent⟩
  rintro ⟨sent, ue', hsome, hone⟩
  rw [hsome, map_some, some.injEq] at hsent
  have hlength := congrArg length (hsent.symm.trans (hone ⟨0, by decide, by decide⟩))
  simp at hlength

end Erabs

end MacRlcSplit.Rrc
