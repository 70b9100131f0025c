-- Whether each SRB0 message the CU hands out is returned to the DU's MAC
-- exactly once. The CU gives a message away when it is read; the DU keeps
-- the last reply and returns it to every poll, and an empty reply replaces
-- a message. So polls and CCCH replies have to take turns.
import MacRlcSplit.Lib.Mailbox
import MacRlcSplit.Split.Rrc

namespace MacRlcSplit.Split.Rrc

open Lib List Option

/-! ## CCCH as a mailbox -/

/-- The SRB0 messages in the delivered replies, oldest first, with the CU's number. -/
def deliveredCcch : List Obs → List (Nat × List Byte)
  | [] => []
  | .delivered d :: log =>
    deliveredCcch log ++ (if d.srb_id &&& RAB_OFFSET = CCCH ∧
      d.sdu ≠ [] then [(d.num, d.sdu)] else [])
  | .polled _ :: log => deliveredCcch log

/-- The SRB0 messages that polls returned, oldest first, with the number of the reply that
was in the slot. -/
def polledCcch : List Obs → List (Nat × List Byte)
  | [] => []
  | .polled p :: log =>
    polledCcch log ++ (if p.srb_id &&& RAB_OFFSET = CCCH ∧
      p.sdu ≠ [] then (p.src.map fun n => (n, p.sdu)).toList
       else [])
  | .delivered _ :: log => polledCcch log

/-- A CCCH reply was delivered since the last CCCH poll. -/
def fresh : List Obs → Bool
  | [] => false
  | .delivered d :: log => if d.srb_id &&& RAB_OFFSET = CCCH then true else fresh log
  | .polled p :: log => if p.srb_id &&& RAB_OFFSET = CCCH then false else fresh log

/-- The message of the last CCCH reply, if it has one. -/
def lastMessage (log : List Obs) : Option (Nat × List Byte) :=
  (lastCcch log).bind fun d => if d.sdu ≠ [] then some (d.num, d.sdu) else none

def Sys.ccch (s : Sys) : Mailbox (Nat × List Byte) where
  sent := deliveredCcch s.log
  got := polledCcch s.log
  waiting := if fresh s.log then lastMessage s.log else none

/-- The slot has nothing to give, or a reply came since the last poll. -/
def CanPoll (s : Sys) : Prop := s.du.SRB0 = [] ∨ fresh s.log = true

instance (s : Sys) : Decidable (CanPoll s) :=
  inferInstanceAs (Decidable (s.du.SRB0 = [] ∨ fresh s.log = true))

/-- No reply is lost or duplicated, and CCCH polls and replies take turns: a poll is made
only when it `CanPoll`, and a CCCH reply is handled only when the slot is empty or was
polled since the last one. -/
def TakesTurns (s : Sys) : Event → Prop
  | .poll dreq => dreq.srb_id &&& RAB_OFFSET = CCCH → CanPoll s
  | .deliver k => ∀ d ∈ s.reps[k]?, d.srb_id &&& RAB_OFFSET = CCCH →
  s.du.SRB0 = [] ∨ fresh s.log = false
  | .loseRep _ => False
  | .dupRep _ => False
  | _ => True

instance (s : Sys) (e : Event) : Decidable (TakesTurns s e) := by
  cases e <;> unfold TakesTurns <;> infer_instance

/-! ## One step is one move of the mailbox -/

/-- The slot is the SDU of the last CCCH reply. -/
def SlotIsLast (s : Sys) : Prop := s.du.SRB0 = ((lastCcch s.log).map Datagram.sdu).getD []

theorem handle_srb0 (du : DuRrc) (d : Datagram) : (macRrcHandleDataRep du d).SRB0 =
      if d.srb_id &&& RAB_OFFSET = CCCH then d.sdu else du.SRB0 := by
  unfold macRrcHandleDataRep
  split_ifs <;> simp_all

theorem slotIsLast_step (s : Sys) (e : Event) (t : Sys) (hs : SlotIsLast s)
    (h : step s e = some t) : SlotIsLast t := by
  cases e with
  | deliver k =>
    obtain ⟨d, -, -, rfl⟩ := step_deliver h
    unfold SlotIsLast at hs ⊢
    rw [handle_srb0, lastCcch]
    split_ifs
    · rfl
    · exact hs
  | reply k =>
    obtain ⟨dreq, c, d, v, -, -, rfl⟩ := step_reply h
    exact hs
  | dupReq k =>
    obtain ⟨dreq, -, rfl⟩ := map_eq_some_iff.1 h
    exact hs
  | dupRep k =>
    obtain ⟨d, -, rfl⟩ := map_eq_some_iff.1 h
    exact hs
  | poll | loseReq | loseRep | rrc =>
    cases h
    exact hs

variable {s t : Sys} {k : Nat}

theorem lastMessage_none (hs : SlotIsLast s) (hempty : s.du.SRB0 = []) :
    lastMessage s.log = none := by
  unfold lastMessage
  rcases hl : lastCcch s.log with _ | d
  · rfl
  · have hd : d.sdu = [] := by simpa [hl, hempty] using hs.symm
    simp [hd]

theorem ccch_poll (hs : SlotIsLast s) {dreq : SpmrRrcDreq}
    (hccch : dreq.srb_id &&& RAB_OFFSET = CCCH) (hcan : CanPoll s)
    (h : step s (.poll dreq) = some t) : t.ccch = s.ccch.take := by
  cases h
  have hne : ¬ dreq.srb_id &&& RAB_OFFSET = BCCH := by
    rw [hccch]
    decide
  have hsdu : duMacRrcDataReq s.du dreq.frame dreq.srb_id = s.du.SRB0 := by
    unfold duMacRrcDataReq
    rw [if_neg (fun hb => hne hb.1), if_neg (fun hb => hne hb.1), if_pos hccch]
  by_cases hempty : s.du.SRB0 = []
  · have hnone := lastMessage_none hs hempty
    simp [Sys.ccch, Mailbox.take, deliveredCcch, polledCcch, fresh, hccch, hsdu, hempty, hnone]
  have hfresh : fresh s.log := hcan.resolve_left hempty
  unfold SlotIsLast at hs
  rcases hl : lastCcch s.log with _ | d
  · simp [hl] at hs
    exact absurd hs hempty
  · have hd : s.du.SRB0 = d.sdu := by simpa [hl] using hs
    have hdne : d.sdu ≠ [] := hd ▸ hempty
    simp [Sys.ccch, Mailbox.take, deliveredCcch, polledCcch, fresh, lastMessage, hccch, hsdu, hl,
      hd, hdne, hfresh]

theorem ccch_deliver (hs : SlotIsLast s) {d : Datagram} (hk : s.reps[k]? = some d)
    (hturn : d.srb_id &&& RAB_OFFSET = CCCH → s.du.SRB0 = [] ∨ fresh s.log = false)
    (h : step s (.deliver k) = some t) :
    t.ccch = s.ccch ∨ (s.ccch.waiting = none ∧ ∃ a, t.ccch = s.ccch.put a) := by
  obtain ⟨d', -, hk', rfl⟩ := step_deliver h
  cases hk.symm.trans hk'
  by_cases hccch : d.srb_id &&& RAB_OFFSET = CCCH
  · have hwait : s.ccch.waiting = none := by
      rcases hturn hccch with hempty | hold
      · simp [Sys.ccch, lastMessage_none hs hempty]
      · simp [Sys.ccch, hold]
    by_cases hne : d.sdu = []
    · left
      have hw : (if fresh s.log then lastMessage s.log else none) = none := hwait
      unfold Sys.ccch
      rw [hw]
      simp [deliveredCcch, polledCcch, fresh, lastMessage, lastCcch, hccch, hne]
    · right
      refine ⟨hwait, (d.num, d.sdu), ?_⟩
      simp [Sys.ccch, Mailbox.put, deliveredCcch, polledCcch, fresh, lastMessage, lastCcch, hccch,
        hne]
  · left
    simp [Sys.ccch, deliveredCcch, polledCcch, fresh, lastMessage, lastCcch, hccch]

theorem ccch_step {e : Event} (hs : SlotIsLast s) (hturn : TakesTurns s e) (h : step s e = some t) :
    t.ccch = s.ccch ∨ t.ccch = s.ccch.take ∨
    (s.ccch.waiting = none ∧ ∃ a, t.ccch = s.ccch.put a) := by
  cases e with
  | poll dreq =>
    by_cases hccch : dreq.srb_id &&& RAB_OFFSET = CCCH
    · exact .inr (Or.inl (ccch_poll hs hccch (hturn hccch) h))
    · cases h
      left
      simp [Sys.ccch, deliveredCcch, polledCcch, fresh, lastMessage, lastCcch, hccch]
  | deliver k =>
    obtain ⟨d, -, hk, -⟩ := step_deliver h
    exact (ccch_deliver hs hk (hturn d hk) h).imp_right Or.inr
  | reply k =>
    obtain ⟨dreq, c, d, v, -, -, rfl⟩ := step_reply h
    exact .inl rfl
  | dupReq k =>
    obtain ⟨dreq, -, rfl⟩ := map_eq_some_iff.1 h
    exact .inl rfl
  | dupRep | loseRep => exact absurd hturn id
  | loseReq | rrc =>
    cases h
    exact .inl rfl

/-! ## No message is lost on the way -/

def deliveredNums : List Obs → List Nat
  | [] => []
  | .delivered d :: log => deliveredNums log ++ [d.num]
  | .polled _ :: log => deliveredNums log

theorem deliveredCcch_sublist (log : List Obs) :
    ((deliveredCcch log).map Prod.fst).Sublist (deliveredNums log) := by
  induction log with
  | nil => exact List.Sublist.refl _
  | cons o log ih =>
    cases o with
    | delivered d =>
      simp only [deliveredCcch, deliveredNums, map_append]
      refine ih.append ?_
      split_ifs <;> simp
    | polled p => exact ih

/-- The replies have different numbers, and each SRB0 message handed out is in flight or
was delivered. -/
structure Accounted (s : Sys) : Prop where
  numbered : Numbered (s.reps.map Datagram.num) (deliveredNums s.log) s.served.length
  message : ∀ n v, s.served[n]? = some v → v.src = some .srb0 →
    (n, v.payload) ∈ deliveredCcch s.log ∨ ∃ d ∈ s.reps, d.num = n ∧ v.Fits d

theorem accounted_reply (ha : Accounted s) (h : step s (.reply k) = some t) : Accounted t := by
  obtain ⟨dreq, c, d, v, -, hrep, rfl⟩ := step_reply h
  obtain ⟨hnum, hfits⟩ := reply_fits hrep
  refine ⟨?_, ?_⟩
  · simp only [map_append, map_cons, map_nil, length_append, length_cons, length_nil, hnum]
    exact ha.numbered.send
  intro n w hw hsrc
  rcases lt_trichotomy n s.served.length with hlt | rfl | hgt
  · rw [getElem?_append_left hlt] at hw
    rcases ha.message n w hw hsrc with hdel | ⟨d', hd', hrest⟩
    · exact .inl hdel
    · exact .inr ⟨d', mem_append_left _ hd', hrest⟩
  · simp only [getElem?_concat_length, some.injEq] at hw
    subst hw
    exact .inr ⟨d, by simp, hnum, hfits⟩
  · rw [getElem?_eq_none (by simp; omega)] at hw
    cases hw

theorem accounted_deliver (ha : Accounted s) (h : step s (.deliver k) = some t) : Accounted t := by
  obtain ⟨d, -, hk, rfl⟩ := step_deliver h
  refine ⟨?_, ?_⟩
  · rw [← eraseIdx_map]
    exact ha.numbered.arrive (by simp [hk])
  intro n v hv hsrc
  rcases ha.message n v hv hsrc with hdel | ⟨d', hd', hnum, hfits⟩
  · exact .inl (mem_append_left _ hdel)
  by_cases hsame : d' ∈ s.reps.eraseIdx k
  · exact .inr ⟨d', hsame, hnum, hfits⟩
  -- the message is the one that arrives
  obtain ⟨hlt, hget⟩ := List.getElem?_eq_some_iff.1 hk
  have hperm := (getElem_cons_eraseIdx_perm hlt).symm.subset hd'
  rw [hget] at hperm
  obtain rfl : d' = d := (mem_cons.1 hperm).resolve_right hsame
  have hccch : d'.srb_id &&& RAB_OFFSET = CCCH := hfits.answers .srb0 hsrc
  left
  simp [deliveredCcch, hccch, hfits.srb0 hsrc, hfits.payload, hnum]

theorem accounted_step {e : Event} (ha : Accounted s) (hturn : TakesTurns s e)
    (h : step s e = some t) : Accounted t := by
  cases e with
  | reply k => exact accounted_reply ha h
  | deliver k => exact accounted_deliver ha h
  | dupReq k =>
    obtain ⟨dreq, -, rfl⟩ := map_eq_some_iff.1 h
    exact ⟨ha.numbered, ha.message⟩
  | dupRep | loseRep => exact absurd hturn id
  | poll | loseReq | rrc =>
    cases h
    exact ⟨ha.numbered, ha.message⟩

/-! ## Every run -/

/-- In every run in which no reply is lost or duplicated and CCCH polls and replies take
turns: each SRB0 message handed out is in flight or was delivered, the delivered messages
are all different and are those that polls returned, in order, and the one that waits, and
the next poll leaves none of them unreturned. -/
theorem a_ccch_message_is_returned_once (carriers : Int → Carrier) (es : List Event) (s : Sys)
    (hmeets : Meets step TakesTurns (start carriers) es)
    (hrun : run step (start carriers) es = some s) :
    (∀ n v, s.served[n]? = some v → v.src = some .srb0 →
      (n, v.payload) ∈ deliveredCcch s.log ∨ ∃ d ∈ s.reps, d.num = n ∧ v.Fits d) ∧
    (deliveredCcch s.log).Nodup ∧ s.ccch.Exact ∧
    ∀ dreq t, dreq.srb_id &&& RAB_OFFSET = CCCH → CanPoll s → step s (.poll dreq) = some t →
      polledCcch t.log = deliveredCcch s.log := by
  obtain ⟨hs, ha, hex⟩ : SlotIsLast s ∧ Accounted s ∧ s.ccch.Exact := by
    refine run_invariant (P := fun s => SlotIsLast s ∧ Accounted s ∧ s.ccch.Exact) ?_ ?_ hmeets hrun
    · rintro s e t ⟨hs, ha, hex⟩ hturn h
      refine ⟨slotIsLast_step s e t hs h, accounted_step ha hturn h, ?_⟩
      rcases ccch_step hs hturn h with hm | hm | ⟨hempty, a, hm⟩
      · rwa [hm]
      · rw [hm]
        exact Mailbox.exact_take hex
      · rw [hm]
        exact Mailbox.exact_put hex hempty a
    · exact ⟨rfl, ⟨Numbered.nil 0, by simp [start]⟩, rfl⟩
  refine ⟨ha.message, ?_, hex, ?_⟩
  · have hd := (deliveredCcch_sublist s.log).nodup (nodup_append.1 ha.numbered.distinct).2.1
    exact List.Nodup.of_map _ hd
  · intro dreq t hccch hcan ht
    calc polledCcch t.log = t.ccch.got := rfl
      _ = s.ccch.take.got := by rw [ccch_poll hs hccch hcan ht]
      _ = deliveredCcch s.log := Mailbox.got_take hex

def ccchCarrier : Carrier where
  Srb0_Active := true
  Srb0_Tx_buffer := ⟨[9], by decide⟩

def ccchPoll : Event := .poll { CC_id := 0, frame := 0, srb_id := 0, num_tb := 1 }

/-- A poll, its reply and the poll that gets the message. -/
theorem a_ccch_message_is_returned :
    ∃ s, run step (start fun _ => ccchCarrier) [ccchPoll, .reply 0, .deliver 0, ccchPoll] = some s ∧
      polledCcch s.log = [(0, [9])] ∧ s.ccch.Exact :=
  ⟨_, rfl, by decide, (a_ccch_message_is_returned_once (fun _ => ccchCarrier)
    [ccchPoll, .reply 0, .deliver 0, ccchPoll] _ (by decide) rfl).2.2.1⟩

/-- One more poll returns the same message a second time; and when two polls go out before
the first reply arrives, the empty second reply replaces the message before any poll gets
it. -/
theorem a_ccch_message_is_returned_twice_or_never : (∃ s, run step (start fun _ => ccchCarrier)
        [ccchPoll, .reply 0, .deliver 0, ccchPoll, ccchPoll] = some s ∧
      deliveredCcch s.log = [(0, [9])] ∧ polledCcch s.log = [(0, [9]), (0, [9])] ∧
      ¬ s.ccch.Exact) ∧
    ∃ s, run step (start fun _ => ccchCarrier)
        [ccchPoll, ccchPoll, .reply 0, .reply 0, .deliver 0, .deliver 0, ccchPoll] = some s ∧
      deliveredCcch s.log = [(0, [9])] ∧ polledCcch s.log = [] ∧ s.du.SRB0 = [] ∧ ¬ s.ccch.Exact :=
  ⟨⟨_, rfl, by decide, by decide, by unfold Mailbox.Exact; decide⟩,
    ⟨_, rfl, by decide, by decide, by decide, by unfold Mailbox.Exact; decide⟩⟩

end MacRlcSplit.Split.Rrc
