-- Whose PDU the DU hands to the MAC. The slots are per channel and the DU
-- does not look at the RNTI of a reply, so a PDU stays with its UE only as
-- long as the scheduler reads a slot for the UE that filled it.
import MacRlcSplit.Split.System

namespace MacRlcSplit.Split

open Lib

variable {ε : Type}

/-! ## The law -/

def Sys.returned (s : Sys ε) : List Returned := s.log.filterMap fun
    | .returned r => some r
    | _ => none

/-- Every non-empty PDU returned for an RNTI and a channel was taken by the CU from the
RLC bearer of that RNTI and channel. -/
def Isolated (s : Sys ε) : Prop := ∀ r ∈ s.returned, r.pdu ≠ [] →
    ∃ t ∈ s.taken, r.src = some t.exec ∧ t.key = rlcCollKey r.rnti r.channel ∧ t.pdu = r.pdu

instance (s : Sys ε) : Decidable (Isolated s) :=
  inferInstanceAs (Decidable (∀ r ∈ s.returned, r.pdu ≠ [] →
    ∃ t ∈ s.taken, r.src = some t.exec ∧ t.key = rlcCollKey r.rnti r.channel ∧ t.pdu = r.pdu))

/-- The scheduler asks for a PDU of a UE only while no reply with data for another UE is
unread on the channel. -/
def ReadsOwn (s : Sys ε) : Event ε → Prop
  | .dataReq rnti channel => ∀ d ∈ unread channel s.log, d.srep_drep.rnti = rnti
  | _ => True

instance (s : Sys ε) (e : Event ε) : Decidable (ReadsOwn s e) := by
  rcases e with ⟨⟩ <;> dsimp only [ReadsOwn] <;> infer_instance

/-! ## One step -/

theorem Isolated.mono {s t : Sys ε} (h : Isolated s) (hlog : t.returned = s.returned)
    (htaken : s.taken ⊆ t.taken) : Isolated t := by
  intro r hr hne
  rw [hlog] at hr
  obtain ⟨k, hk, hsame⟩ := h r hr hne
  exact ⟨k, htaken hk, hsame⟩

theorem dataReq_pdu {rlc : RlcEntity ε} {s : Sys ε} (hb : Base rlc s) (hw : Whole s) {c : Nat}
    (hne : (s.du.readData c).2.2 ≠ []) :
    c < maxDRB ∧ ∃ d, unread c s.log = some d ∧ (s.du.readData c).2.2 = d.pdus c := by
  unfold Du.readData at hne ⊢
  dsimp only at hne ⊢
  split_ifs at hne ⊢ with hgo
  · obtain ⟨hc, hready⟩ := hgo
    rw [hb.ready c hc] at hready
    obtain ⟨d, hd⟩ := Option.isSome_iff_exists.1 hready
    refine ⟨hc, d, hd, ?_⟩
    rcases hw c hc d hd with h0 | hall
    · simp [h0] at hne
    · exact hall
  · exact absurd rfl hne

/-- A UE that reads its own slot gets its own bytes. -/
theorem isolated_step {rlc : RlcEntity ε} {s t : Sys ε} {e : Event ε} (hb : Base rlc s)
    (hw : Whole s) (hi : Isolated s) (hown : ReadsOwn s e)
    (h : step rlc s e = some t) : Isolated t := by
  cases e with
  | dataReq rnti c =>
    obtain rfl := step_dataReq h
    intro r hr hne
    rcases List.mem_cons.1 hr with rfl | hr
    · obtain ⟨hc, d, hd, hpdu⟩ := dataReq_pdu hb hw hne
      have hg := hb.owed c hc d hd
      have hrnti : d.req.rnti = rnti := hg.rnti.symm.trans (hown d hd)
      refine ⟨_, hg.taken c (Nat.lt_trans hc (by decide)) (hpdu ▸ hne), by simp [hd], ?_, hpdu.symm⟩
      rw [hrnti]
    · exact hi r hr hne
  | reply k =>
    obtain ⟨req, st, -, -, rfl⟩ := step_reply h
    exact hi.mono rfl (List.subset_append_left _ _)
  | deliver k stale behind =>
    obtain ⟨d, -, -, rfl⟩ := step_deliver h
    exact hi.mono rfl (List.Subset.refl _)
  | statusInd rnti frame c tb =>
    obtain ⟨sent, rfl⟩ := step_statusInd h
    exact hi.mono rfl (List.Subset.refl _)
  | loseReq | loseRep | rlc =>
    cases h
    exact hi.mono rfl (List.Subset.refl _)

/-! ## Every run -/

/-- In every run in which the replies fit the receive buffer, their writes behind the tables
spare the slots and the scheduler reads each slot for the UE whose reply filled it, no UE
gets a PDU of another UE or channel. -/
theorem a_pdu_stays_with_its_ue (rlc : RlcEntity ε) (coll : RlcColl ε) (es : List (Event ε))
    (s : Sys ε)
    (hmeets : Meets (step rlc) (fun s e => Fits s e ∧ Spares s e ∧ ReadsOwn s e) (start coll) es)
    (hrun : run (step rlc) (start coll) es = some s) : Isolated s := by
  refine (run_invariant (P := fun s => Base rlc s ∧ Whole s ∧ Isolated s) ?_ ?_ hmeets hrun).2.2
  · rintro s e t ⟨hb, hw, hi⟩ ⟨hfit, hspare, hown⟩ h
    exact ⟨base_step rlc s e t hb hspare h, whole_step hb hw hfit hspare h,
      isolated_step hb hw hi hown h⟩
  · refine ⟨base_start rlc coll, whole_start coll, ?_⟩
    simp [Isolated, Sys.returned, start]

def answered : List (Event (Int × List (List Byte))) :=
  [.statusInd 1 0 1 10, .reply 0, .deliver 0 [] id]

/-- UE 1 reads the PDU that was taken for it. -/
theorem a_pdu_stays_with_ue_1 :
    ∃ s, run (step queueRlc) (start (oneBearer 1 1 [[7]])) (answered ++ [.dataReq 1 1]) = some s ∧
      s.returned = [{ rnti := 1, channel := 1, size := 1, pdu := [7], src := some 0 }] ∧
      Isolated s :=
  ⟨_, rfl, by decide, a_pdu_stays_with_its_ue queueRlc (oneBearer 1 1 [[7]])
    (answered ++ [.dataReq 1 1]) _ (by decide) rfl⟩

/-- The same PDU is returned to UE 2, which has no RLC bearer at all. -/
theorem a_pdu_of_ue_1_reaches_ue_2 :
    ∃ s, run (step queueRlc) (start (oneBearer 1 1 [[7]])) (answered ++ [.dataReq 2 1]) = some s ∧
      s.returned = [{ rnti := 2, channel := 1, size := 1, pdu := [7], src := some 0 }] ∧
      ¬ Isolated s :=
  ⟨_, rfl, by decide, by decide⟩

end MacRlcSplit.Split
