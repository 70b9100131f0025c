-- Whether a PDU the DU returns fits the grant the MAC holds. The PDU was cut
-- for the request its reply answered, and by the time it is read the MAC may
-- have asked again with less.
import MacRlcSplit.Split.System

namespace MacRlcSplit.Split

open Lib

variable {ε : Type}

/-! ## The law -/

def lastGrant (c : Nat) : List Obs → Option Int
  | [] => none
  | .statusInd _ c' tb_size _ :: log => if c' = c then some tb_size else lastGrant c log
  | _ :: log => lastGrant c log

/-- No data request returned more bytes than the latest status indication on its channel
had granted. -/
def WithinGrants : List Obs → Prop
  | [] => True
  | .returned r :: log =>
    (0 < r.size → ∀ g ∈ lastGrant r.channel log, (r.size : Int) ≤ g) ∧ WithinGrants log
  | _ :: log => WithinGrants log

/-- A slot is read only while the request whose reply filled it asked for no more than the
latest status indication on the channel. -/
def GrantStands (s : Sys ε) : Event ε → Prop
  | .dataReq _ c => ∀ d ∈ unread c s.log, ∀ g ∈ lastGrant c s.log, d.req.tb_size ≤ g
  | _ => True

instance (s : Sys ε) (e : Event ε) : Decidable (GrantStands s e) := by
  rcases e with ⟨⟩ <;> dsimp only [GrantStands] <;> infer_instance

/-! ## One step -/

theorem dataReq_size {rlc : RlcEntity ε} (hkeeps : KeepsGrant rlc) {s : Sys ε} (hb : Base rlc s)
    {c : Nat} (hpos : 0 < (s.du.readData c).2.1) :
    ∃ d, unread c s.log = some d ∧ ((s.du.readData c).2.1 : Int) ≤ d.req.tb_size := by
  have hgo : c < maxDRB ∧ (s.du.slot c).drep_ready := by
    by_contra hno
    simp [Du.readData, hno] at hpos
  obtain ⟨hc, hready⟩ := hgo
  rw [readData_of_ready hc hready] at hpos ⊢
  rw [hb.ready c hc] at hready
  obtain ⟨d, hd⟩ := Option.isSome_iff_exists.1 hready
  refine ⟨d, hd, ?_⟩
  rcases hb.size c hc d hd with h0 | hlen
  · omega
  · simp only [hlen] at hpos ⊢
    rcases (hb.owed c hc d hd).budget hkeeps c with he | hle
    · simp [he] at hpos
    · exact hle

/-- What a data request returns is within the latest grant. -/
theorem withinGrants_step {rlc : RlcEntity ε} (hkeeps : KeepsGrant rlc) {s t : Sys ε}
    {e : Event ε} (hb : Base rlc s) (hw : WithinGrants s.log) (hstands : GrantStands s e)
    (h : step rlc s e = some t) : WithinGrants t.log := by
  cases e with
  | statusInd rnti frame c tb =>
    obtain ⟨sent, rfl⟩ := step_statusInd h
    exact hw
  | dataReq rnti c =>
    obtain rfl := step_dataReq h
    refine ⟨fun hpos g hg => ?_, hw⟩
    obtain ⟨d, hd, hle⟩ := dataReq_size hkeeps hb hpos
    exact Int.le_trans hle (hstands d hd g hg)
  | reply k =>
    obtain ⟨req, st, -, -, rfl⟩ := step_reply h
    exact hw
  | deliver k stale behind =>
    obtain ⟨d, -, -, rfl⟩ := step_deliver h
    exact hw
  | loseReq | loseRep | rlc =>
    cases h
    exact hw

/-! ## Every run -/

/-- With RLC bearers that keep their grant, in every run in which a slot is read only while
the grant its PDU was cut for still stands, and the writes behind the tables spare the slots,
the DU gives the guarantee of the monolithic build: a data request never returns more than
the latest status indication granted. -/
theorem a_pdu_fits_the_latest_grant (rlc : RlcEntity ε) (hkeeps : KeepsGrant rlc)
    (coll : RlcColl ε) (es : List (Event ε)) (s : Sys ε)
    (hmeets : Meets (step rlc) (fun s e => Spares s e ∧ GrantStands s e) (start coll) es)
    (hrun : run (step rlc) (start coll) es = some s) : WithinGrants s.log := by
  refine (run_invariant (P := fun s => Base rlc s ∧ WithinGrants s.log) ?_ ?_ hmeets hrun).2
  · rintro s e t ⟨hb, hw⟩ ⟨hspare, hstands⟩ h
    exact ⟨base_step rlc s e t hb hspare h, withinGrants_step hkeeps hb hw hstands h⟩
  · exact ⟨base_start rlc coll, trivial⟩

instance WithinGrants.decidable : ∀ log, Decidable (WithinGrants log)
  | [] => isTrue trivial
  | .returned r :: log =>
    have := WithinGrants.decidable log
    inferInstanceAs (Decidable ((0 < r.size → ∀ g ∈ lastGrant r.channel log, (r.size : Int) ≤ g) ∧
      WithinGrants log))
  | .statusInd .. :: log => WithinGrants.decidable log
  | .delivered .. :: log => WithinGrants.decidable log

/-- A PDU of 3 bytes, cut for a grant of 10 that still stands, is returned. -/
theorem a_pdu_fits_a_grant_of_10 : ∃ s, run (step queueRlc) (start (oneBearer 1 1 [[7, 8, 9]]))
        [.statusInd 1 0 1 10, .reply 0, .deliver 0 [] id, .dataReq 1 1] = some s ∧
      lastGrant 1 s.log = some 10 ∧ WithinGrants s.log :=
  ⟨_, rfl, by decide, a_pdu_fits_the_latest_grant queueRlc queueRlc_keepsGrant
    (oneBearer 1 1 [[7, 8, 9]]) [.statusInd 1 0 1 10, .reply 0, .deliver 0 [] id, .dataReq 1 1] _
    (by decide) rfl⟩

/-- The same PDU is returned after the scheduler granted the channel only 1 byte. -/
theorem a_pdu_of_3_bytes_overruns_a_grant_of_1 : ∃ s,
    run (step queueRlc) (start (oneBearer 1 1 [[7, 8, 9]]))
        [.statusInd 1 0 1 10, .reply 0, .deliver 0 [] id, .statusInd 1 1 1 1, .dataReq 1 1] =
          some s ∧
      lastGrant 1 s.log = some 1 ∧ ¬ WithinGrants s.log :=
  ⟨_, rfl, by decide, by decide⟩

end MacRlcSplit.Split
