-- The SIB1 and the SIB2/3 slot of the DU never mix, whatever happens to the
-- requests and replies on the way: both sides pick the slot by the frame of
-- the request, and no frame is both even and 1 modulo 8.
import MacRlcSplit.Split.Rrc

namespace MacRlcSplit.Split.Rrc

open Lib List

/-! ## The law -/

/-- Empty, or handed out by the CU from the given buffer. -/
def FromSource (served : List Served) (src : Source) (sdu : List Byte) : Prop :=
  sdu = [] ∨ { src := some src, payload := sdu } ∈ served

/-- The slots of the DU hold, and its BCCH requests so far returned, nothing or a payload
that the CU handed out as what the slot or the frame is for. -/
structure NeverMix (s : Sys) : Prop where
  sib1 : FromSource s.served .sib1 s.du.SIB1
  sib23 : FromSource s.served .sib23 s.du.SIB23
  polls : ∀ p, .polled p ∈ s.log → p.srb_id &&& RAB_OFFSET = BCCH →
    (p.frame % 2 = 0 → FromSource s.served .sib1 p.sdu) ∧
    (p.frame % 8 = 1 → FromSource s.served .sib23 p.sdu)

theorem FromSource.mono {served more : List Served} {src : Source} {sdu : List Byte}
    (h : FromSource served src sdu) : FromSource (served ++ more) src sdu :=
  h.imp_right (mem_append_left _)

theorem genuine_source {served : List Served} {d : Datagram} (hg : Genuine served d) {src : Source}
    (honly : ∀ x : Source, x.Answers d.frame d.srb_id → x = src) :
    FromSource served src d.sdu := by
  obtain ⟨⟨vsrc, payload⟩, hget, hfits⟩ := hg
  rcases vsrc with _ | x
  · exact .inl (hfits.none rfl)
  · cases honly x (hfits.answers x rfl)
    cases hfits.payload
    exact .inr (mem_of_getElem? hget)

theorem only_sib1 {frame srb_id : Nat} (hb : srb_id &&& RAB_OFFSET = BCCH)
    (heven : frame % 2 = 0) (x : Source) (hx : x.Answers frame srb_id) : x = .sib1 := by
  cases x with
  | sib1 => rfl
  | sib23 => exact absurd hx.2 (by omega)
  | srb0 | mcch => exact absurd (hb.symm.trans hx) (by decide)

theorem only_sib23 {frame srb_id : Nat} (hb : srb_id &&& RAB_OFFSET = BCCH)
    (hodd : frame % 8 = 1) (x : Source) (hx : x.Answers frame srb_id) : x = .sib23 := by
  cases x with
  | sib1 => exact absurd hx.2 (by omega)
  | sib23 => rfl
  | srb0 | mcch => exact absurd (hb.symm.trans hx) (by decide)

/-! ## One step -/

theorem handle_sib1 (du : DuRrc) (d : Datagram) : (macRrcHandleDataRep du d).SIB1 =
      if d.srb_id &&& RAB_OFFSET = BCCH ∧ d.frame % 2 = 0 then d.sdu else du.SIB1 := by
  unfold macRrcHandleDataRep
  split_ifs <;> simp_all

theorem handle_sib23 (du : DuRrc) (d : Datagram) : (macRrcHandleDataRep du d).SIB23 =
      if d.srb_id &&& RAB_OFFSET = BCCH ∧ d.frame % 8 = 1 then d.sdu else du.SIB23 := by
  unfold macRrcHandleDataRep
  split_ifs <;> simp_all

theorem neverMix_poll {s : Sys} (h : NeverMix s) (dreq : SpmrRrcDreq) (src : Option Nat)
    (reqs : List SpmrRrcDreq) : NeverMix { s with
      reqs
      log := .polled
        { frame := dreq.frame, srb_id := dreq.srb_id
          sdu := duMacRrcDataReq s.du dreq.frame dreq.srb_id, src } :: s.log } := by
  refine ⟨h.sib1, h.sib23, fun p hp hb => ?_⟩
  rcases mem_cons.1 hp with hp | hp
  · cases hp
    unfold duMacRrcDataReq
    refine ⟨fun heven => ?_, fun hodd => ?_⟩
    · rw [if_pos ⟨hb, heven⟩]
      exact h.sib1
    · have hframe : dreq.frame % 8 = 1 := hodd
      rw [if_neg (by omega), if_pos ⟨hb, hframe⟩]
      exact h.sib23
  · exact h.polls p hp hb

theorem neverMix_deliver {s : Sys} (h : NeverMix s) {d : Datagram} (hg : Genuine s.served d)
    (reps : List Datagram) : NeverMix { s with
      du := macRrcHandleDataRep s.du d
      reps
      log := .delivered d :: s.log } := by
  refine ⟨?_, ?_, fun p hp => ?_⟩
  · rw [handle_sib1]
    split_ifs with hslot
    · exact genuine_source hg (only_sib1 hslot.1 hslot.2)
    · exact h.sib1
  · rw [handle_sib23]
    split_ifs with hslot
    · exact genuine_source hg (only_sib23 hslot.1 hslot.2)
    · exact h.sib23
  · rcases mem_cons.1 hp with hp | hp
    · cases hp
    · exact h.polls p hp

theorem neverMix_step {s t : Sys} {e : Event} (hw : Wire s) (hm : NeverMix s)
    (h : step s e = some t) : NeverMix t := by
  cases e with
  | poll dreq =>
    cases h
    exact neverMix_poll hm dreq _ _
  | reply k =>
    obtain ⟨dreq, c, d, v, -, -, rfl⟩ := step_reply h
    refine ⟨hm.sib1.mono, hm.sib23.mono, fun p hp hb => ?_⟩
    obtain ⟨heven, hodd⟩ := hm.polls p hp hb
    exact ⟨fun he => (heven he).mono, fun ho => (hodd ho).mono⟩
  | deliver k =>
    obtain ⟨d, hd, -, rfl⟩ := step_deliver h
    exact neverMix_deliver hm (hw d hd) _
  | loseReq | loseRep | rrc =>
    cases h
    exact ⟨hm.sib1, hm.sib23, hm.polls⟩
  | dupReq k =>
    obtain ⟨dreq, -, rfl⟩ := Option.map_eq_some_iff.1 h
    exact ⟨hm.sib1, hm.sib23, hm.polls⟩
  | dupRep k =>
    obtain ⟨d, -, rfl⟩ := Option.map_eq_some_iff.1 h
    exact ⟨hm.sib1, hm.sib23, hm.polls⟩

/-! ## Every run -/

/-- In every run, with any loss, duplication and reordering of requests and replies, any
frames and any changes of the CU's buffers, the system information slots never mix. -/
theorem system_information_never_mixes (carriers : Int → Carrier) (es : List Event) (s : Sys)
    (hrun : run step (start carriers) es = some s) : NeverMix s := by
  have hstart : NeverMix (start carriers) := by
    refine ⟨Or.inl rfl, Or.inl rfl, ?_⟩
    intro p hp
    simp [start] at hp
  refine (run_always (P := fun s => Wire s ∧ NeverMix s) ?_ ⟨?_, hstart⟩ hrun).2
  · rintro s e t ⟨hw, hm⟩ h
    exact ⟨wire_step s e t hw h, neverMix_step hw hm h⟩
  · simp [Wire, start]

def siCarrier : Carrier where
  SI_Active := true
  SIB1 := ⟨[1], by decide⟩
  SIB23 := ⟨[2, 3], by decide⟩

/-- Requests of the frames 0 and 1 are answered in the other order, one reply twice. -/
def siExchange : List Event := [.poll { CC_id := 0, frame := 0, srb_id := 3, num_tb := 1 },
    .poll { CC_id := 0, frame := 1, srb_id := 3, num_tb := 1 },
    .reply 1, .reply 0, .dupRep 0, .deliver 1, .deliver 1, .deliver 0,
    .poll { CC_id := 0, frame := 2, srb_id := 3, num_tb := 1 }]

theorem system_information_of_two_frames : ∃ s, run step (start fun _ => siCarrier) siExchange =
    some s ∧
      s.du = { SIB1 := [1], SIB23 := [2, 3] } ∧
      .polled { frame := 2, srb_id := 3, sdu := [1], src := none } ∈ s.log ∧ NeverMix s :=
  ⟨_, rfl, by decide, by decide,
    system_information_never_mixes (fun _ => siCarrier) siExchange _ rfl⟩

end MacRlcSplit.Split.Rrc
