-- The reordering window over whole runs: any PDUs and any expiries of
-- t-Reordering leave VR(UR), VR(UX), VR(UH) and `dar_buffer` in order. VR(UR)
-- is the earliest SN not yet received unless the window drags it onto a PDU.
import MacRlcSplit.Um.Numbers

namespace MacRlcSplit.Um

open Lib Option
open Am (Ctxt MacTbInd)

/-! ## The invariant -/

/-- The state variables are SNs, VR(UR) is from VR(UH) - UM_Window_Size to VR(UH), and the PDUs in
`dar_buffer` have SNs from VR(UR) to just before VR(UH). -/
structure WindowInOrder (rx : Rx) : Prop where
  vr_ur : rx.vr_ur < rx.modulo
  vr_ux : rx.vr_ux < rx.modulo
  vr_uh : rx.vr_uh < rx.modulo
  window : off rx.modulo rx.vr_ur rx.vr_uh ≤ rx.windowSize
  buffered : ∀ sn, (rx.dar_buffer sn).isSome = true →
    sn < rx.modulo ∧ off rx.modulo rx.vr_ur sn < off rx.modulo rx.vr_ur rx.vr_uh

variable {rx : Rx} {gap : Prop}

theorem Numbered.inOrder {ur uh : Nat} {buf : Nat → Option MacTbInd} (num : Numbered rx ur uh buf)
    (timed : Timed rx ur uh) : WindowInOrder rx := by
  have hsizes := sizes rx
  have hlow := num.low
  have hpos : 0 < rx.modulo := by omega
  have hdist : off rx.modulo rx.vr_ur rx.vr_uh = uh - ur := by
    rw [num.vr_ur, num.vr_uh]
    exact off_residue num.high (by omega)
  refine ⟨?_, timed.vr_ux, ?_, by omega, ?_⟩
  · rw [num.vr_ur]
    exact Nat.mod_lt _ hpos
  · rw [num.vr_uh]
    exact Nat.mod_lt _ hpos
  intro sn hsn
  have hlt : sn < rx.modulo := by
    by_contra hge
    simp [num.beyond sn (Nat.le_of_not_lt hge)] at hsn
  obtain ⟨i, hi, hi', rfl⟩ := exists_residue ur hlt
  rw [num.slots i hi hi'] at hsn
  have hbelow : i < uh := by
    by_contra hge
    simp [num.empty i (Nat.le_of_not_lt hge)] at hsn
  refine ⟨hlt, ?_⟩
  rw [hdist, num.vr_ur, off_residue hi hi']
  omega

/-! ## Steps -/

theorem sn_lt (n : SnLength) (m : Nat → UInt8) : n.sn m < n.modulo := by
  have h1 := (m 1).toNat_lt
  cases n <;> simp only [SnLength.sn, SnLength.modulo] <;> omega

/-- VR(UH) after a PDU with this SN has moved the window. -/
def Rx.moved (rx : Rx) (sn : Nat) : Rx := { rx with vr_uh := (sn + 1) % rx.modulo }

/-- A PDU that drags VR(UR) along with the window drags it to an SN without a PDU. -/
def DragsToAGap (s : Entity) : Event → Prop
  | .receive _ tb =>
    let sn := s.rx.cfg.rx_sn_length.sn tb.data
    rlcUmInReorderingWindow s.rx sn = false → rlcUmInReorderingWindow (s.rx.moved sn) s.rx.vr_ur =
      false → s.rx.dar_buffer (s.rx.moved sn).edge = none
  | _ => True

instance (s : Entity) (e : Event) : Decidable (DragsToAGap s e) := by
  cases e <;> unfold DragsToAGap <;> infer_instance

/-- The numbers of a receiver that is not an MBMS one; `gap` says that VR(UR) has no PDU. -/
structure Placed (rx : Rx) (gap : Prop) : Prop where
  ptp : rx.cfg.is_mxch = false
  numbers : ∃ ur uh buf, Numbered rx ur uh buf ∧ Timed rx ur uh ∧ (gap → buf ur = none)

theorem placed_checkTimer {rx' : Rx} {ctxt : Ctxt} (place : Placed rx gap)
    (h : rlcUmCheckTimerDarTimeOut rx ctxt = some rx') : Placed rx' gap := by
  obtain ⟨ptp, ur, uh, buf, num, timed, hgap⟩ := place
  obtain ⟨ur', hcfg, num', timed', -, -, hrest⟩ := checkTimer_spec num timed h
  refine ⟨hcfg ▸ ptp, ur', uh, buf, num', timed', fun g => ?_⟩
  rcases hrest with ⟨rfl, -⟩ | hnone
  · exact hgap g
  · exact hnone

theorem near_of_sn {uh sn : Nat} (ptp : rx.cfg.is_mxch = false) (edge : rx.windowSize ≤ uh)
    (h : sn < rx.modulo) : ∃ i, Near rx uh i ∧ i % rx.modulo = sn := by
  have hsizes := sizes rx
  have hwin : rx.windowSize = rx.half := by simp [Rx.windowSize, Rx.half, ptp]
  obtain ⟨i, hi, hi', rfl⟩ := exists_residue (uh - rx.windowSize) h
  exact ⟨i, ⟨by omega, by omega⟩, rfl⟩

theorem placed_receive {s t : Entity} {ctxt : Ctxt} {tb : MacTbInd} (place : Placed s.rx gap)
    (drag : gap → DragsToAGap s (.receive ctxt tb))
    (h : rlcUmReceive s ctxt tb = some t) : Placed t.rx gap := by
  obtain ⟨ptp, ur, uh, buf, num, timed, hgap⟩ := place
  have hsizes := sizes s.rx
  have hlow := num.low
  unfold rlcUmReceive at h
  split at h
  · cases h
    exact ⟨ptp, ur, uh, buf, num, timed, hgap⟩
  obtain ⟨rx', hdar, rfl⟩ := map_eq_some_iff.1 h
  obtain ⟨i, near, hi⟩ := near_of_sn ptp num.edge (sn_lt s.rx.cfg.rx_sn_length tb.data)
  have hnear := near.2
  rcases processDar_spec num timed near hi.symm hdar with ⟨rfl, -⟩ | ⟨hnew, ur', stored⟩
  · exact ⟨ptp, ur, uh, buf, num, timed, hgap⟩
  refine ⟨stored.cfg ▸ ptp, ur', _, _, stored.num, stored.timed, fun g => ?_⟩
  rcases stored.rests with hnone | ⟨rfl, hne⟩ | ⟨hahead, hout, hedge⟩
  · exact hnone
  · rw [Function.update_of_ne (Ne.symm hne)]
    exact hgap g
  -- VR(UR) was dragged to the edge of the window that the PDU moved
  have htop : (s.rx.moved (i % s.rx.modulo)).vr_uh = (i + 1) % s.rx.modulo := by
    simp [Rx.moved]
  have hslot := drag g
  simp only [DragsToAGap] at hslot
  rw [← hi, num.vr_ur, edge_eq htop hedge] at hslot
  have hle := stored.le
  rw [Function.update_of_ne (by omega), ← num.slots ur' hle (by omega)]
  refine hslot ?_ ?_
  · rw [Bool.eq_false_iff, ne_eq, inReorderingWindow_iff num.vr_uh near.1 near.ahead]
    omega
  · rw [Bool.eq_false_iff]
    exact fell_out htop hout (by show i + 1 ≤ ur + s.rx.modulo; omega)

theorem placed_step {s t : Entity} {e : Event} (place : Placed s.rx gap)
    (drag : gap → DragsToAGap s e) (h : step s e = some t) : Placed t.rx gap := by
  cases e with
  | dataReq | macDataRequest =>
    cases h
    exact place
  | macStatusIndication ctxt tbs_size =>
    obtain ⟨u, hu, rfl⟩ := map_eq_some_iff.1 h
    obtain ⟨rx', hrx, rfl⟩ := map_eq_some_iff.1 hu
    exact placed_checkTimer place hrx
  | checkTimer ctxt =>
    obtain ⟨rx', hrx, rfl⟩ := map_eq_some_iff.1 h
    exact placed_checkTimer place hrx
  | receive ctxt tb => exact placed_receive place drag h

/-! ## Runs -/

theorem placed_configure {cfg : Config} (ptp : cfg.is_mxch = false) :
    Placed (rlcUmConfigure cfg).rx gap :=
  ⟨ptp, _, _, _, numbered_configure cfg, timed_configure cfg, fun _ => rfl⟩

/-- The reordering window is in order in every state that is reached. VR(UR) is the earliest SN
not yet received as long as it is dragged only to SNs without a PDU. -/
theorem vr_ur_waits_for_the_earliest_missing_sn {cfg : Config} {es : List Event} {s : Entity}
    (ptp : cfg.is_mxch = false) (h : run step (rlcUmConfigure cfg) es = some s) :
    WindowInOrder s.rx ∧ (Meets step DragsToAGap (rlcUmConfigure cfg) es →
      s.rx.dar_buffer s.rx.vr_ur = none) := by
  constructor
  · obtain ⟨-, ur, uh, buf, num, timed, -⟩ := run_always
      (fun s e t (place : Placed s.rx False) hs => placed_step place False.elim hs)
      (placed_configure ptp) h
    exact num.inOrder timed
  · intro meets
    obtain ⟨-, ur, uh, buf, num, -, hgap⟩ := run_invariant
      (fun s e t (place : Placed s.rx True) drag hs => placed_step place (fun _ => drag) hs)
      (placed_configure ptp) meets h
    have hsizes := sizes s.rx
    rw [num.vr_ur, num.slots ur (Nat.le_refl ur) (by omega)]
    exact hgap trivial

def umdRun (sns : List Nat) : List Event := sns.map fun sn => .receive ⟨1, 0⟩
  { data := fun
      | 0 => UInt8.ofNat sn
      | _ => 7
    size := 2 }

/-- SN 1 comes before SN 0, SN 3 is lost, and t-Reordering expires. -/
theorem vr_ur_after_a_loss : Meets step DragsToAGap (rlcUmConfigure ⟨5, .five, .five, false, true⟩)
        (umdRun [1, 0, 2, 4] ++ [.checkTimer ⟨3, 0⟩]) ∧
      ∃ s, run step (rlcUmConfigure ⟨5, .five, .five, false, true⟩)
          (umdRun [1, 0, 2, 4] ++ [.checkTimer ⟨3, 0⟩]) = some s ∧
        s.rx.vr_ur = 5 ∧ WindowInOrder s.rx ∧ s.rx.dar_buffer s.rx.vr_ur = none := by
  have meets : Meets step DragsToAGap (rlcUmConfigure ⟨5, .five, .five, false, true⟩)
      (umdRun [1, 0, 2, 4] ++ [.checkTimer ⟨3, 0⟩]) := by
    decide +kernel
  obtain ⟨s, hs, hmoved⟩ : ∃ s,
      run step (rlcUmConfigure ⟨5, .five, .five, false, true⟩) (umdRun [1, 0, 2, 4] ++
      [.checkTimer ⟨3, 0⟩]) = some s ∧ s.rx.vr_ur = 5 := run_decided (by decide +kernel)
  obtain ⟨inOrder, gap⟩ := vr_ur_waits_for_the_earliest_missing_sn rfl hs
  exact ⟨meets, s, hs, hmoved, inOrder, gap meets⟩

/-- SN 0 is lost and SN 1 received; SN 16 then moves the window, and VR(UR) stops at SN 1. -/
theorem vr_ur_is_dragged_onto_a_received_sn :
    ∃ s, run step (rlcUmConfigure ⟨35, .five, .five, false, true⟩) (umdRun [1, 16]) = some s ∧
      s.rx.vr_ur = 1 ∧ (s.rx.dar_buffer s.rx.vr_ur).isSome = true := by
  exact run_decided (by decide +kernel)

end MacRlcSplit.Um
