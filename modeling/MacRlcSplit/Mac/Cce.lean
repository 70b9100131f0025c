-- Admission to the PDCCH. A scheduler tests whether the CCEs suffice before it
-- adds a DCI, and nobody looks at what the last `allocate_CCEs` says. That is
-- sound when the list has not changed between the test and the adding.
import MacRlcSplit.Mac.Dci

namespace MacRlcSplit.Mac

open List Option

/-! ## Tests that have passed -/

/-- What a test is made for. -/
structure Trial where
  common_flag : Bool
  aggregation : Fin 4
  rnti : Nat
deriving DecidableEq, Repr

/-- The list, and the tests that have found CCEs: all of them, and those since a DCI was added
last. -/
structure Admission where
  pdu : DciPdu
  passed : List Trial := []
  fresh : List Trial := []

namespace Admission

/-- A call, with the tests written down. -/
def step (get_nCCE_max : Nat → Nat) (subframe : Nat) (s : Admission) : DciCall → Option Admission
  | .addCommonDci d => (s.pdu.addCommonDci d).map fun pdu => { s with pdu := pdu, fresh := [] }
  | .addUeSpecDci d => (s.pdu.addUeSpecDci d).map fun pdu => { s with pdu := pdu, fresh := [] }
  | .cceAllocationInfeasible common_flag aggregation rnti =>
    (s.pdu.cceAllocationInfeasible get_nCCE_max subframe common_flag aggregation rnti).map fun r =>
      { pdu := r.2
        passed := if r.1 then s.passed else ⟨common_flag, aggregation, rnti⟩ :: s.passed
        fresh := if r.1 then s.fresh else ⟨common_flag, aggregation, rnti⟩ :: s.fresh }

/-- A DCI is added only after a test for it has passed. -/
def Tested (s : Admission) : DciCall → Prop
  | .addCommonDci d => ⟨true, d.aggregation, d.rnti⟩ ∈ s.passed
  | .addUeSpecDci d => ⟨false, d.aggregation, d.rnti⟩ ∈ s.passed
  | .cceAllocationInfeasible _ _ _ => True

/-- No DCI was added since that test, and a common DCI does not come after UE-specific ones. -/
def Unchanged (s : Admission) : DciCall → Prop
  | .addCommonDci d => ⟨true, d.aggregation, d.rnti⟩ ∈ s.fresh ∧ s.pdu.Num_ue_spec_dci = 0
  | .addUeSpecDci d => ⟨false, d.aggregation, d.rnti⟩ ∈ s.fresh
  | .cceAllocationInfeasible _ _ _ => True

instance (s : Admission) (c : DciCall) : Decidable (s.Tested c) := by
  rcases c with ⟨⟩ <;> dsimp only [Tested] <;> infer_instance

instance (s : Admission) (c : DciCall) : Decidable (s.Unchanged c) := by
  rcases c with ⟨⟩ <;> dsimp only [Unchanged] <;> infer_instance

end Admission

/-! ## What the answer depends on -/

namespace DciPdu

variable {get_nCCE_max : Nat → Nat} {subframe : Nat} {p q p' : DciPdu}

/-- The two lists are the same to `allocate_CCEs`. -/
structure Alike (p q : DciPdu) : Prop where
  Num_common_dci : p.Num_common_dci = q.Num_common_dci
  entries : p.entries = q.entries

variable {test_only : Bool} {r : Bool × DciPdu} {d : Dci}

theorem alike_attempt {symbols : Nat}
    (h : p.attempt get_nCCE_max subframe test_only symbols = some r) : Alike p r.2 :=
  ⟨(sameDcis_attempt h).Num_common_dci.symm, (entries_attempt h).symm⟩

theorem Alike.attempt (h : Alike p q) {symbols : Nat}
    (hp : p.attempt get_nCCE_max subframe test_only symbols = some r) (test_only' : Bool) :
    ∃ r', q.attempt get_nCCE_max subframe test_only' symbols = some r' ∧ r'.1 = r.1 ∧
    Alike r.2 r'.2 := by
  have hpr := alike_attempt hp
  obtain ⟨x, hround, rfl⟩ := map_eq_some_iff.1 hp
  rw [h.Num_common_dci, h.entries] at hround
  have hq : q.attempt get_nCCE_max subframe test_only' symbols = some (x.1,
      { if test_only' then q else q.place x.2 with num_pdcch_symbols := symbols }) := by
    rw [DciPdu.attempt, hround, map_some]
  have hqr := alike_attempt hq
  refine ⟨_, hq, rfl, ?_⟩
  exact ⟨hpr.Num_common_dci.symm.trans (h.Num_common_dci.trans hqr.Num_common_dci),
    hpr.entries.symm.trans (h.entries.trans hqr.entries)⟩

theorem Alike.tryAgain (h : Alike p q) {more : Nat}
    (hp : p.tryAgain get_nCCE_max subframe test_only more = some r) (test_only' : Bool) :
    ∃ r', q.tryAgain get_nCCE_max subframe test_only' more = some r' ∧ r'.1 = r.1 := by
  induction more generalizing p q with
  | zero =>
    obtain ⟨r', hr', hanswer, -⟩ := h.attempt hp test_only'
    exact ⟨r', hr', hanswer⟩
  | succ more ih =>
    obtain ⟨x, hx, hrest⟩ := bind_eq_some_iff.1 hp
    obtain ⟨x', hx', hanswer, halike⟩ := h.attempt hx test_only'
    rw [DciPdu.tryAgain, hx', bind_some, hanswer]
    split at hrest
    · rename_i hok
      cases hrest
      exact ⟨x', if_pos hok, hanswer⟩
    · rename_i hfail
      rw [if_neg hfail]
      exact ih halike hrest

/-- `allocate_CCEs` would find CCEs for all entries. -/
def Feasible (get_nCCE_max : Nat → Nat) (subframe : Nat) (p : DciPdu) : Prop :=
  ∃ q, p.allocateCces get_nCCE_max subframe true = some (true, q)

theorem Feasible.alike (hp : p.Feasible get_nCCE_max subframe) (h : Alike p q) (test_only : Bool) :
    ∃ q', q.allocateCces get_nCCE_max subframe test_only = some (true, q') := by
  obtain ⟨r, hr⟩ := hp
  obtain ⟨r', hr', hanswer⟩ := h.tryAgain hr test_only
  refine ⟨r'.2, hr'.trans ?_⟩
  rw [show r' = (r'.1, r'.2) from rfl, hanswer]

theorem feasible_clear (p : DciPdu) : p.clear.Feasible get_nCCE_max subframe :=
  ⟨{ p.clear with num_pdcch_symbols := 1 }, rfl⟩

/-! ## The entries after a call -/

theorem entries_trial (p : DciPdu) (common : Bool) (agg rnti : Nat) :
    (p.trial common agg rnti).entries = p.entries ++ [(rnti, agg)] := by
  have hn : (p.trial common agg rnti).Num_common_dci +
      (p.trial common agg rnti).Num_ue_spec_dci = p.Num_common_dci + p.Num_ue_spec_dci + 1 := by
    cases common <;> simp [trial] <;> omega
  rw [entries, hn, range_succ, map_append]
  congr 1
  · apply map_congr_left
    intro i hi
    have hne : i ≠ p.Num_common_dci + p.Num_ue_spec_dci := by
      have := mem_range.1 hi
      omega
    simp [trial, hne]
  · simp [trial]

theorem entries_write (h : p.write (p.Num_common_dci + p.Num_ue_spec_dci) d = some q)
    (hn : p'.Num_common_dci + p'.Num_ue_spec_dci = p.Num_common_dci + p.Num_ue_spec_dci + 1)
    (halloc : p'.dci_alloc = q.dci_alloc) : p'.entries =
      p.entries ++ [(d.rnti, d.aggregation.val)] := by
  obtain ⟨-, -, hnew, hother⟩ := holds_write h
  rw [entries, hn, halloc, range_succ, map_append, map_singleton, hnew.rnti, hnew.L]
  congr 1
  apply map_congr_left
  intro i hi
  have hne : i ≠ p.Num_common_dci + p.Num_ue_spec_dci := by
    have := mem_range.1 hi
    omega
  rw [hother i hne]

theorem alike_addUeSpecDci (h : p.addUeSpecDci d = some p') :
    Alike (p.trial false d.aggregation d.rnti) p' := by
  obtain ⟨q, hwrite, rfl⟩ := map_eq_some_iff.1 h
  obtain ⟨hcommon, hspec, -, -⟩ := holds_write hwrite
  refine ⟨hcommon.symm, ?_⟩
  rw [entries_trial]
  symm
  apply entries_write hwrite
  · dsimp only
    omega
  · rfl

theorem alike_addCommonDci (hnone : p.Num_ue_spec_dci = 0) (h : p.addCommonDci d = some p') :
    Alike (p.trial true d.aggregation d.rnti) p' := by
  obtain ⟨q, hwrite, rfl⟩ := map_eq_some_iff.1 h
  obtain ⟨hcommon, hspec, -, -⟩ := holds_write hwrite
  have hend : p.Num_common_dci = p.Num_common_dci + p.Num_ue_spec_dci := by omega
  rw [hend] at hwrite
  refine ⟨by simp [trial, hcommon], ?_⟩
  rw [entries_trial]
  symm
  apply entries_write hwrite
  · dsimp only
    omega
  · rfl

theorem alike_test {common : Bool} {agg : Fin 4} {rnti : Nat}
    (h : p.cceAllocationInfeasible get_nCCE_max subframe common agg rnti = some r) :
    Alike p r.2 := by
  obtain ⟨-, -, hcommon, hspec, hkept⟩ := cceAllocationInfeasible_some h
  refine ⟨hcommon.symm, ?_⟩
  rw [entries, entries, hcommon, hspec]
  apply map_congr_left
  intro i hi
  rw [hkept i (mem_range.1 hi)]

theorem Alike.trial (h : Alike p q) (common : Bool) (agg rnti : Nat) :
    Alike (p.trial common agg rnti) (q.trial common agg rnti) := by
  constructor
  · simp only [DciPdu.trial, h.Num_common_dci]
  · rw [entries_trial, entries_trial, h.entries]

end DciPdu

/-! ## Admission is sound -/

namespace Admission

variable {get_nCCE_max : Nat → Nat} {subframe : Nat} {s t : Admission}

/-- The list has its CCEs, and with a DCI that has just been tested it has them too. -/
structure Sound (get_nCCE_max : Nat → Nat) (subframe : Nat) (s : Admission) : Prop where
  feasible : s.pdu.Feasible get_nCCE_max subframe
  fresh : ∀ x ∈ s.fresh, (s.pdu.trial x.common_flag x.aggregation x.rnti).Feasible get_nCCE_max
    subframe

/-- The list, and what was just tested, still have their CCEs. -/
theorem Sound.step {c : DciCall} (h : s.Sound get_nCCE_max subframe) (hc : s.Unchanged c)
    (hstep : s.step get_nCCE_max subframe c = some t) : t.Sound get_nCCE_max subframe := by
  cases c with
  | addCommonDci d =>
    obtain ⟨pdu, hadd, rfl⟩ := map_eq_some_iff.1 hstep
    exact ⟨(h.fresh _ hc.1).alike (DciPdu.alike_addCommonDci hc.2 hadd) true, nofun⟩
  | addUeSpecDci d =>
    obtain ⟨pdu, hadd, rfl⟩ := map_eq_some_iff.1 hstep
    exact ⟨(h.fresh _ hc).alike (DciPdu.alike_addUeSpecDci hadd) true, nofun⟩
  | cceAllocationInfeasible common_flag aggregation rnti =>
    obtain ⟨r, htest, rfl⟩ := map_eq_some_iff.1 hstep
    have halike := DciPdu.alike_test htest
    refine ⟨h.feasible.alike halike true, fun x hx => ?_⟩
    have hx' : (s.pdu.trial x.common_flag x.aggregation x.rnti).Feasible get_nCCE_max subframe := by
      split at hx
      · exact h.fresh x hx
      · rename_i hfound
        rcases mem_cons.1 hx with rfl | hx
        · obtain ⟨-, ⟨q, hq⟩, -⟩ := DciPdu.cceAllocationInfeasible_some htest
          exact ⟨q, by simpa [hfound] using hq⟩
        · exact h.fresh x hx
    exact hx'.alike (halike.trial _ _ _) true

/-- If each DCI is added after a test for it has passed and while the list is as it was then, a
common DCI before all UE-specific ones, then `allocate_CCEs` finds CCEs for all of them at the
end. -/
theorem what_was_admitted_is_allocated (get_nCCE_max : Nat → Nat) (subframe : Nat) (p : DciPdu)
    (calls : List DciCall) (s : Admission)
    (hmeets : Lib.Meets (step get_nCCE_max subframe) (fun s c => s.Tested c ∧
      s.Unchanged c) { pdu := p.clear } calls)
    (hrun : Lib.run (step get_nCCE_max subframe) { pdu := p.clear } calls = some s) :
    ∃ q, s.pdu.allocateCces get_nCCE_max subframe false = some (true, q) := by
  have hsound : s.Sound get_nCCE_max subframe := by
    refine Lib.run_invariant (fun s c t hs hc hstep => hs.step hc.2 hstep) ?_ hmeets hrun
    exact ⟨DciPdu.feasible_clear p, nofun⟩
  exact hsound.feasible.alike ⟨rfl, rfl⟩ false

/-- The response to a preamble and two UEs, in a cell of 25 resource blocks. -/
theorem a_response_and_two_ues_are_admitted :
    ∃ s, Lib.run (step (getNcce 25 1 false 1) 0) { pdu := ({} : DciPdu).clear } DciPdu.aSubframe =
      some s ∧
      s.passed.length = 3 ∧ ∃ q, s.pdu.allocateCces (getNcce 25 1 false 1) 0 false =
        some (true, q) := by
  obtain ⟨s, hrun, hpassed⟩ : ∃ s,
      Lib.run (step (getNcce 25 1 false 1) 0) { pdu := ({} : DciPdu).clear }
      DciPdu.aSubframe = some s ∧ s.passed.length = 3 := Lib.run_decided (by decide +kernel)
  refine ⟨s, hrun, hpassed, ?_⟩
  exact what_was_admitted_is_allocated (getNcce 25 1 false 1) 0 {} DciPdu.aSubframe s
    (by decide +kernel) hrun

/-- The tests of `schedule_ue_spec` for three UEs, and then their DCIs from `fill_DLSCH_dci`. -/
def threeUes : List DciCall :=
  [.cceAllocationInfeasible false 1 0x1111, .cceAllocationInfeasible false 1 0x2222,
    .cceAllocationInfeasible false 1 0x3333, .addUeSpecDci (DciPdu.dciOf 0x1111 1 .format1 false),
    .addUeSpecDci (DciPdu.dciOf 0x2222 1 .format1 false),
    .addUeSpecDci (DciPdu.dciOf 0x3333 1 .format1 false)]

/-- In a cell of 6 resource blocks each of three UEs finds CCEs while no DCI is in the list, but
there are not enough for all three of them. -/
theorem three_tested_ues_do_not_fit :
    Lib.Meets (step (getNcce 6 1 false 1) 1) Tested { pdu := ({} : DciPdu).clear } threeUes ∧
    (Lib.run (step (getNcce 6 1 false 1) 1) { pdu := ({} : DciPdu).clear } threeUes).bind (fun s =>
      (s.pdu.allocateCces (getNcce 6 1 false 1) 1 false).map fun r =>
        (s.pdu.Num_ue_spec_dci, r.1)) = some (3, false) := by
  constructor
  · decide +kernel
  · decide +kernel

end Admission

end MacRlcSplit.Mac
