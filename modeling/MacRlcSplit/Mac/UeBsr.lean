-- The buffer status that the UE keeps for its groups of logical channels: the
-- binary search in `BSR_TABLE` and the loop of `ue_scheduler` that asks RLC for
-- each channel. Queues are added to a group one by one, as bytes and as levels.
import Mathlib.Data.List.GetD
import Mathlib.Order.Nat
import MacRlcSplit.Mac.Enb

namespace MacRlcSplit.Mac

open Function List

/-! ## Buffer status -/

def MAX_NUM_LCGID : Nat := 4

/-- `UE_SCHEDULING_INFO`. The code uses `LCID_status` and `LCGID` up to `NB_RB_MAX`, beyond their 11
entries. -/
structure SchedulingInfo where
  /-- `LCID_NOT_EMPTY`. -/
  LCID_status : Nat → Bool
  LCGID : Nat → Nat
  BSR : Lcgid → Nat
  BSR_bytes : Lcgid → Nat

/-- The search in `BSR_TABLE`, which ascends. -/
def locateFrom (value : Nat) : (steps jl ju : Nat) → Nat
  | 0, jl, _ => jl
  | steps + 1, jl, ju =>
    if ju - jl > 1 then
      let jm := (ju + jl) / 2
      if value ≥ BSR_TABLE.getD jm 0 then locateFrom value steps jm ju else locateFrom value steps
        jl jm
    else
      jl

def locate (value : Nat) : Nat :=
  if value = 0 then 0
  else
    let jl := locateFrom value 64 0 63
    if value = BSR_TABLE.getD jl 0 then jl else jl + 1

namespace SchedulingInfo

variable (info : SchedulingInfo)

/-- `update_bsr`, with what RLC still has for the LCID. -/
def updateBsr (lcid lcg_id bytes_in_buffer : Nat) : SchedulingInfo :=
  if h : lcg_id < MAX_NUM_LCGID then
    let lcgid : Lcgid := ⟨lcg_id, h⟩
    let info := if lcid = DCCH ∨ lcid = DTCH then
        { info with BSR := update info.BSR lcgid 0, BSR_bytes := update info.BSR_bytes lcgid 0 }
      else info
    if info.LCGID lcid = lcg_id then
      if bytes_in_buffer > 0 then
        { info with
          LCID_status := update info.LCID_status lcid true
          BSR := update info.BSR lcgid ((info.BSR lcgid + locate bytes_in_buffer) % 256)
          BSR_bytes :=
            update info.BSR_bytes lcgid ((info.BSR_bytes lcgid + bytes_in_buffer) % 2 ^ 16) }
      else { info with LCID_status := update info.LCID_status lcid false }
    else info
  else info

end SchedulingInfo

/-! ## Levels -/

/-- The smallest index whose entry is at least so many bytes, 63 above the table. -/
def bsrLevel (bytes : Nat) : Nat := min 63 (BSR_TABLE.findIdx fun entry => decide (bytes ≤ entry))

theorem table_ascends {i j : Nat} (hij : i < j)
    (hj : j < 64) : BSR_TABLE.getD i 0 < BSR_TABLE.getD j 0 := by
  have hpairwise : BSR_TABLE.Pairwise (· < ·) := by decide
  have hlength : BSR_TABLE.length = 64 := rfl
  rw [getD_eq_getElem _ _ (by omega), getD_eq_getElem _ _ (by omega)]
  exact pairwise_iff_getElem.1 hpairwise i j (by omega) (by omega) hij

theorem bsrLevel_eq {bytes i : Nat} (hi : i < 64) (hbelow : ∀ j < i, BSR_TABLE.getD j 0 < bytes)
    (habove : bytes ≤ BSR_TABLE.getD i 0 ∨ i = 63) : bsrLevel bytes = i := by
  have hlength : BSR_TABLE.length = 64 := rfl
  have hnot : i ≤ BSR_TABLE.findIdx fun entry => decide (bytes ≤ entry) := by
    apply le_findIdx_of_not (by omega)
    intro j hj
    have hlt := hbelow j hj
    rw [getD_eq_getElem _ _ (by omega)] at hlt
    simpa using hlt
  unfold bsrLevel
  obtain hle | rfl := habove
  · rw [getD_eq_getElem _ _ (by omega)] at hle
    have hfound : (BSR_TABLE.findIdx fun entry => decide (bytes ≤ entry)) ≤ i := by
      by_contra hlt
      have := not_of_lt_findIdx (Nat.lt_of_not_le hlt)
      simp at this
      omega
    omega
  · omega

/-- The search ends at the last entry that is not above the value, or next to one of its bounds. -/
theorem locateFrom_between (value steps : Nat) {jl ju : Nat} (hlt : jl < ju)
    (hsteps : ju ≤ jl + steps + 1) :
    jl ≤ locateFrom value steps jl ju ∧ locateFrom value steps jl ju < ju ∧
      (locateFrom value steps jl ju = jl ∨ BSR_TABLE.getD (locateFrom value steps jl ju) 0 ≤
        value) ∧
      (locateFrom value steps jl ju + 1 = ju ∨ value <
        BSR_TABLE.getD (locateFrom value steps jl ju + 1) 0) := by
  induction steps generalizing jl ju with
  | zero => exact ⟨le_rfl, hlt, .inl rfl, .inl (by simp [locateFrom]; omega)⟩
  | succ steps ih =>
    unfold locateFrom
    by_cases hmore : ju - jl > 1
    · rw [if_pos hmore]
      dsimp only
      split
      · rename_i hvalue
        have hmid : (ju + jl) / 2 < ju := by omega
        obtain ⟨hle, hlt', hat, hnext⟩ := ih hmid (by omega)
        refine ⟨by omega, hlt', .inr ?_, hnext⟩
        obtain hat | hat := hat
        · rw [hat]
          exact hvalue
        · exact hat
      · rename_i hvalue
        have hmid : jl < (ju + jl) / 2 := by omega
        obtain ⟨hle, hlt', hat, hnext⟩ := ih hmid (by omega)
        refine ⟨hle, by omega, hat, .inr ?_⟩
        obtain hnext | hnext := hnext
        · rw [hnext]
          omega
        · exact hnext
    · rw [if_neg hmore]
      exact ⟨le_rfl, hlt, .inl rfl, .inl (by omega)⟩

theorem locate_eq_bsrLevel (value : Nat) : locate value = bsrLevel value := by
  unfold locate
  split
  · rename_i hzero
    subst hzero
    decide
  rename_i hpos
  obtain ⟨-, hlt, hat, hnext⟩ := locateFrom_between value 64 (show 0 < 63 by omega) (by omega)
  dsimp only
  generalize locateFrom value 64 0 63 = jl at hlt hat hnext ⊢
  have hle : BSR_TABLE.getD jl 0 ≤ value := by
    obtain rfl | hat := hat
    · exact Nat.zero_le _
    · exact hat
  split
  · rename_i heq
    refine (bsrLevel_eq (by omega) (fun j hj => ?_) (.inl (Nat.le_of_eq heq))).symm
    exact heq ▸ table_ascends hj (by omega)
  · rename_i hne
    refine (bsrLevel_eq (by omega) (fun j hj => ?_) ?_).symm
    · obtain rfl | hj : j = jl ∨ j < jl := by omega
      · omega
      · exact lt_of_lt_of_le (table_ascends hj (by omega)) hle
    · obtain hnext | hnext := hnext
      · exact .inr hnext
      · exact .inl (le_of_lt hnext)

theorem bsrLevel_zero : bsrLevel 0 = 0 := by decide

theorem bsrLevel_le (bytes : Nat) : bsrLevel bytes ≤ 63 := min_le_left _ _

theorem bsrLevel_pos {bytes : Nat} (h : 0 < bytes) : bsrLevel bytes ≠ 0 := by
  intro hzero
  unfold bsrLevel at hzero
  have hfound : (BSR_TABLE.findIdx fun entry => decide (bytes ≤ entry)) = 0 := by omega
  have := (findIdx_eq (show 0 < BSR_TABLE.length by decide)).1 hfound
  simp [BSR_TABLE] at this
  omega

/-! ## The loop -/

/-- What RLC has for the channels that are configured. -/
structure RlcQueues where
  configured : Nat → Bool
  bytes_in_buffer : Nat → Nat

namespace SchedulingInfo

variable (q : RlcQueues) (info : SchedulingInfo) (g : Lcgid)

/-- A channel in the loop of `ue_scheduler`, with what RLC has for it. -/
def bsrTurn (lcid : Nat) : SchedulingInfo :=
  if q.configured lcid then info.updateBsr lcid (info.LCGID lcid) (q.bytes_in_buffer lcid) else info

/-- The loop. -/
def updateBsrs : SchedulingInfo :=
  [DCCH, DCCH1, DTCH].foldl (bsrTurn q) info

/-- A channel belongs to the group. -/
def In (lcid : Nat) : Prop := q.configured lcid = true ∧ info.LCGID lcid = g

instance (lcid : Nat) : Decidable (info.In q g lcid) := inferInstanceAs (Decidable (_ ∧ _))

/-- What RLC has for a channel of the group. -/
def queue (lcid : Nat) : Nat := if info.In q g lcid then q.bytes_in_buffer lcid else 0

/-- The total of the group. -/
def total : Nat := ([DCCH, DCCH1, DTCH].map (info.queue q g)).sum

/-- The fields of the group are within their types. -/
structure InTypes : Prop where
  BSR : info.BSR g < 256
  BSR_bytes : info.BSR_bytes g < 2 ^ 16

/-- The status of the group is that of its total. -/
structure Reports (info' : SchedulingInfo) : Prop where
  BSR_bytes : info'.BSR_bytes g = info.total q g
  BSR : info'.BSR g = bsrLevel (info.total q g)
  data : 0 < info.total q g → info'.BSR g ≠ 0

/-- The total has 16 bits. If the DTCH is in the group, the other channels of the group are empty.
If only DCCHs are in it, the levels of the two add up. If nothing resets the group, nothing is left
in it. -/
def Adds : Prop :=
  info.total q g < 2 ^ 16 ∧
    if info.In q g DTCH then info.queue q g DCCH = 0 ∧ info.queue q g DCCH1 = 0
    else if info.In q g DCCH then
      bsrLevel (info.queue q g DCCH) + bsrLevel (info.queue q g DCCH1) =
        bsrLevel (info.queue q g DCCH + info.queue q g DCCH1)
    else info.BSR g = 0 ∧ info.BSR_bytes g = 0

variable {q info g}

@[simp]
theorem bsrTurn_LCGID (lcid : Nat) : (info.bsrTurn q lcid).LCGID = info.LCGID := by
  unfold bsrTurn updateBsr
  dsimp only
  split_ifs <;> rfl

theorem bsrTurn_In (lcid lcid' : Nat) : (info.bsrTurn q lcid).In q g lcid' ↔ info.In q g lcid' := by
  simp only [In, bsrTurn_LCGID]

/-- A channel of another group changes nothing. -/
theorem bsrTurn_other {lcid : Nat} (h : ¬info.In q g lcid) :
    (info.bsrTurn q lcid).BSR g = info.BSR g ∧ (info.bsrTurn q lcid).BSR_bytes g =
      info.BSR_bytes g := by
  unfold bsrTurn
  by_cases hconf : q.configured lcid
  · have hne : ∀ hlt : info.LCGID lcid < MAX_NUM_LCGID, g ≠ ⟨info.LCGID lcid, hlt⟩ := by
      rintro hlt rfl
      exact h ⟨hconf, rfl⟩
    rw [if_pos hconf]
    unfold updateBsr
    split
    · rename_i hlt
      dsimp only
      split_ifs <;> simp [update_of_ne (hne hlt)]
    · exact ⟨rfl, rfl⟩
  · rw [if_neg hconf]
    exact ⟨rfl, rfl⟩

theorem queue_of_not_in {lcid : Nat} (h : ¬info.In q g lcid) : info.queue q g lcid = 0 := if_neg h

/-- A turn adds the queue that the channel has for the group, after a reset if it is the DCCH or the
DTCH. -/
theorem bsrTurn_adds (htypes : info.InTypes g) (lcid : Nat) :
    (info.bsrTurn q lcid).BSR g =
        ((if info.In q g lcid ∧ (lcid = DCCH ∨ lcid = DTCH) then 0 else info.BSR g) +
          bsrLevel (info.queue q g lcid)) % 256 ∧
      (info.bsrTurn q lcid).BSR_bytes g =
        ((if info.In q g lcid ∧ (lcid = DCCH ∨ lcid = DTCH) then 0 else info.BSR_bytes g) +
          info.queue q g lcid) % 2 ^ 16 := by
  have hBSR := Nat.mod_eq_of_lt htypes.BSR
  have hbytes := Nat.mod_eq_of_lt htypes.BSR_bytes
  by_cases h : info.In q g lcid
  · have hlt : info.LCGID lcid < MAX_NUM_LCGID := h.2 ▸ g.isLt
    have hgroup : (⟨info.LCGID lcid, hlt⟩ : Lcgid) = g := Fin.ext h.2
    rw [queue, if_pos h, bsrTurn, if_pos h.1, updateBsr, dif_pos hlt, hgroup]
    simp only [h, true_and]
    by_cases hempty : q.bytes_in_buffer lcid = 0
    · rw [hempty, bsrLevel_zero]
      split_ifs <;> simp_all
      omega
    · have hpos : q.bytes_in_buffer lcid > 0 := Nat.pos_of_ne_zero hempty
      split_ifs <;> simp_all [locate_eq_bsrLevel]
  · rw [queue_of_not_in h, bsrLevel_zero, (bsrTurn_other h).1, (bsrTurn_other h).2]
    simp only [h, false_and, if_false, Nat.add_zero, hBSR, hbytes, and_self]

theorem InTypes.bsrTurn (htypes : info.InTypes g)
    (lcid : Nat) : (info.bsrTurn q lcid).InTypes g := by
  obtain ⟨hBSR, hbytes⟩ := bsrTurn_adds (q := q) htypes lcid
  exact ⟨hBSR ▸ Nat.mod_lt _ (by decide), hbytes ▸ Nat.mod_lt _ (by decide)⟩

theorem bsrTurn_queue (lcid lcid' : Nat) : (info.bsrTurn q lcid).queue q g lcid' =
    info.queue q g lcid' := by
  simp only [queue, bsrTurn_In]

/-- What the loop leaves in a group. -/
theorem updateBsrs_adds (q : RlcQueues) (htypes : info.InTypes g) :
    (info.updateBsrs q).BSR g =
        ((if info.In q g DTCH then 0
          else (if info.In q g DCCH then 0 else info.BSR g) + bsrLevel (info.queue q g DCCH) +
            bsrLevel (info.queue q g DCCH1)) + bsrLevel (info.queue q g DTCH)) % 256 ∧
      (info.updateBsrs q).BSR_bytes g =
        ((if info.In q g DTCH then 0
          else (if info.In q g DCCH then 0 else info.BSR_bytes g) + info.queue q g DCCH +
            info.queue q g DCCH1) +
          info.queue q g DTCH) % 2 ^ 16 := by
  have htypes1 : (info.bsrTurn q DCCH).InTypes g := htypes.bsrTurn DCCH
  have htypes2 : ((info.bsrTurn q DCCH).bsrTurn q DCCH1).InTypes g := htypes1.bsrTurn DCCH1
  have hDCCH1 : ¬(DCCH1 = DCCH ∨ DCCH1 = DTCH) := by decide
  simp only [updateBsrs, foldl_cons, foldl_nil]
  rw [(bsrTurn_adds htypes2 DTCH).1, (bsrTurn_adds htypes2 DTCH).2, (bsrTurn_adds htypes1 DCCH1).1,
    (bsrTurn_adds htypes1 DCCH1).2, (bsrTurn_adds htypes DCCH).1, (bsrTurn_adds htypes DCCH).2]
  simp only [bsrTurn_queue, bsrTurn_In, hDCCH1, true_or, or_true, and_true, and_false, if_false]
  constructor
  all_goals split_ifs <;> omega

theorem total_eq : info.total q g = info.queue q g DCCH + info.queue q g DCCH1 +
    info.queue q g DTCH := by
  simp [total, add_assoc]

end SchedulingInfo

open SchedulingInfo in
/-- After the loop a group has the status of its total exactly if its channels can be added one by
one. -/
theorem the_status_is_that_of_the_total_iff (q : RlcQueues) (info : SchedulingInfo) (g : Lcgid)
    (htypes : info.InTypes g) : info.Reports q g (info.updateBsrs q) ↔ info.Adds q g := by
  obtain ⟨hBSR, hbytes⟩ := updateBsrs_adds q htypes
  have hdata : info.Reports q g (info.updateBsrs q) ↔
      (info.updateBsrs q).BSR_bytes g = info.total q g ∧ (info.updateBsrs q).BSR g =
        bsrLevel (info.total q g) :=
    ⟨fun h => ⟨h.BSR_bytes, h.BSR⟩, fun h => ⟨h.1, h.2, fun hpos => h.2 ▸ bsrLevel_pos hpos⟩⟩
  rw [hdata, hBSR, hbytes, Adds, total_eq]
  have h1 := bsrLevel_le (info.queue q g DCCH)
  have h2 := bsrLevel_le (info.queue q g DCCH1)
  have h3 := bsrLevel_le (info.queue q g DTCH)
  have hBSR := htypes.BSR
  have hbytes := htypes.BSR_bytes
  by_cases hDTCH : info.In q g DTCH
  · simp only [if_pos hDTCH]
    constructor
    · intro h
      omega
    · rintro ⟨hsum, hfirst, hsecond⟩
      rw [hfirst, hsecond] at hsum ⊢
      simp only [zero_add] at hsum ⊢
      omega
  · rw [queue_of_not_in hDTCH, bsrLevel_zero]
    simp only [if_neg hDTCH, add_zero]
    by_cases hDCCH : info.In q g DCCH
    · simp only [if_pos hDCCH]
      omega
    · rw [queue_of_not_in hDCCH, bsrLevel_zero]
      simp only [if_neg hDCCH, zero_add, add_zero]
      omega

namespace SchedulingInfo

/-- The groups of the channels, with nothing in them. -/
def ofGroups (LCGID : Nat → Nat) : SchedulingInfo where
  LCID_status := fun _ => false
  LCGID := LCGID
  BSR := fun _ => 0
  BSR_bytes := fun _ => 0

theorem the_status_of_a_bearer :
    (ofGroups fun lcid => if lcid = DTCH then 1 else 0).Reports ⟨fun _ => true,
      fun lcid => if lcid = DTCH then 3000 else 0⟩
      1 ((ofGroups fun lcid => if lcid = DTCH then 1 else 0).updateBsrs
        ⟨fun _ => true, fun lcid => if lcid = DTCH then 3000 else 0⟩) :=
  (the_status_is_that_of_the_total_iff ⟨fun _ => true, _⟩ (ofGroups _) 1 ⟨by decide, by decide⟩).2
    ⟨by decide, by decide⟩

/-- With a DCCH and the DTCH in one group, 100 bytes for the DCCH are forgotten. With one byte for
each DCCH of a group the level is 2, and 1 would do. Of 65536 bytes of a bearer none is counted. -/
theorem the_status_is_not_that_of_the_total :
    ((ofGroups fun _ => 1).updateBsrs ⟨fun _ => true, fun lcid =>
      if lcid = DCCH then 100 else 0⟩).BSR 1 = 0 ∧
    ((ofGroups fun lcid => if lcid = DTCH then 1 else 0).updateBsrs
      ⟨fun _ => true, fun lcid => if lcid = DTCH then 65536 else 1⟩).BSR_bytes 1 = 0 ∧
    ((ofGroups fun lcid => if lcid = DTCH then 1 else 0).updateBsrs
      ⟨fun _ => true, fun lcid => if lcid = DTCH then 65536 else 1⟩).BSR 0 = 2 ∧
      bsrLevel (1 + 1) = 1 := by
  decide +kernel

end SchedulingInfo

end MacRlcSplit.Mac
