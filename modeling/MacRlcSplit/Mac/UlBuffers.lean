-- What the eNB knows of the data that a UE holds: the bytes of each logical
-- channel group, and their total. Reports, SDUs and grants change them in
-- their own ways, so that the total is not always that of the groups.
import Mathlib.Data.Nat.Basic
import MacRlcSplit.Mac.RandomAccess

namespace MacRlcSplit.Mac

open Lib Function

/-! ## Sizes of grants -/

def rb_table : List Nat :=
  [1, 2, 3, 4, 5, 6, 8, 9, 10, 12, 15, 16, 18, 20, 24, 25, 27, 30, 32, 36, 40, 45, 48, 50, 54, 60,
    72, 75, 80, 81, 90, 96, 100]

/-- An index of `rb_table`. -/
abbrev RbIndex := Fin 33

def RbIndex.nbRb (i : RbIndex) : Nat := rb_table.getD i.val 0

/-- The last index at or below `i` whose size is left, and is not above 45; the first one is not
looked at. -/
def shrink (N_RB_UL first_rb : Nat) : (i : Nat) → i < 33 → RbIndex
  | 0, _ => 0
  | i + 1, h =>
    let index : RbIndex := ⟨i + 1, h⟩
    if (index.nbRb : Int) > N_RB_UL - 1 - first_rb ∨ index.nbRb > 45 then
      shrink N_RB_UL first_rb i (Nat.lt_of_succ_lt h)
    else
      index

/-- What the scheduler takes from the physical layer and the configuration. -/
structure UlCell where
  /-- By component carrier. -/
  N_RB_UL : Nat → Nat
  /-- By MCS and size. -/
  get_TBS_UL : Nat → Nat → Nat

/-- A range of resource blocks. -/
structure Rbs where
  first : Nat
  nb : Nat
deriving DecidableEq

/-- A UE on one of its carriers. -/
abbrev UePair := Nat × Nat

/-- The eNB with what its uplink scheduler keeps. -/
structure UlEnb extends RaEnb where
  ul_SR : UePair → Bool := fun _ => false
  pre_assigned_mcs_ul : UePair → Nat := fun _ => 0
  /-- None for -1. -/
  pre_allocated_rb_table_index_ul : UePair → Option RbIndex := fun _ => none
  /-- The resource blocks that a HARQ process was last granted: it uses them again when it
  retransmits. -/
  granted : UePair → Fin 8 → Rbs := fun _ _ => ⟨0, 0⟩
  /-- By component carrier. -/
  first_rb : Nat → Nat := fun _ => 1

namespace UlEnb

variable (cell : UlCell) (s : UlEnb)

def grantSize (x : UePair) : RbIndex :=
  let i := (s.pre_allocated_rb_table_index_ul x).getD 5
  shrink (cell.N_RB_UL x.2) (s.first_rb x.2) i.val i.isLt

def grantMcs (x : UePair) : Nat :=
  if (s.pre_allocated_rb_table_index_ul x).isSome then s.pre_assigned_mcs_ul x else 10

def grantRbs (x : UePair) : Rbs := ⟨s.first_rb x.2, (s.grantSize cell x).nbRb⟩

/-- A new transmission: it takes the resource blocks from `first_rb` on. -/
def newTransmission (x : UePair) (harq_pid : Fin 8) : UlEnb :=
  let rbs := s.grantRbs cell x
  let TBS := cell.get_TBS_UL (s.grantMcs x) rbs.nb
  { s with
    enb := (s.enb.modifyCtrl x.1 fun ctrl =>
      { ctrl with ul_scheduled := ctrl.ul_scheduled ||| (1 <<< harq_pid.val) }).modifyTemplate
      x.2 x.1 fun t => { t with ul_total_buffer := t.ul_total_buffer - TBS }
    ul_SR := update s.ul_SR x false
    first_rb := update s.first_rb x.2 (s.first_rb x.2 + rbs.nb)
    granted := update s.granted x (update (s.granted x) harq_pid rbs) }

end UlEnb

/-! ## Events -/

/-- What happens to one UE. A truncated BSR is handled as a short one. -/
inductive BufferEvent where
  | shortBsr (frame : Nat) (lcgid : Lcgid) (level : Fin 64)
  | longBsr (frame : Nat) (levels : Lcgid → Fin 64)
  | sdu (lcid length : Nat)
  | grant (harq_pid : Fin 8)

variable (cell : UlCell) (x : UePair)

def bufferStep (s : UlEnb) : BufferEvent → Option UlEnb
  | .shortBsr frame lcgid level =>
    some { s with enb := s.enb.modifyTemplate x.2 x.1 fun t => t.shortBsr frame lcgid level }
  | .longBsr frame levels =>
    some { s with
      enb := s.enb.modifyTemplate x.2 x.1 fun t => t.longBsr frame fun lcgid => levels lcgid }
  | .sdu lcid length =>
    (RxRun.adjustBuffer s.enb x.2 x.1 lcid length).map fun enb => { s with enb := enb }
  | .grant harq_pid => some (s.newTransmission cell x harq_pid)

def UlEnb.template (s : UlEnb) : UeTemplate := s.enb.UE_template x.2 x.1

/-! ## The total -/

def UeTemplate.groups (t : UeTemplate) : Nat :=
  t.ul_buffer_info 0 + t.ul_buffer_info 1 + t.ul_buffer_info 2 + t.ul_buffer_info 3

/-- No group has more than the highest level, and the total is a `uint32_t`. -/
structure InRange (t : UeTemplate) : Prop where
  info : ∀ lcgid, t.ul_buffer_info lcgid ≤ 300000
  total : t.ul_total_buffer < 2 ^ 32

theorem level_le (level : Fin 64) : BSR_TABLE.getD level 0 ≤ 300000 := by
  revert level
  decide +kernel

theorem level_eq_zero (level : Fin 64) : BSR_TABLE.getD level 0 = 0 ↔ level = 0 := by
  revert level
  decide +kernel

/-- One group of a long BSR: `B` has been reported so far, `b` is reported now in place of `o`, and
the groups that follow hold `O`. -/
theorem group_iff {T b o B O : Nat} {p : Prop} (hT : T < 2 ^ 32) (hb : b ≤ 300000) (ho : o ≤ 300000)
    (hB : B ≤ 900000) (hO : O ≤ 900000) :
    ((T + b) % 2 ^ 32 - o = B + b + O ∨ (T + b) % 2 ^ 32 - o ≤ O ∧ B + b = 0 ∧ p) ↔
      T = B + (o + O) ∨ T ≤ o + O ∧ B = 0 ∧ b = 0 ∧ (O = 0 ∨ p) := by
  by_cases hp : p
  · simp only [hp, and_true, or_true]
    omega
  · simp only [hp, and_false, or_false]
    omega

/-- A report can be taken: for a short one the other groups hold nothing. Before a long one the
total is that of the groups, or it is too small and is lost: up to some group nothing is reported,
and the groups behind hold nothing. -/
def BsrFits (t : UeTemplate) : BufferEvent → Prop
  | .shortBsr _ lcgid _ => ∀ other, other ≠ lcgid → t.ul_buffer_info other = 0
  | .longBsr _ levels => t.ul_total_buffer = t.groups ∨ t.ul_total_buffer ≤ t.groups ∧
    ∃ i, ∀ j, (j ≤ i → levels j = 0) ∧ (i < j → t.ul_buffer_info j = 0)
  | _ => True

variable {t : UeTemplate}

theorem shortBsr_right_iff (frame : Nat) (lcgid : Lcgid) (level : Nat) :
    (t.shortBsr frame lcgid level).ul_total_buffer = (t.shortBsr frame lcgid level).groups ↔
      ∀ other ≠ lcgid, t.ul_buffer_info other = 0 := by
  simp only [UeTemplate.shortBsr, UeTemplate.groups, Fin.forall_fin_succ]
  match lcgid with
  | 0 | 1 | 2 | 3 => simp [Function.update]; omega

theorem updateBuffer_total (t : UeTemplate) (lcgid : Lcgid) :
    (t.updateBuffer lcgid).ul_total_buffer =
    (t.ul_total_buffer + BSR_TABLE.getD (t.bsr_info lcgid) 0) % 2 ^ 32 - t.ul_buffer_info
      lcgid := by
  unfold UeTemplate.updateBuffer
  dsimp only
  split <;> omega

theorem longBsr_info (t : UeTemplate) (frame : Nat) (levels : Lcgid → Nat) (lcgid : Lcgid) :
    (t.longBsr frame levels).ul_buffer_info lcgid = BSR_TABLE.getD (levels lcgid) 0 := by
  match lcgid with
  | 0 | 1 | 2 | 3 => rfl

theorem longBsr_total (t : UeTemplate) (frame : Nat) (levels : Lcgid → Nat) :
    (t.longBsr frame levels).ul_total_buffer =
      ((((t.ul_total_buffer + BSR_TABLE.getD (levels 0) 0) % 2 ^ 32 - t.ul_buffer_info 0 +
        BSR_TABLE.getD (levels 1) 0) % 2 ^ 32 - t.ul_buffer_info 1 +
        BSR_TABLE.getD (levels 2) 0) % 2 ^ 32 - t.ul_buffer_info 2 +
        BSR_TABLE.getD (levels 3) 0) % 2 ^ 32 - t.ul_buffer_info 3 := by
  simp only [UeTemplate.longBsr, updateBuffer_total]
  rfl

theorem longBsr_right_iff (inRange : InRange t) (frame : Nat) (levels : Lcgid → Fin 64) :
    (t.longBsr frame fun lcgid => levels lcgid).ul_total_buffer =
      (t.longBsr frame fun lcgid => levels lcgid).groups ↔ BsrFits t (.longBsr frame levels) := by
  have h0 := level_le (levels 0)
  have h1 := level_le (levels 1)
  have h2 := level_le (levels 2)
  have o1 := inRange.info 1
  have o2 := inRange.info 2
  have o3 := inRange.info 3
  have hsplit : (∃ i, ∀ j, (j ≤ i → levels j = 0) ∧ (i < j → t.ul_buffer_info j = 0)) ↔
      levels 0 = 0 ∧ (t.ul_buffer_info 1 + (t.ul_buffer_info 2 + (t.ul_buffer_info 3 + 0)) = 0 ∨
        levels 1 = 0 ∧ (t.ul_buffer_info 2 + (t.ul_buffer_info 3 + 0) = 0 ∨ levels 2 = 0 ∧
          (t.ul_buffer_info 3 + 0 = 0 ∨ levels 3 = 0 ∧ (0 = 0 ∨ False)))) := by
    simp only [Fin.exists_fin_succ, Fin.forall_fin_succ]
    simp
    tauto
  have hlast : ∀ a b : Nat, a = b ↔ a = b + 0 ∨ a ≤ 0 ∧ b = 0 ∧ False := by simp
  have hgroups : (t.longBsr frame fun lcgid => levels lcgid).groups =
      0 + BSR_TABLE.getD (levels 0) 0 +
      BSR_TABLE.getD (levels 1) 0 + BSR_TABLE.getD (levels 2) 0 + BSR_TABLE.getD (levels 3) 0 := by
    simp only [UeTemplate.groups, longBsr_info, zero_add]
  rw [longBsr_total, hgroups, hlast, group_iff (by omega) (level_le _) o3 (by omega) (by omega),
    group_iff (by omega) h2 o2 (by omega) (by omega),
    group_iff (by omega) h1 o1 (by omega) (by omega),
    group_iff inRange.total h0 (inRange.info 0) (by omega) (by omega)]
  simp only [BsrFits, hsplit, level_eq_zero, UeTemplate.groups, zero_add, add_zero, add_assoc,
    true_and]

/-! ## Runs -/

/-- Right after a BSR the total is that of the groups. -/
def RightAfter (s : UlEnb) (e : BufferEvent) : Prop := ∀ s' ∈ bufferStep cell x s e,
  match e with
  | .shortBsr .. | .longBsr .. => (s'.template x).ul_total_buffer = (s'.template x).groups
  | _ => True

variable {x} {s s' : UlEnb} {e : BufferEvent}

theorem template_after (s : UlEnb) (f : UeTemplate → UeTemplate) :
    UlEnb.template x { s with enb := s.enb.modifyTemplate x.2 x.1 f } = f (s.template x) := by
  simp [UlEnb.template, Enb.modifyTemplate]

theorem fits_iff_rightAfter (inRange : InRange (s.template x)) : BsrFits (s.template x) e ↔
    RightAfter cell x s e := by
  cases e with
  | shortBsr frame lcgid level =>
    simp only [RightAfter, bufferStep, Option.mem_some_iff, forall_eq', template_after,
      shortBsr_right_iff, BsrFits]
  | longBsr frame levels =>
    simp only [RightAfter, bufferStep, Option.mem_some_iff, forall_eq', template_after,
      longBsr_right_iff inRange]
  | sdu | grant => exact iff_of_true trivial fun _ _ => trivial

theorem inRange_step (inRange : InRange (s.template x))
    (hstep : bufferStep cell x s e = some s') : InRange (s'.template x) := by
  cases e with
  | shortBsr frame lcgid level =>
    cases hstep
    rw [template_after]
    have hlevel := level_le level
    refine ⟨fun other => ?_, lt_of_le_of_lt hlevel (by decide)⟩
    simp only [UeTemplate.shortBsr, Function.update_apply]
    split
    · exact hlevel
    · exact inRange.info other
  | longBsr frame levels =>
    cases hstep
    rw [template_after]
    refine ⟨fun lcgid => ?_, ?_⟩
    · rw [longBsr_info]
      exact level_le _
    · rw [longBsr_total]
      omega
  | sdu lcid length =>
    obtain ⟨enb, hadjust, rfl⟩ := Option.map_eq_some_iff.1 hstep
    unfold RxRun.adjustBuffer at hadjust
    split at hadjust
    · cases hadjust
      rw [template_after]
      refine ⟨fun lcgid => ?_, inRange.total⟩
      have hinfo := inRange.info lcgid
      simp only [Function.update_apply]
      split
      · next h =>
        subst h
        split <;> omega
      · exact hinfo
    · cases hadjust
  | grant harq_pid =>
    cases hstep
    have hgrant : (s.newTransmission cell x harq_pid).template x =
        { s.template x with
          ul_total_buffer := (s.template x).ul_total_buffer - cell.get_TBS_UL (s.grantMcs x)
            (s.grantRbs cell x).nb } := by
      simp [UlEnb.template, UlEnb.newTransmission, Enb.modifyTemplate, Enb.modifyCtrl]
    rw [hgrant]
    exact ⟨inRange.info, lt_of_le_of_lt (Nat.sub_le ..) inRange.total⟩

/-- For every sequence of reports, SDUs and grants: the total is right after each BSR if and only if
each BSR can be taken. -/
theorem the_total_is_right_iff (inRange : InRange (s.template x)) (es : List BufferEvent) :
    Meets (bufferStep cell x) (RightAfter cell x) s es ↔
      Meets (bufferStep cell x) (fun s e => BsrFits (s.template x) e) s es :=
  (meets_iff (fun _ _ => fits_iff_rightAfter cell)
    (fun _ _ _ inRange _ => inRange_step cell inRange) inRange).symm

def wideCell : UlCell where
  N_RB_UL _ := 25
  get_TBS_UL mcs nb := mcs * nb

/-- A cell whose UEs have reported nothing. -/
def quietCell : UlEnb where
  enb :=
    { UE_list := [0, 1, 2]
      avail := []
      pCC_id := fun _ => 0
      UE_template := fun _ _ => {}
      UE_sched_ctrl := fun _ => {}
      eNB_UE_stats := fun _ _ => {}
      RA_template := fun _ _ => {}
      Is_rrc_registered := true }

theorem quietCell_inRange : InRange (quietCell.template (0, 0)) := ⟨by decide, by decide⟩

theorem two_reports_are_right :
    Meets (bufferStep wideCell (0, 0)) (RightAfter wideCell (0, 0)) quietCell [.shortBsr 1 2 7,
      .sdu 3 5, .shortBsr 2 2 9] := by
  rw [the_total_is_right_iff wideCell quietCell_inRange]
  refine ⟨by unfold BsrFits; decide, ?_⟩
  rintro _ ⟨⟩
  refine ⟨trivial, ?_⟩
  rintro _ ⟨⟩
  exact ⟨by unfold BsrFits; decide +kernel, fun _ _ => trivial⟩

/-- Two groups hold 19 bytes each, and a short BSR with 14 bytes for one of them makes that the
total. -/
theorem a_short_bsr_forgets_a_group :
    ¬ Meets (bufferStep wideCell (0, 0)) (RightAfter wideCell (0, 0)) quietCell
    [.longBsr 1 fun lcgid => if lcgid < 2 then 5 else 0, .shortBsr 2 0 3] := by
  rintro ⟨-, h⟩
  exact absurd ((h _ rfl).1 _ rfl) (by decide +kernel)

end MacRlcSplit.Mac
