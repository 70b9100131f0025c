-- RNTIs. `initiate_ra_proc` takes whatever `taus` gives as temporary C-RNTI. If
-- the values drawn are valid and all different, and a Msg3 names no other RNTI,
-- every RNTI stands for one UE, and for one process at most.
import Mathlib.Data.List.Induction
import MacRlcSplit.Mac.Msg3

namespace MacRlcSplit.Mac

open Am List

namespace RaEnb

variable {n : Nat} {s t : RaEnb}

/-! ## Processes after a change -/

variable {x : RaSlot} {rnti CC_id : Nat}

theorem mem_slots {n : Nat} : x ∈ slots n ↔ x.1 < n := by
  simp only [slots, mem_flatMap, mem_range, mem_map, mem_finRange, true_and]
  constructor
  · rintro ⟨c, hc, i, rfl⟩
    exact hc
  · intro hx
    exact ⟨x.1, hx, x.2, rfl⟩

theorem template_modify (s : RaEnb) (x y : RaSlot) (f : RaTemplate → RaTemplate)
    (g : RaFields → RaFields) :
    (s.modify x f g).template y = if y = x then f (s.template x) else s.template y := by
  simp only [template, modify, Enb.modifyRa, Prod.ext_iff]
  split
  · rename_i hxy
    rw [hxy.1, hxy.2]
  · rfl

theorem template_start (s : RaEnb) (x y : RaSlot) (preamble : Nat) (offset : Int)
    (RA_rnti rnti : Nat) : (s.start x preamble offset RA_rnti rnti).template y =
      if y = x then startTemplate rnti (s.template x) else s.template y := by
  rw [← template_modify s x y (startTemplate rnti) id]
  rfl

theorem template_sendMsg4 (s : RaEnb) (x y : RaSlot) : (s.sendMsg4 x).template y = if y = x then
      { s.template x with generate_Msg4 := false, wait_ack_Msg4 := true, RA_active :=
        false } else s.template y := by
  have h := template_modify s x y
    (fun ra => { ra with generate_Msg4 := false, wait_ack_Msg4 := true, RA_active := false }) id
  exact h

theorem template_ackMsg4 (s : RaEnb) (x y : RaSlot)
    (UE_id : Nat) : (s.ackMsg4 x UE_id).template y = if y = x then
      { s.template x with wait_ack_Msg4 := false, RA_active := false } else s.template y := by
  have h := template_modify s x y (fun ra => { ra with wait_ack_Msg4 := false, RA_active := false })
    id
  exact h

theorem inUse_congr (h : t.template x = s.template x) : t.InUse x ↔ s.InUse x := by
  simp only [InUse, h]

theorem template_reset (s : RaEnb) (x y : RaSlot) :
    (s.reset x).template y = if y = x then resetTemplate (s.template x) else s.template y :=
  template_modify s x y resetTemplate resetFields

theorem not_inUse_reset (s : RaEnb) (x : RaSlot) : ¬ (s.reset x).InUse x := by
  simp [InUse, template_reset, resetTemplate]

theorem inUse_reset {y : RaSlot} (h : (s.reset x).InUse y) : y ≠ x ∧ s.InUse y ∧
    (s.reset x).template y = s.template y := by
  have hne : y ≠ x := by
    rintro rfl
    exact not_inUse_reset s y h
  have hsame : (s.reset x).template y = s.template y := by rw [template_reset, if_neg hne]
  exact ⟨hne, (inUse_congr hsame).1 h, hsame⟩

/-! ## Uniqueness -/

def ueRnti (s : RaEnb) (u : Nat) : Nat := (s.enb.UE_template (s.enb.pCC_id u) u).rnti

/-- The values that no UE may have. -/
def Reserved (rnti : Nat) : Prop := rnti = NOT_A_RNTI ∨ rnti = P_RNTI ∨ rnti = SI_RNTI

instance (rnti : Nat) : Decidable (Reserved rnti) := inferInstanceAs (Decidable (_ ∨ _))

def Unused (n : Nat) (s : RaEnb) (rnti : Nat) : Prop :=
  ¬ Reserved rnti ∧ (∀ u ∈ s.enb.UE_list, s.ueRnti u ≠ rnti) ∧
    ∀ x ∈ slots n, s.InUse x → (s.template x).rnti ≠ rnti ∧ (s.ra x).RA_rnti ≠ rnti

instance (n : Nat) (s : RaEnb) (rnti : Nat) : Decidable (Unused n s rnti) :=
  inferInstanceAs (Decidable (_ ∧ _ ∧ _))

instance (rnti : Nat) (sdu : Option Mem) (size : Nat) : Decidable (RxRun.Msg3Names rnti sdu size) :=
  match sdu with
  | none => isTrue nofun
  | some block =>
    match h : parseUlschHeader block size with
    | none => isTrue fun b p hb hp => by
        cases hb
        rw [h] at hp
        cases hp
    | some p => decidable_of_iff (∀ c ∈ crntis block p.ptr p.ces, c = rnti) (by
        constructor
        · intro hnames b q hb hq
          cases hb
          cases h.symm.trans hq
          exact hnames
        · exact fun hnames => hnames block p rfl h)

/-- The RNTI that a preamble gets is used by nobody. -/
def Draws (n : Nat) (s : RaEnb) : RaCall → Prop
  | .initiateRaProc CC_id _ _ subframe f_id taus =>
    s.freeProc CC_id ≠ none → s.Unused n (taus % 2 ^ 16) ∧ taus % 2 ^ 16 ≠ 1 + subframe + 10 * f_id
  | _ => True

/-- What a preamble brings: what its RA-RNTI is made of, and the value that `taus` gives. -/
structure Draw where
  subframe : Nat
  f_id : Nat
  taus : Nat

def Draw.value (d : Draw) : Nat := d.taus % 2 ^ 16

def Draw.raRnti (d : Draw) : Nat := 1 + d.subframe + 10 * d.f_id

def draw : RaCall → Option Draw
  | .initiateRaProc _ _ _ subframe f_id taus => some ⟨subframe, f_id, taus⟩
  | _ => none

/-- The values drawn are valid and all different, and none is the RA-RNTI of its own preamble or of
one before. -/
def Apart (draws : List Draw) : Prop :=
  (∀ d ∈ draws, ¬ Reserved d.value ∧ d.value ≠ d.raRnti) ∧
    draws.Pairwise fun d d' => d'.value ≠ d.value ∧ d'.value ≠ d.raRnti

instance (draws : List Draw) : Decidable (Apart draws) := inferInstanceAs (Decidable (_ ∧ _))

/-- A block with a CCCH SDU names no RNTI but its own. -/
def NamesItself : RaCall → Prop
  | .rxSdu _ _ rnti _ sdu size _ => hasCcch sdu size = true → RxRun.Msg3Names rnti sdu size
  | _ => True

instance (c : RaCall) : Decidable (NamesItself c) := by
  cases c <;> unfold NamesItself <;> infer_instance

/-- Different UEs and different processes have different RNTIs. -/
structure Unique (n : Nat) (s : RaEnb) : Prop where
  ids : (s.enb.UE_list ++ s.enb.avail).Nodup
  ues : ∀ u ∈ s.enb.UE_list, ∀ v ∈ s.enb.UE_list, s.ueRnti u = s.ueRnti v → u = v
  ues_valid : ∀ u ∈ s.enb.UE_list, ¬ Reserved (s.ueRnti u)
  carriers : ∀ x, s.InUse x → x.1 < n
  procs : ∀ x y, s.InUse x → s.InUse y → (s.template x).rnti = (s.template y).rnti → x = y
  procs_valid : ∀ x, s.InUse x → ¬ Reserved (s.template x).rnti

theorem unique_init (n UEs : Nat) (rrc : Bool) : (init UEs rrc).Unique n := by
  have hidle : ∀ x, ¬ (init UEs rrc).InUse x := by simp [InUse, template, init]
  refine ⟨by simpa [init] using nodup_range, nofun, nofun, ?_, ?_, ?_⟩
  · exact fun x hx => absurd hx (hidle x)
  · exact fun x _ hx => absurd hx (hidle x)
  · exact fun x hx => absurd hx (hidle x)

theorem Unique.shrink (h : s.Unique n) (hlist : SameList s.enb t.enb)
    (hprocs : ∀ x, t.InUse x → s.InUse x ∧ (t.template x).rnti = (s.template x).rnti) :
    t.Unique n := by
  have hrnti : t.ueRnti = s.ueRnti := by
    funext u
    simp only [ueRnti, hlist.pCC_id, hlist.rnti]
  refine ⟨by rw [hlist.UE_list, hlist.avail]; exact h.ids, ?_, ?_, ?_, ?_, ?_⟩
  · rw [hrnti, hlist.UE_list]
    exact h.ues
  · rw [hrnti, hlist.UE_list]
    exact h.ues_valid
  · exact fun x hx => h.carriers x (hprocs x hx).1
  · intro x y hx hy hxy
    apply h.procs x y (hprocs x hx).1 (hprocs y hy).1
    rwa [← (hprocs x hx).2, ← (hprocs y hy).2]
  · intro x hx
    rw [(hprocs x hx).2]
    exact h.procs_valid x (hprocs x hx).1

theorem Unique.reset (h : s.Unique n) (x : RaSlot) : (s.reset x).Unique n := by
  refine h.shrink ⟨rfl, rfl, rfl, fun _ _ => rfl⟩ fun y hy => ?_
  obtain ⟨-, huse, hsame⟩ := inUse_reset hy
  exact ⟨huse, by rw [hsame]⟩

/-! ## Each call -/

theorem Unique.start (h : s.Unique n) (hcarrier : x.1 < n) (hunused : s.Unused n rnti)
    (preamble : Nat) (offset : Int)
    (RA_rnti : Nat) : (s.start x preamble offset RA_rnti rnti).Unique n := by
  obtain ⟨hvalid, hues, hprocs⟩ := hunused
  have hold : ∀ y, s.InUse y → (s.template y).rnti ≠ rnti :=
    fun y hy => (hprocs y (mem_slots.2 (h.carriers y hy)) hy).1
  refine ⟨h.ids, h.ues, h.ues_valid, fun y hy => ?_, fun y z hy hz hyz => ?_, fun y hy => ?_⟩
  · rw [InUse, template_start] at hy
    by_cases hyx : y = x
    · exact hyx ▸ hcarrier
    · rw [if_neg hyx] at hy
      exact h.carriers y hy
  · rw [InUse, template_start] at hy hz
    rw [template_start, template_start] at hyz
    by_cases hyx : y = x
    · by_cases hzx : z = x
      · rw [hyx, hzx]
      · rw [if_neg hzx] at hz
        rw [if_pos hyx, if_neg hzx] at hyz
        exact absurd hyz.symm (hold z hz)
    · rw [if_neg hyx] at hy hyz
      by_cases hzx : z = x
      · rw [if_pos hzx] at hyz
        exact absurd hyz (hold y hy)
      · rw [if_neg hzx] at hz hyz
        exact h.procs y z hy hz hyz
  · rw [InUse, template_start] at hy
    rw [template_start]
    by_cases hyx : y = x
    · rw [if_pos hyx]
      exact hvalid
    · rw [if_neg hyx] at hy ⊢
      exact h.procs_valid y hy

theorem Unique.rar (h : s.Unique n) {f : RaFields → RaFields}
    (hsame : ∀ y, (s.modify x id f).template y = s.template y) : (s.modify x id f).Unique n :=
  h.shrink ⟨rfl, rfl, rfl, fun _ _ => rfl⟩ fun y hy => ⟨(inUse_congr (hsame y)).1 hy, by rw [hsame]⟩

theorem inUse_sameProcs (h : SameProcs s.enb t.enb) (hx : t.InUse x) :
    s.InUse x ∧ (t.template x).rnti = (s.template x).rnti := by
  refine ⟨?_, h.rnti x.1 x.2⟩
  rcases hx with hx | hx
  · exact .inl ((h.RA_active x.1 x.2).symm.trans hx)
  · exact .inr (h.wait_ack_Msg4 x.1 x.2 hx)

theorem rnti_ne_of_unknown (h : s.enb.findUeId rnti = none) :
    ∀ u ∈ s.enb.UE_list, s.ueRnti u ≠ rnti := by
  simpa [Enb.findUeId, ueRnti] using h

theorem Unique.rnti_of_added (h : s.Unique n) {e : Enb} {u : Nat}
    (list : Added CC_id rnti u s.enb e) {v : Nat}
    (hv : v ∈ s.enb.UE_list) : (e.UE_template (e.pCC_id v) v).rnti = s.ueRnti v := by
  have hids := h.ids
  rw [list.avail] at hids
  have hvu : v ≠ u := by
    rintro rfl
    exact (nodup_append.1 hids).2.2 v hv v mem_cons_self rfl
  rw [(list.others v hvu).1, (list.others v hvu).2]
  rfl

/-- A UE is one from before, or has the RNTI of a process. -/
theorem Unique.ues_of_block (h : s.Unique n) {hasMsg3 : Prop} {r : RxRun}
    (heffect : RxRun.BlockEffect CC_id rnti s.enb (hasMsg3 ∧ ∃ ii, s.enb.Pending CC_id rnti ii) r)
    {u : Nat} (hu : u ∈ r.enb.UE_list) :
    u ∈ s.enb.UE_list ∧ (r.enb.UE_template (r.enb.pCC_id u) u).rnti = s.ueRnti u ∨
      ∃ x, s.InUse x ∧ (r.enb.UE_template (r.enb.pCC_id u) u).rnti = (s.template x).rnti := by
  have hsame (hlist : SameList s.enb r.enb) : u ∈ s.enb.UE_list ∧
      (r.enb.UE_template (r.enb.pCC_id u) u).rnti = s.ueRnti u :=
    ⟨hlist.UE_list ▸ hu, by rw [hlist.pCC_id, hlist.rnti]; rfl⟩
  cases heffect with
  | other _ ues => exact .inl (hsame ues.sameList)
  | known _ _ _ _ list _ => exact .inl (hsame list)
  | added hmsg3 v _ _ list _ =>
    obtain ⟨-, ii, hpending⟩ := hmsg3
    rcases mem_cons.1 (list.UE_list ▸ hu) with rfl | hu'
    · exact .inr ⟨(CC_id, ii), .inl hpending.2, list.has.2.trans hpending.1.symm⟩
    · exact .inl ⟨hu', h.rnti_of_added list hu'⟩

theorem Unique.rxSdu (h : s.Unique n) {frame harq_pid size : Nat} {sdu : Option Mem}
    {msg3_flag : Option Bool}
    (hnames : NamesItself (.rxSdu CC_id frame rnti harq_pid sdu size msg3_flag))
    (ht : s.rxSdu CC_id frame rnti harq_pid sdu size msg3_flag = some t) : t.Unique n := by
  obtain ⟨r, hr, rfl⟩ := Option.map_eq_some_iff.1 ht
  have heffect := RxRun.rxSdu_effect (fun hccch _ => hnames hccch) hr
  have hues := fun v => h.ues_of_block (u := v) heffect
  cases heffect with
  | other _ ues => exact h.shrink ues.sameList fun x hx => inUse_sameProcs ues.sameProcs hx
  | known _ _ _ _ list procs => exact h.shrink list fun x hx => inUse_sameProcs procs hx
  | added hmsg3 u hUE hunknown list procs =>
    have hold := rnti_ne_of_unknown hunknown
    have hids := h.ids
    rw [list.avail] at hids
    have hkeep : ∀ v ∈ s.enb.UE_list, (r.enb.UE_template (r.enb.pCC_id v) v).rnti = s.ueRnti v :=
      fun v hv => h.rnti_of_added list hv
    refine ⟨?_, ?_, ?_, ?_, ?_, ?_⟩
    · rw [list.UE_list]
      exact (perm_middle.nodup_iff.1 hids)
    · intro v hv w hw hvw
      simp only [list.UE_list, mem_cons] at hv hw
      simp only [ueRnti] at hvw
      rcases hv with rfl | hv
      · rcases hw with rfl | hw
        · rfl
        · rw [list.has.2, hkeep w hw] at hvw
          exact absurd hvw.symm (hold w hw)
      · rcases hw with rfl | hw
        · rw [list.has.2, hkeep v hv] at hvw
          exact absurd hvw (hold v hv)
        · rw [hkeep v hv, hkeep w hw] at hvw
          exact h.ues v hv w hw hvw
    · intro v hv
      rw [ueRnti]
      rcases hues v hv with ⟨hv', hrnti⟩ | ⟨x, hx, hrnti⟩
      · exact hrnti ▸ h.ues_valid v hv'
      · exact hrnti ▸ h.procs_valid x hx
    · exact fun x hx => h.carriers x (inUse_sameProcs procs hx).1
    · intro x y hx hy hxy
      obtain ⟨hx', hxr⟩ := inUse_sameProcs procs hx
      obtain ⟨hy', hyr⟩ := inUse_sameProcs procs hy
      exact h.procs x y hx' hy' (hxr.symm.trans (hxy.trans hyr))
    · intro x hx
      obtain ⟨hx', hxr⟩ := inUse_sameProcs procs hx
      rw [hxr]
      exact h.procs_valid x hx'

/-- What a turn of `schedule_RA` does to a process: nothing, or its Msg4 is sent, or
acknowledged. -/
inductive Turn (x : RaSlot) (s t : RaEnb) : Prop where
  | nothing (h : t = s)
  | sends (active : (s.template x).RA_active = true) (u : Nat)
      (found : s.enb.findUeId (s.template x).rnti = some u) (h : t = s.sendMsg4 x)
  | acked (awaiting : s.Awaiting x) (u : Nat) (found : s.enb.findUeId (s.template x).rnti = some u)
      (h : t = s.ackMsg4 x u)

theorem turn_scheduleProc {input : RaSlot → Input}
    (h : s.scheduleProc input x = some t) : Turn x s t := by
  simp only [scheduleProc] at h
  split at h
  · rename_i hactive
    split at h
    · cases h
      exact .nothing rfl
    split at h
    · split at h
      · cases h
      · split at h
        · obtain ⟨u, hfound, rfl⟩ := Option.map_eq_some_iff.1 h
          exact .sends hactive u hfound rfl
        · cases h
          exact .nothing rfl
    · cases h
      exact .nothing rfl
  · rename_i hactive
    split at h
    · rename_i hwait
      split at h
      · cases h
        exact .nothing rfl
      · obtain ⟨u, hfound, rfl⟩ := Option.map_eq_some_iff.1 h
        exact .acked ⟨by simpa using hactive, hwait⟩ u hfound rfl
    · cases h
      exact .nothing rfl

theorem Turn.other (h : Turn x s t) {y : RaSlot} (hy : y ≠ x) : t.template y = s.template y := by
  cases h with
  | nothing h => rw [h]
  | sends _ _ _ h => rw [h, template_sendMsg4, if_neg hy]
  | acked _ _ _ h => rw [h, template_ackMsg4, if_neg hy]

theorem Turn.template (h : Turn x s t) (y : RaSlot) (hy : t.InUse y) :
    s.InUse y ∧ (t.template y).rnti = (s.template y).rnti := by
  by_cases hyx : y = x
  · subst hyx
    cases h with
    | nothing h => exact h ▸ ⟨hy, rfl⟩
    | sends active u found h => exact ⟨.inl active, by rw [h, template_sendMsg4, if_pos rfl]⟩
    | acked awaiting u found h => exact ⟨.inr awaiting.2, by rw [h, template_ackMsg4, if_pos rfl]⟩
  · have hsame := h.other hyx
    exact ⟨(inUse_congr hsame).1 hy, by rw [hsame]⟩

theorem Turn.sameList (h : Turn x s t) : SameList s.enb t.enb := by
  cases h with
  | nothing h => exact h ▸ SameList.refl _
  | sends _ _ _ h =>
    subst h
    exact ⟨rfl, rfl, rfl, fun _ _ => rfl⟩
  | acked _ _ _ h =>
    subst h
    refine ⟨rfl, rfl, rfl, fun c u => ?_⟩
    simp only [ackMsg4, Enb.modifyTemplate, modify, Enb.modifyRa]
    split <;> rfl

theorem Unique.turn (h : s.Unique n) (hturn : Turn x s t) : t.Unique n :=
  h.shrink hturn.sameList hturn.template

theorem cancelRaProc_keeps {P : RaEnb → Prop} (reset : ∀ s x, P s → P (s.reset x)) (h : P s)
    (CC_id rnti : Nat) : P (s.cancelRaProc CC_id rnti) := by
  unfold RaEnb.cancelRaProc
  generalize finRange NB_RA_PROC_MAX = procs
  induction procs generalizing s with
  | nil => exact h
  | cons i procs ih =>
    rw [foldl_cons]
    apply ih
    split
    · exact reset s _ h
    · exact h

theorem Unique.mem_removeUe (h : s.Unique n) {u UE_id : Nat} (hu : u ∈ s.enb.UE_list.erase UE_id) :
    u ∈ s.enb.UE_list ∧ ({ s with enb := s.enb.removeUe UE_id } : RaEnb).ueRnti u = s.ueRnti u := by
  have hne : u ≠ UE_id := by
    rintro rfl
    exact (nodup_append.1 h.ids).1.not_mem_erase hu
  refine ⟨mem_of_mem_erase hu, ?_⟩
  simp [ueRnti, Enb.removeUe, Enb.modifyTemplate, hne]

theorem Unique.removeUe (h : s.Unique n) {UE_id : Nat} (hUE : UE_id ∈ s.enb.UE_list) :
    ({ s with enb := s.enb.removeUe UE_id } : RaEnb).Unique n := by
  refine ⟨?_, ?_, ?_, h.carriers, h.procs, h.procs_valid⟩
  · show (s.enb.UE_list.erase UE_id ++ UE_id :: s.enb.avail).Nodup
    rw [perm_middle.nodup_iff]
    exact ((perm_cons_erase hUE).append_right _).nodup_iff.1 h.ids
  · intro u hu v hv huv
    rw [(h.mem_removeUe hu).2, (h.mem_removeUe hv).2] at huv
    exact h.ues u (h.mem_removeUe hu).1 v (h.mem_removeUe hv).1 huv
  · intro u hu
    rw [(h.mem_removeUe hu).2]
    exact h.ues_valid u (h.mem_removeUe hu).1

theorem scheduleRa_keeps {P : RaEnb → Prop} (turn : ∀ s t x, P s → Turn x s t → P t) (h : P s)
    {input : RaSlot → Input} (ht : s.scheduleRa n input = some t) : P t :=
  Lib.run_always (fun _ _ _ h hturn => turn _ _ _ h (turn_scheduleProc hturn)) h ht

/-- What holds after each of the things that a call can do holds after the call. -/
theorem step_keeps {P : RaEnb → Prop} {c : RaCall}
    (start : ∀ CC_id i preamble offset subframe f_id taus,
      c = .initiateRaProc CC_id preamble offset subframe f_id taus → CC_id < n →
      s.freeProc CC_id = some i →
      P (s.start (CC_id, i) preamble offset (1 + subframe + 10 * f_id) (taus % 2 ^ 16)))
    (rar : ∀ x f, (∀ y, (s.modify x id f).template y = s.template y) →
      (∀ y, ((s.modify x id f).ra y).RA_rnti = (s.ra y).RA_rnti) → P (s.modify x id f))
    (rxSdu : ∀ CC_id frame rnti harq_pid sdu size msg3_flag,
      c = .rxSdu CC_id frame rnti harq_pid sdu size msg3_flag →
      s.rxSdu CC_id frame rnti harq_pid sdu size msg3_flag = some t → P t)
    (schedule : ∀ input, c = .scheduleRa input → s.scheduleRa n input = some t → P t)
    (reset : ∀ s x, P s → P (s.reset x))
    (remove : ∀ UE_id ∈ s.enb.UE_list, P { s with enb := s.enb.removeUe UE_id }) (h : P s)
    (ht : s.step n c = some t) : P t := by
  unfold RaEnb.step at ht
  split at ht
  · rename_i hcarrier
    cases c with
    | initiateRaProc CC_id preamble offset subframe f_id taus =>
      cases ht
      unfold RaEnb.initiateRaProc
      split
      · exact h
      · rename_i i hfree
        exact start CC_id i _ _ _ _ _ rfl (hcarrier CC_id rfl) hfree
    | fillRar CC_id =>
      cases ht
      unfold RaEnb.fillRar
      split
      · exact h
      refine rar _ _ (fun y => ?_) fun y => ?_
      · rw [template_modify]
        split
        · rename_i hy
          rw [hy]
          rfl
        · rfl
      · simp only [modify, Function.update_apply]
        split
        · rename_i hy
          rw [hy]
        · rfl
    | rxSdu CC_id frame rnti harq_pid sdu size msg3_flag => exact rxSdu _ _ _ _ _ _ _ rfl ht
    | scheduleRa input => exact schedule input rfl ht
    | cancelRaProc CC_id rnti =>
      cases ht
      exact cancelRaProc_keeps reset h CC_id rnti
    | rrcMacRemoveUe rnti =>
      cases ht
      unfold RaEnb.rrcMacRemoveUe
      split
      · exact h
      · rename_i UE_id hfound
        have hremoved := remove UE_id (Enb.hasRnti_of_found hfound).1
        split
        · exact hremoved
        · exact reset _ _ hremoved
  · cases ht

/-- A value that stands apart keeps all RNTIs different. -/
theorem Unique.step (h : s.Unique n) {c : RaCall} (hdraws : s.Draws n c) (hnames : NamesItself c)
    (ht : s.step n c = some t) : t.Unique n := by
  refine step_keeps ?_ (fun _ _ hsame _ => h.rar hsame) ?_ (fun _ _ =>
    scheduleRa_keeps (fun _ _ _ h => h.turn) h)
    (fun _ x h => h.reset x) (fun _ hUE => h.removeUe hUE) h ht
  · rintro CC_id i preamble offset subframe f_id taus rfl hcarrier hfree
    exact h.start hcarrier (hdraws (by simp [hfree])).1 _ _ _
  · rintro CC_id frame rnti harq_pid sdu size msg3_flag rfl ht
    exact h.rxSdu hnames ht

/-! ## What was drawn -/

/-- The RNTIs in use come from the preambles so far. -/
structure Known (past : List Draw) (s : RaEnb) : Prop where
  ues : ∀ u ∈ s.enb.UE_list, ∃ d ∈ past, s.ueRnti u = d.value
  procs : ∀ x, s.InUse x → ∃ d ∈ past, (s.template x).rnti = d.value
  ra : ∀ x, s.InUse x → ∃ d ∈ past, (s.ra x).RA_rnti = d.raRnti

variable {past : List Draw}

theorem known_init (UEs : Nat) (rrc : Bool) : (init UEs rrc).Known [] := by
  have hidle : ∀ x, ¬ (init UEs rrc).InUse x := by simp [InUse, template, init]
  exact ⟨nofun, fun x hx => absurd hx (hidle x), fun x hx => absurd hx (hidle x)⟩

theorem Known.append (h : s.Known past) (more : List Draw) : s.Known (past ++ more) := by
  have hmem {P : Draw → Prop} (hd : ∃ d ∈ past, P d) : ∃ d ∈ past ++ more, P d :=
    hd.imp fun d hd => ⟨mem_append_left more hd.1, hd.2⟩
  exact ⟨fun u hu => hmem (h.ues u hu), fun x hx => hmem (h.procs x hx),
    fun x hx => hmem (h.ra x hx)⟩

theorem Known.shrink (h : s.Known past)
    (hlist : ∀ u ∈ t.enb.UE_list, u ∈ s.enb.UE_list ∧ t.ueRnti u = s.ueRnti u)
    (hprocs : ∀ x, t.InUse x → s.InUse x ∧ (t.template x).rnti = (s.template x).rnti)
    (hra : ∀ x, t.InUse x → (t.ra x).RA_rnti = (s.ra x).RA_rnti) : t.Known past := by
  refine ⟨fun u hu => ?_, fun x hx => ?_, fun x hx => ?_⟩
  · rw [(hlist u hu).2]
    exact h.ues u (hlist u hu).1
  · rw [(hprocs x hx).2]
    exact h.procs x (hprocs x hx).1
  · rw [hra x hx]
    exact h.ra x (hprocs x hx).1

theorem Known.start (h : s.Known past) {d : Draw} (hd : d ∈ past) (x : RaSlot) (preamble : Nat)
    (offset : Int) : (s.start x preamble offset d.raRnti d.value).Known past := by
  refine ⟨h.ues, fun y hy => ?_, fun y hy => ?_⟩
  · rw [InUse, template_start] at hy
    rw [template_start]
    by_cases hyx : y = x
    · rw [if_pos hyx]
      exact ⟨d, hd, rfl⟩
    · rw [if_neg hyx] at hy ⊢
      exact h.procs y hy
  · rw [InUse, template_start] at hy
    by_cases hyx : y = x
    · exact ⟨d, hd, by simp [RaEnb.start, modify, hyx]⟩
    · rw [if_neg hyx] at hy
      simpa [RaEnb.start, modify, Function.update_of_ne hyx] using h.ra y hy

theorem Known.reset (h : s.Known past) (x : RaSlot) : (s.reset x).Known past := by
  refine h.shrink (fun u hu => ⟨hu, rfl⟩) (fun y hy => ?_) fun y hy => ?_
  · obtain ⟨-, huse, hsame⟩ := inUse_reset hy
    exact ⟨huse, by rw [hsame]⟩
  · simp [RaEnb.reset, modify, Function.update_of_ne (inUse_reset hy).1]

theorem Turn.ra (h : Turn x s t) : t.ra = s.ra := by
  cases h with
  | nothing h => rw [h]
  | sends _ _ _ h => simp [h, sendMsg4, modify]
  | acked _ _ _ h => simp [h, ackMsg4, modify]

theorem Known.turn (h : s.Known past) (hturn : Turn x s t) : t.Known past := by
  have hlist := hturn.sameList
  refine h.shrink (fun u hu => ⟨hlist.UE_list ▸ hu, ?_⟩) hturn.template fun x _ => by rw [hturn.ra]
  simp only [ueRnti, hlist.pCC_id, hlist.rnti]

theorem Known.rxSdu (h : s.Known past) (hunique : s.Unique n) {frame harq_pid size : Nat}
    {sdu : Option Mem} {msg3_flag : Option Bool}
    (hnames : NamesItself (.rxSdu CC_id frame rnti harq_pid sdu size msg3_flag))
    (ht : s.rxSdu CC_id frame rnti harq_pid sdu size msg3_flag = some t) : t.Known past := by
  obtain ⟨r, hr, rfl⟩ := Option.map_eq_some_iff.1 ht
  have heffect := RxRun.rxSdu_effect (fun hccch _ => hnames hccch) hr
  refine ⟨fun u hu => ?_, fun x hx => ?_, fun x hx => h.ra x (inUse_sameProcs heffect.procs hx).1⟩
  · rw [ueRnti]
    rcases hunique.ues_of_block heffect hu with ⟨hu', hrnti⟩ | ⟨x, hx, hrnti⟩
    · exact hrnti ▸ h.ues u hu'
    · exact hrnti ▸ h.procs x hx
  · obtain ⟨hx', hrnti⟩ := inUse_sameProcs heffect.procs hx
    exact hrnti ▸ h.procs x hx'

/-- The RNTIs in use are among the values drawn so far. -/
theorem Known.step (h : s.Known past) (hunique : s.Unique n) {c : RaCall} (hnames : NamesItself c)
    (ht : s.step n c = some t) : t.Known (past ++ (draw c).toList) := by
  have hs := h.append (draw c).toList
  refine step_keeps ?_ (fun x f hsame hra => ?_) ?_ (fun _ _ =>
    scheduleRa_keeps (fun _ _ _ h => h.turn) hs) (fun _ x h => h.reset x) ?_ hs ht
  · rintro CC_id i preamble offset subframe f_id taus rfl - -
    exact hs.start (d := ⟨subframe, f_id, taus⟩) (by simp [draw]) _ _ _
  · refine hs.shrink (fun u hu => ⟨hu, rfl⟩) (fun y hy => ?_) fun y _ => hra y
    exact ⟨(inUse_congr (hsame y)).1 hy, by rw [hsame]⟩
  · rintro CC_id frame rnti harq_pid sdu size msg3_flag rfl ht
    exact hs.rxSdu hunique hnames ht
  · exact fun UE_id _ => hs.shrink (fun u hu => hunique.mem_removeUe hu) (fun y hy => ⟨hy, rfl⟩)
      fun _ _ => rfl

theorem Known.draws (h : s.Known past) {c : RaCall} {later : List Draw}
    (hapart : Apart (past ++ (draw c).toList ++ later)) : s.Draws n c := by
  cases c with
  | initiateRaProc CC_id preamble_index timing_offset subframe f_id taus =>
    intro _
    obtain ⟨hvalid, hpairs⟩ := hapart
    have hd := hvalid ⟨subframe, f_id, taus⟩ (by simp [draw])
    have hpast : ∀ d ∈ past, taus % 2 ^ 16 ≠ d.value ∧ taus % 2 ^ 16 ≠ d.raRnti := fun d hd =>
      (pairwise_append.1 (pairwise_append.1 hpairs).1).2.2 d hd ⟨subframe, f_id,
        taus⟩ (by simp [draw])
    refine ⟨⟨hd.1, fun u hu hrnti => ?_, fun x _ hx => ⟨fun hrnti => ?_, fun hrnti => ?_⟩⟩, hd.2⟩
    · obtain ⟨d, hmem, hdrawn⟩ := h.ues u hu
      exact (hpast d hmem).1 (hrnti.symm.trans hdrawn)
    · obtain ⟨d, hmem, hdrawn⟩ := h.procs x hx
      exact (hpast d hmem).1 (hrnti.symm.trans hdrawn)
    · obtain ⟨d, hmem, hdrawn⟩ := h.ra x hx
      exact (hpast d hmem).2 (hrnti.symm.trans hdrawn)
  | _ => trivial

/-- No value is drawn while it is in use. -/
theorem Known.meets_draws {calls : List RaCall} (h : s.Known past) (hunique : s.Unique n)
    (hnames : ∀ c ∈ calls, NamesItself c) (hapart : Apart (past ++ calls.filterMap draw)) :
    Lib.Meets (RaEnb.step n) (Draws n) s calls := by
  induction calls generalizing s past with
  | nil => trivial
  | cons c calls ih =>
    rw [forall_mem_cons] at hnames
    have hsplit : past ++ (c :: calls).filterMap draw =
        past ++ (draw c).toList ++ calls.filterMap draw := by
      cases hc : draw c <;> simp [hc]
    rw [hsplit] at hapart
    have hdraws : s.Draws n c := h.draws hapart
    exact ⟨hdraws, fun t ht =>
      ih (h.step hunique hnames.1 ht) (hunique.step hdraws hnames.1 ht) hnames.2 hapart⟩

/-! ## Every history -/

theorem Unique.findUeId (h : s.Unique n) {u : Nat}
    (hu : u ∈ s.enb.UE_list) : s.enb.findUeId (s.ueRnti u) = some u := by
  cases hfound : s.enb.findUeId (s.ueRnti u) with
  | none => exact absurd rfl (rnti_ne_of_unknown hfound u hu)
  | some v =>
    obtain ⟨hv, hrnti⟩ := Enb.hasRnti_of_found hfound
    rw [h.ues v hv u hu hrnti]

/-! ## A history for any values -/

instance : NeZero NB_RA_PROC_MAX := ⟨by decide⟩

theorem template_cancelRaProc (s : RaEnb) (CC_id rnti : Nat) (y : RaSlot) :
    (s.cancelRaProc CC_id rnti).template y =
      if y.1 = CC_id ∧ (s.template y).rnti =
        rnti then resetTemplate (s.template y) else s.template y := by
  have hloop (procs : List (Fin NB_RA_PROC_MAX)) (hnodup : procs.Nodup) :
      (procs.foldl (fun s i => if (s.template (CC_id, i)).rnti =
        rnti then s.reset (CC_id, i) else s) s).template y =
        if (y.1 = CC_id ∧ y.2 ∈ procs) ∧ (s.template y).rnti =
          rnti then resetTemplate (s.template y)
        else s.template y := by
    induction procs generalizing s with
    | nil => simp
    | cons i procs ih =>
      rw [nodup_cons] at hnodup
      rw [foldl_cons, ih _ hnodup.2]
      by_cases hy : y = (CC_id, i)
      · subst hy
        split_ifs <;> simp_all [template_reset]
      · have hne : y.1 = CC_id → y.2 ≠ i := fun h1 h2 => hy (Prod.ext h1 h2)
        split_ifs <;> simp_all [template_reset]
  rw [cancelRaProc, hloop _ (nodup_finRange _)]
  simp

/-- A process that is given up at once. -/
def passing (d : Draw) : List RaCall :=
  [.initiateRaProc 0 0 0 d.subframe d.f_id d.taus, .cancelRaProc 0 d.value]

theorem run_passing (d : Draw) {i : Fin NB_RA_PROC_MAX} (hfree : s.freeProc 0 = some i) :
    ∃ t, Lib.run (step (n + 1)) s (passing d) = some t ∧ (t.template (0, i)).RA_active = false ∧
      ∀ j ≠ i, (t.ra (0, j)).RA_rnti = (s.ra (0, j)).RA_rnti ∧
        ((s.template (0, j)).RA_active = false → (t.template (0, j)).RA_active = false) ∧
        ((s.template (0, j)).rnti ≠ d.value → t.template (0, j) = s.template (0, j)) := by
  have hra (u : RaEnb) (y : RaSlot) : ((u.cancelRaProc 0 d.value).ra y).RA_rnti =
      (u.ra y).RA_rnti := by
    refine cancelRaProc_keeps (P := fun t => (t.ra y).RA_rnti = (u.ra y).RA_rnti) (fun t x ht => ?_)
      rfl 0 d.value
    simp only [reset, modify, resetFields, Function.update_apply]
    split
    · rename_i hyx
      exact hyx ▸ ht
    · exact ht
  refine ⟨(s.start (0, i) 0 0 d.raRnti d.value).cancelRaProc 0 d.value, ?_, ?_, fun j hj => ?_⟩
  · simp [Lib.run, passing, RaEnb.step, RaCall.carrier, RaEnb.call, RaEnb.initiateRaProc, hfree,
      Draw.raRnti, Draw.value]
  · simp [template_cancelRaProc, template_start, startTemplate, resetTemplate]
  have hne : ((0, j) : RaSlot) ≠ (0, i) := fun h => hj (Prod.mk.inj h).2
  rw [hra, template_cancelRaProc, template_start, if_neg hne]
  refine ⟨by simp [RaEnb.start, modify, Function.update_of_ne hne], fun hidle => ?_,
    fun hrnti => if_neg fun h => hrnti h.2⟩
  split
  · rfl
  · exact hidle

theorem exists_freeProc {i : Fin NB_RA_PROC_MAX} (h : (s.template (0, i)).RA_active = false) :
    ∃ j, s.freeProc 0 = some j ∧ (s.template (0, j)).RA_active = false := by
  cases hfree : s.freeProc 0 with
  | none =>
    have hactive := find?_eq_none.1 hfree i (mem_finRange i)
    simp only [template] at h
    simp [h] at hactive
  | some j => exact ⟨j, rfl, by simpa [template] using find?_some hfree⟩

/-- No process is active. -/
def Quiet (s : RaEnb) : Prop := ∀ i, (s.template (0, i)).RA_active = false

/-- The process of one preamble is active, and no other one. -/
structure Holds (d : Draw) (i : Fin NB_RA_PROC_MAX) (s : RaEnb) : Prop where
  active : (s.template (0, i)).RA_active = true
  value : (s.template (0, i)).rnti = d.value
  raRnti : (s.ra (0, i)).RA_rnti = d.raRnti
  others : ∀ j ≠ i, (s.template (0, j)).RA_active = false

theorem Quiet.passing (h : s.Quiet) (ds : List Draw) :
    ∃ t, Lib.run (step (n + 1)) s (ds.flatMap passing) = some t ∧ t.Quiet := by
  induction ds generalizing s with
  | nil => exact ⟨s, rfl, h⟩
  | cons d ds ih =>
    obtain ⟨i, hfree, -⟩ := exists_freeProc (h 0)
    obtain ⟨t, ht, hgone, hothers⟩ := run_passing (n := n) d hfree
    obtain ⟨u, hu, hquiet⟩ := ih (s := t) fun j => by
      by_cases hj : j = i
      · exact hj ▸ hgone
      · exact (hothers j hj).2.1 (h j)
    exact ⟨u, Lib.run_append.2 ⟨t, ht, hu⟩, hquiet⟩

theorem Quiet.start (h : s.Quiet) (d : Draw) : ∃ t i,
    step (n + 1) s (.initiateRaProc 0 0 0 d.subframe d.f_id d.taus) = some t ∧ t.Holds d i := by
  obtain ⟨i, hfree, -⟩ := exists_freeProc (h 0)
  refine ⟨s.start (0, i) 0 0 d.raRnti d.value, i, ?_, ?_, ?_, ?_, fun j hj => ?_⟩
  · simp [RaEnb.step, RaCall.carrier, RaEnb.call, RaEnb.initiateRaProc, hfree, Draw.raRnti,
      Draw.value]
  · simp [template_start, startTemplate]
  · simp [template_start, startTemplate]
  · simp [RaEnb.start, modify]
  · have hne : ((0, j) : RaSlot) ≠ (0, i) := fun h => hj (Prod.mk.inj h).2
    rw [template_start, if_neg hne]
    exact h j

variable {i : Fin NB_RA_PROC_MAX} {d : Draw}

theorem Holds.free (h : s.Holds d i) : ∃ j ≠ i, s.freeProc 0 = some j := by
  have hother : ∀ i : Fin NB_RA_PROC_MAX, ∃ j, j ≠ i := by decide
  obtain ⟨j, hj⟩ := hother i
  obtain ⟨k, hfree, hidle⟩ := exists_freeProc (h.others j hj)
  refine ⟨k, ?_, hfree⟩
  rintro rfl
  rw [h.active] at hidle
  cases hidle

theorem Holds.passing (h : s.Holds d i) {ds : List Draw} (hds : ∀ d' ∈ ds, d'.value ≠ d.value) :
    ∃ t, Lib.run (step (n + 1)) s (ds.flatMap passing) = some t ∧ t.Holds d i := by
  induction ds generalizing s with
  | nil => exact ⟨s, rfl, h⟩
  | cons d' ds ih =>
    rw [forall_mem_cons] at hds
    obtain ⟨j, hj, hfree⟩ := h.free
    obtain ⟨t, ht, hgone, hothers⟩ := run_passing (n := n) d' hfree
    obtain ⟨hra, -, hsame⟩ := hothers i hj.symm
    have hsame := hsame (h.value ▸ hds.1.symm)
    have ht' : t.Holds d i := by
      refine ⟨hsame ▸ h.active, hsame ▸ h.value, hra.trans h.raRnti, fun k hk => ?_⟩
      by_cases hkj : k = j
      · exact hkj ▸ hgone
      · exact (hothers k hkj).2.1 (h.others k hk)
    obtain ⟨u, hu, hholds⟩ := ih ht' hds.2
    exact ⟨u, Lib.run_append.2 ⟨t, ht, hu⟩, hholds⟩

/-- No value is drawn while it is in use, in any history with these preambles. -/
def AlwaysUnused (n UEs : Nat) (Is_rrc_registered : Bool) (draws : List Draw) : Prop :=
  ∀ calls, calls.filterMap draw = draws → (∀ c ∈ calls, NamesItself c) →
    Lib.Meets (step (n + 1)) (Draws (n + 1)) (init UEs Is_rrc_registered) calls

variable {UEs : Nat} {Is_rrc_registered : Bool} {draws : List Draw}

theorem filterMap_passing (ds : List Draw) : (ds.flatMap passing).filterMap draw = ds := by
  induction ds with
  | nil => rfl
  | cons d ds ih => rw [flatMap_cons, filterMap_append, ih]; rfl

theorem namesItself_passing {ds : List Draw} : ∀ c ∈ ds.flatMap passing, NamesItself c := by
  intro c hc
  obtain ⟨d, -, hc⟩ := mem_flatMap.1 hc
  simp only [passing, mem_cons, not_mem_nil, or_false] at hc
  rcases hc with rfl | rfl <;> trivial

theorem AlwaysUnused.apart (h : AlwaysUnused n UEs Is_rrc_registered draws) : Apart draws := by
  induction draws using List.reverseRecOn with
  | nil => exact ⟨nofun, Pairwise.nil⟩
  | append_singleton draws p ih =>
    have hcall (calls : List RaCall) (hcalls : calls.filterMap draw = draws) (hnames : ∀ c ∈ calls,
        NamesItself c) :
        Lib.Meets (step (n + 1)) (Draws (n + 1)) (init UEs Is_rrc_registered) calls ∧
          ∀ t, Lib.run (step (n + 1)) (init UEs Is_rrc_registered) calls = some t →
            t.freeProc 0 ≠ none → t.Unused (n + 1) p.value ∧ p.value ≠ p.raRnti := by
      have hmeets :=
        h (calls ++ [.initiateRaProc 0 0 0 p.subframe p.f_id p.taus]) (by simp [hcalls, draw])
        (forall_mem_append.2 ⟨hnames, fun c hc => mem_singleton.1 hc ▸ trivial⟩)
      obtain ⟨hmeets, hlast⟩ := Lib.meets_append.1 hmeets
      exact ⟨hmeets, fun t ht => (hlast t ht).1⟩
    have hpast := ih fun calls hcalls hnames => (hcall calls hcalls hnames).1
    have hquiet : (init UEs Is_rrc_registered).Quiet := fun _ => rfl
    refine ⟨forall_mem_append.2 ⟨hpast.1, forall_mem_singleton.2 ?_⟩,
      pairwise_append.2 ⟨hpast.2, pairwise_singleton _ _, fun q hq => forall_mem_singleton.2 ?_⟩⟩
    · obtain ⟨t, ht, hquiet⟩ := hquiet.passing (n := n) draws
      obtain ⟨i, hfree, -⟩ := exists_freeProc (hquiet 0)
      obtain ⟨hunused, hown⟩ :=
        (hcall _ (filterMap_passing draws) namesItself_passing).2 t ht (by simp [hfree])
      exact ⟨hunused.1, hown⟩
    · -- the process of one preamble before is kept, and all others are given up
      obtain ⟨as, bs, rfl⟩ := append_of_mem hq
      obtain ⟨t, ht, hquiet⟩ := hquiet.passing (n := n) as
      obtain ⟨u, i, hu, hholds⟩ := hquiet.start (n := n) q
      have hbs : ∀ d ∈ bs, d.value ≠ q.value := fun d hd =>
        ((pairwise_cons.1 (pairwise_append.1 hpast.2).2.1).1 d hd).1
      obtain ⟨v, hv, hholds⟩ := hholds.passing (n := n) hbs
      obtain ⟨j, -, hfree⟩ := hholds.free
      obtain ⟨⟨-, -, hunused⟩, -⟩ := (hcall (as.flatMap passing ++
          .initiateRaProc 0 0 0 q.subframe q.f_id q.taus :: bs.flatMap passing)
        (by rw [filterMap_append, filterMap_passing, filterMap_cons, filterMap_passing]; rfl)
        (forall_mem_append.2 ⟨namesItself_passing,
          forall_mem_cons.2 ⟨trivial, namesItself_passing⟩⟩)).2 v
        (Lib.run_append.2 ⟨t, ht, Lib.run_cons.2 ⟨u, hu, hv⟩⟩) (by simp [hfree])
      obtain ⟨hrnti, hra⟩ := hunused (0, i) (mem_slots.2 (Nat.succ_pos n)) (.inl hholds.active)
      exact ⟨fun h => hrnti (hholds.value.trans h.symm), fun h => hra (hholds.raRnti.trans h.symm)⟩

/-- In every history with these preambles the RNTI that a preamble gets is used by nobody, if and
only if the values drawn are valid and different; then each RNTI stands for one UE, and no two
processes in use have the same one. -/
theorem every_rnti_stands_for_one_ue (n UEs : Nat) (Is_rrc_registered : Bool) (draws : List Draw) :
    (AlwaysUnused n UEs Is_rrc_registered draws ↔ Apart draws) ∧
      (Apart draws → ∀ calls s, calls.filterMap draw = draws → (∀ c ∈ calls, NamesItself c) →
        Lib.run (step (n + 1)) (init UEs Is_rrc_registered) calls = some s →
        (∀ u ∈ s.enb.UE_list, ¬ Reserved (s.ueRnti u) ∧ s.enb.findUeId (s.ueRnti u) = some u) ∧
          (∀ x, s.InUse x → ¬ Reserved (s.template x).rnti) ∧
          ∀ x y, s.InUse x → s.InUse y → (s.template x).rnti = (s.template y).rnti → x = y) := by
  have hmeets (hapart : Apart draws) : AlwaysUnused n UEs Is_rrc_registered draws :=
    fun calls hcalls hnames =>
    (known_init UEs Is_rrc_registered).meets_draws (unique_init _ _ _) hnames
      (by simpa [hcalls] using hapart)
  refine ⟨⟨AlwaysUnused.apart, hmeets⟩, fun hapart calls s hcalls hnames hrun => ?_⟩
  have hunique : s.Unique (n + 1) := Lib.run_invariant (fun _ _ _ h hc ht => h.step hc.1 hc.2 ht)
    (unique_init _ UEs Is_rrc_registered)
    ((hmeets hapart calls hcalls hnames).and (Lib.meets_of_forall hnames _)) hrun
  exact ⟨fun u hu => ⟨hunique.ues_valid u hu, hunique.findUeId hu⟩, hunique.procs_valid,
    hunique.procs⟩

def preamble (taus : Nat) : RaCall := .initiateRaProc 0 5 0 1 0 taus

def msg3 (rnti : Nat) : RaCall :=
  .rxSdu 0 7 rnti 0 (some (Mem.copy (fun _ => 0) 0 [0x00, 1, 2, 3, 4, 5, 6])) 7 none

def schedule : RaCall := .scheduleRa fun _ => ⟨20, true, 0⟩

def twoAccesses : List RaCall :=
  [preamble 0x1234, .fillRar 0, msg3 0x1234, preamble 0x5678, schedule, .fillRar 0, msg3 0x5678,
    schedule]

theorem the_rntis_of_two_accesses :
    ∃ s, Lib.run (step 1) (init 2 true) twoAccesses = some s ∧
      s.enb.UE_list.map s.ueRnti = [0x5678, 0x1234] ∧
      ∀ u ∈ s.enb.UE_list, ¬ Reserved (s.ueRnti u) ∧ s.enb.findUeId (s.ueRnti u) = some u := by
  obtain ⟨s, hrun, hrntis⟩ : ∃ s, Lib.run (step 1) (init 2 true) twoAccesses = some s ∧
      s.enb.UE_list.map s.ueRnti = [0x5678, 0x1234] := Lib.run_decided (by decide +kernel)
  refine ⟨s, hrun, hrntis, ?_⟩
  exact ((every_rnti_stands_for_one_ue 0 2 true _).2 (by decide) twoAccesses s rfl
    (by decide +kernel) hrun).1

/-- `taus` gives the same value twice, and one that is zero as an RNTI: two processes have the same
RNTI, and one has none. A second Msg3 names an RNTI that nobody has: two UEs have the same RNTI, and
only one of them is found. -/
theorem an_rnti_is_given_twice :
    (Lib.run (step 1) (init 2 true) [preamble 0x1234, preamble 0x11234, preamble 0x10000]).map
      (fun s =>
      (finRange 3).map fun i =>
        ((s.template (0, i.castSucc)).RA_active, (s.template (0, i.castSucc)).rnti)) =
      some [(true, 0x1234), (true, 0x1234), (true, 0)] ∧
    (Lib.run (step 1) (init 2 true) [preamble 0x1234, .fillRar 0, msg3 0x1234,
      .rxSdu 0 7 0x1234 0
        (some (Mem.copy (fun _ => 0) 0 [0x3B, 0x00, 0x99, 0x99, 1, 2, 3, 4, 5, 6])) 10 none]).map
      (fun s => (s.enb.UE_list, s.enb.UE_list.map s.ueRnti, s.enb.findUeId 0x1234)) =
      some ([1, 0], [0x1234, 0x1234], some 1) := by
  constructor
  · decide +kernel
  · decide +kernel

end RaEnb

end MacRlcSplit.Mac
