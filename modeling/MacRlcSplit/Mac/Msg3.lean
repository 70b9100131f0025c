-- What an uplink block does to the list of UEs and to the random access
-- processes: a CCCH SDU under the RNTI of a process is its Msg3, and adds a UE
-- if none has the RNTI. Everything else leaves both as they were.
import MacRlcSplit.Mac.RandomAccess

namespace MacRlcSplit.Mac

open Am List Option

/-! ## Two eNBs -/

/-- The same UEs under the same RNTIs. -/
structure SameList (e e' : Enb) : Prop where
  UE_list : e'.UE_list = e.UE_list
  avail : e'.avail = e.avail
  pCC_id : e'.pCC_id = e.pCC_id
  rnti : ∀ c u, (e'.UE_template c u).rnti = (e.UE_template c u).rnti

/-- One UE more. -/
structure Added (CC_id rnti UE_id : Nat) (e e' : Enb) : Prop where
  UE_list : e'.UE_list = UE_id :: e.UE_list
  avail : e.avail = UE_id :: e'.avail
  has : e'.HasRnti rnti UE_id
  others : ∀ u, u ≠ UE_id → e'.pCC_id u = e.pCC_id u ∧ ∀ c,
    (e'.UE_template c u).rnti = (e.UE_template c u).rnti

/-- The same processes, but for what Msg3 changes in an active one. -/
structure SameProcs (e e' : Enb) : Prop where
  rnti : ∀ c i, (e'.RA_template c i).rnti = (e.RA_template c i).rnti
  RA_active : ∀ c i, (e'.RA_template c i).RA_active = (e.RA_template c i).RA_active
  wait_ack_Msg4 : ∀ c i, (e'.RA_template c i).wait_ack_Msg4 = true →
    (e.RA_template c i).wait_ack_Msg4 = true
  inactive : ∀ c i, (e.RA_template c i).RA_active = false → e'.RA_template c i = e.RA_template c i

variable {e e' e'' : Enb} {CC_id rnti UE_id : Nat}

theorem SameUes.sameList (h : SameUes e e') : SameList e e' :=
  ⟨h.UE_list, h.avail, h.pCC_id, h.rnti⟩

theorem SameUes.sameProcs (h : SameUes e e') : SameProcs e e' := by
  refine ⟨?_, ?_, ?_, ?_⟩ <;> simp [h.RA_template]

theorem SameList.refl (e : Enb) : SameList e e := ⟨rfl, rfl, rfl, fun _ _ => rfl⟩

theorem SameList.trans (h : SameList e e') (h' : SameList e' e'') : SameList e e'' :=
  ⟨h'.UE_list.trans h.UE_list, h'.avail.trans h.avail, h'.pCC_id.trans h.pCC_id,
    fun c u => (h'.rnti c u).trans (h.rnti c u)⟩

theorem SameProcs.refl (e : Enb) : SameProcs e e :=
  ⟨fun _ _ => rfl, fun _ _ => rfl, fun _ _ h => h, fun _ _ _ => rfl⟩

theorem SameProcs.trans (h : SameProcs e e') (h' : SameProcs e' e'') : SameProcs e e'' where
  rnti c i := (h'.rnti c i).trans (h.rnti c i)
  RA_active c i := (h'.RA_active c i).trans (h.RA_active c i)
  wait_ack_Msg4 c i hw := h.wait_ack_Msg4 c i (h'.wait_ack_Msg4 c i hw)
  inactive c i hi := (h'.inactive c i ((h.RA_active c i).trans hi)).trans (h.inactive c i hi)

theorem SameProcs.pending (h : SameProcs e e') (CC_id rnti : Nat) (ii : Fin NB_RA_PROC_MAX) :
    e'.Pending CC_id rnti ii ↔ e.Pending CC_id rnti ii := by
  simp only [Enb.Pending, h.rnti, h.RA_active]

theorem Added.sameList (h : Added CC_id rnti UE_id e e')
    (h' : SameList e' e'') : Added CC_id rnti UE_id e e'' := by
  refine ⟨h'.UE_list.trans h.UE_list, by rw [h'.avail, h.avail], ?_, fun u hu => ?_⟩
  · simpa only [Enb.HasRnti, h'.UE_list, h'.pCC_id, h'.rnti] using h.has
  · rw [h'.pCC_id]
    exact ⟨(h.others u hu).1, fun c => (h'.rnti c u).trans ((h.others u hu).2 c)⟩

theorem added_addNewUe (h : e.addNewUe CC_id rnti = some (UE_id, e')) :
    Added CC_id rnti UE_id e e' ∧ e'.RA_template = e.RA_template := by
  obtain ⟨hnew, hothers, -⟩ := Enb.added h
  have hlists : e'.UE_list = UE_id :: e.UE_list ∧ e.avail = UE_id :: e'.avail ∧
      e'.RA_template = e.RA_template := by
    unfold Enb.addNewUe at h
    split at h
    · cases h
    · rename_i havail
      cases h
      exact ⟨rfl, havail, rfl⟩
  refine ⟨⟨hlists.1, hlists.2.1, hnew, fun u hu => ⟨(hothers u hu).pCC_id, fun c => ?_⟩⟩,
    hlists.2.2⟩
  rw [(hothers u hu).template c]

theorem sameProcs_modifyRa (e : Enb) (CC_id : Nat) {ii : Fin NB_RA_PROC_MAX}
    {f : RaTemplate → RaTemplate} (hactive : (e.RA_template CC_id ii).RA_active)
    (hf : ∀ ra, (f ra).rnti = ra.rnti ∧ (f ra).RA_active = ra.RA_active ∧
      ((f ra).wait_ack_Msg4 → ra.wait_ack_Msg4)) :
    SameProcs e (e.modifyRa CC_id ii f) := by
  refine ⟨fun c i => ?_, fun c i => ?_, fun c i hw => ?_, fun c i hi => ?_⟩
  · simp only [Enb.modifyRa]
    split
    · exact (hf _).1
    · rfl
  · simp only [Enb.modifyRa]
    split
    · exact (hf _).2.1
    · rfl
  · simp only [Enb.modifyRa] at hw
    split at hw
    · exact (hf _).2.2 hw
    · exact hw
  · simp only [Enb.modifyRa]
    split
    · rename_i hci
      rw [hci.1, hci.2, hactive] at hi
      cases hi
    · rfl

/-! ## The elements -/

namespace RxRun

variable {r r' : RxRun}

/-- The elements change no list, whatever they name. If they name the RNTI of the block, or none,
the UE stays the one that has it. -/
theorem sameUes_elements (rnti : Nat) (block : Mem) (CC_id frame : Nat) (ces : List Nat)
    (r : RxRun) : SameUes r.enb (ces.foldl (element block CC_id frame) r).enb ∧
      (r.UE_id = r.enb.findUeId rnti → (∀ c ∈ crntis block r.payload_ptr ces, c = rnti) →
        (ces.foldl (element block CC_id frame) r).UE_id = r.enb.findUeId rnti) := by
  induction ces generalizing r with
  | nil => exact ⟨SameUes.refl _, fun h _ => h⟩
  | cons lcid ces ih =>
    have hsame := sameUes_element block CC_id frame r lcid
    obtain ⟨hrest, hUE⟩ := ih (r.element block CC_id frame lcid)
    refine ⟨hsame.trans hrest, fun h hces => ?_⟩
    simp only [crntis] at hces
    rw [payload_ptr_element, hsame.findUeId] at hUE
    apply hUE
    · by_cases hlcid : lcid = CRNTI
      · subst hlcid
        have hc := hces _ (by simp only [if_true]; exact mem_cons_self)
        simp only [element, if_neg (show CRNTI ≠ POWER_HEADROOM by decide), if_true, add_zero, hc,
          crnti]
        exact (reads_inSync _ _).UE_id
      · exact (reads_element block CC_id frame r hlcid).UE_id.trans h
    · intro c hc
      apply hces
      split
      · exact mem_cons_of_mem _ hc
      · exact hc

/-! ## The SDUs -/

/-- Where the run stands: the UE is the one that had the RNTI, or one that was added for it. -/
structure Registering (CC_id rnti : Nat) (enb : Enb) (r : RxRun) : Prop where
  procs : SameProcs enb r.enb
  list : r.UE_id = enb.findUeId rnti ∧ SameList enb r.enb ∨
    enb.findUeId rnti = none ∧ ∃ u, r.UE_id = some u ∧ Added CC_id rnti u enb r.enb

variable {enb : Enb}

theorem Registering.touches (h : Registering CC_id rnti enb r)
    (ht : Touches r r') : Registering CC_id rnti enb r' := by
  refine ⟨h.procs.trans ht.ues.sameProcs, ?_⟩
  rcases h.list with ⟨hUE, hlist⟩ | ⟨hnone, u, hUE, hadded⟩
  · exact .inl ⟨ht.UE_id.trans hUE, hlist.trans ht.ues.sameList⟩
  · exact .inr ⟨hnone, u, ht.UE_id.trans hUE, hadded.sameList ht.ues.sameList⟩

theorem sameProcs_register {ii : Fin NB_RA_PROC_MAX} {cr : List Byte}
    (hpending : r.enb.Pending CC_id rnti ii)
    (hr : r.register CC_id ii cr = some r') : SameProcs r.enb r'.enb ∧ r'.UE_id.isSome := by
  unfold RxRun.register at hr
  split at hr
  · rename_i u hUE
    cases hr
    exact ⟨SameProcs.refl _, by simp [hUE]⟩
  · obtain ⟨⟨u, e₁⟩, hadd, rfl⟩ := map_eq_some_iff.1 hr
    have hra := sameProcs_modifyRa r.enb CC_id (f := fun ra =>
      { ra with cont_res_id := cr }) hpending.2 fun ra => ⟨rfl, rfl, fun h => h⟩
    refine ⟨hra.trans ?_, rfl⟩
    refine ⟨?_, ?_, ?_, ?_⟩ <;> simp [(added_addNewUe hadd).2]

theorem sameProcs_raProc {cr sdu : List Byte} {ii : Fin NB_RA_PROC_MAX}
    (hr : RxRun.raProc CC_id rnti cr sdu r ii = some r') : SameProcs r.enb r'.enb := by
  simp only [RxRun.raProc] at hr
  split at hr
  · rename_i hpending
    obtain ⟨r₁, hregister, rfl⟩ := map_eq_some_iff.1 hr
    obtain ⟨hsame, -⟩ := sameProcs_register hpending hregister
    exact hsame.trans (sameProcs_modifyRa r₁.enb CC_id ((hsame.RA_active CC_id ii).trans hpending.2)
      (f := fun ra => { ra with generate_Msg4 := true, wait_ack_Msg4 := false })
      fun ra => ⟨rfl, rfl, Bool.noConfusion⟩)
  · cases hr
    exact SameProcs.refl _

theorem sameProcs_sdu {block : Mem} {x : Nat × Nat}
    (hr : RxRun.sdu block CC_id rnti r x = some r') : SameProcs r.enb r'.enb := by
  obtain ⟨r₁, htake, rfl⟩ := map_eq_some_iff.1 hr
  show SameProcs r.enb r₁.enb
  by_cases hccch : x.1 = CCCH
  · simp only [RxRun.take, if_pos hccch, RxRun.ccch] at htake
    split at htake
    · cases htake
      exact SameProcs.refl _
    · exact Lib.foldlM_keeps (P := fun t : RxRun => SameProcs r.enb t.enb)
        (fun _ _ _ _ h hturn => h.trans (sameProcs_raProc hturn)) (SameProcs.refl _) htake
  · exact (touches_take (fun hc => absurd hc hccch) htake).ues.sameProcs

theorem Registering.register (h : Registering CC_id rnti enb r) {ii : Fin NB_RA_PROC_MAX}
    {cr : List Byte} (hpending : r.enb.Pending CC_id rnti ii)
    (hr : r.register CC_id ii cr = some r') :
    Registering CC_id rnti enb r' := by
  refine ⟨h.procs.trans (sameProcs_register hpending hr).1, ?_⟩
  unfold RxRun.register at hr
  split at hr
  · cases hr
    exact h.list
  · rename_i hUE
    obtain ⟨⟨u, e₁⟩, hadd, rfl⟩ := map_eq_some_iff.1 hr
    have hrnti :
        ((r.enb.modifyRa CC_id ii fun ra => { ra with cont_res_id := cr }).RA_template CC_id
        ii).rnti = rnti := by simp [Enb.modifyRa, hpending.1]
    rw [hrnti] at hadd
    obtain ⟨hadded, -⟩ := added_addNewUe hadd
    rcases h.list with ⟨hfound, hlist⟩ | ⟨-, v, hv, -⟩
    · refine .inr ⟨hfound.symm.trans hUE, u, rfl, ?_⟩
      refine ⟨by rw [hadded.UE_list, ← hlist.UE_list]; rfl,
        by rw [← hlist.avail]; exact hadded.avail, hadded.has, ?_⟩
      intro w hw
      obtain ⟨hcc, hw'⟩ := hadded.others w hw
      exact ⟨hcc.trans (by rw [← hlist.pCC_id]; rfl), fun c => (hw' c).trans (hlist.rnti c w)⟩
    · rw [hUE] at hv
      cases hv

theorem Registering.raProc (h : Registering CC_id rnti enb r) {cr sdu : List Byte}
    {ii : Fin NB_RA_PROC_MAX} (hr : RxRun.raProc CC_id rnti cr sdu r ii = some r') :
    Registering CC_id rnti enb r' ∧ (r.UE_id.isSome ∨ enb.Pending CC_id rnti ii →
      r'.UE_id.isSome) := by
  have hprocs := h.procs.trans (sameProcs_raProc hr)
  simp only [RxRun.raProc] at hr
  split at hr
  · rename_i hpending
    obtain ⟨r₁, hregister, rfl⟩ := map_eq_some_iff.1 hr
    refine ⟨⟨hprocs, ?_⟩, fun _ => (sameProcs_register hpending hregister).2⟩
    rcases (h.register hpending hregister).list with ⟨hUE, hlist⟩ | ⟨hnone, u, hUE, hadded⟩
    · exact .inl ⟨hUE, hlist.trans ⟨rfl, rfl, rfl, fun _ _ => rfl⟩⟩
    · exact .inr ⟨hnone, u, hUE, hadded.sameList ⟨rfl, rfl, rfl, fun _ _ => rfl⟩⟩
  · rename_i hnot
    cases hr
    refine ⟨h, fun hknown => hknown.resolve_right fun hpending => hnot ?_⟩
    exact (h.procs.pending CC_id rnti ii).2 hpending

theorem Registering.ccch (h : Registering CC_id rnti enb r) {cr sdu : List Byte}
    (hr : r.ccch CC_id rnti cr sdu = some r') :
    Registering CC_id rnti enb r' ∧
      (r.UE_id.isSome ∨ sdu.length ≤ CCCH_PAYLOAD_SIZE_MAX ∧ (∃ ii, enb.Pending CC_id rnti ii) →
        r'.UE_id.isSome) := by
  unfold RxRun.ccch at hr
  split at hr
  · cases hr
    exact ⟨h, fun hknown => hknown.resolve_right fun hshort => by omega⟩
  · obtain ⟨h', hknown⟩ := Lib.foldlM_reaches
      (fun _ _ _ h hturn => h.raProc hturn) h hr
    exact ⟨h', fun hk => hknown (hk.imp_right fun ⟨_, ii, hii⟩ => ⟨ii, mem_finRange ii, hii⟩)⟩

theorem Registering.sdu (h : Registering CC_id rnti enb r) {block : Mem} {x : Nat × Nat}
    (hr : RxRun.sdu block CC_id rnti r x = some r') :
    Registering CC_id rnti enb r' ∧
      (r.UE_id.isSome ∨ (x.1 = CCCH ∧ x.2 ≤ CCCH_PAYLOAD_SIZE_MAX) ∧
        (∃ ii, enb.Pending CC_id rnti ii) → r'.UE_id.isSome) := by
  obtain ⟨r₁, htake, rfl⟩ := map_eq_some_iff.1 hr
  have h₁ : Registering CC_id rnti enb r₁ ∧
      (r.UE_id.isSome ∨ (x.1 = CCCH ∧ x.2 ≤ CCCH_PAYLOAD_SIZE_MAX) ∧
        (∃ ii, enb.Pending CC_id rnti ii) → r₁.UE_id.isSome) := by
    by_cases hccch : x.1 = CCCH
    · simp only [RxRun.take, if_pos hccch] at htake
      obtain ⟨h', hknown⟩ := h.ccch htake
      refine ⟨h', fun hk => hknown (hk.imp_right fun hk => ⟨?_, hk.2⟩)⟩
      rw [length_read]
      exact hk.1.2
    · have ht := touches_take (fun hc => absurd hc hccch) htake
      refine ⟨h.touches ht, fun hk => ?_⟩
      rw [ht.UE_id]
      exact hk.resolve_right fun hk => hccch hk.1.1
  exact ⟨⟨h₁.1.procs, h₁.1.list⟩, h₁.2⟩

theorem Registering.sdus (block : Mem) {sdus : List (Nat × Nat)} (h : Registering CC_id rnti enb r)
    (hr : sdus.foldlM (RxRun.sdu block CC_id rnti) r = some r') :
    Registering CC_id rnti enb r' ∧
        (r.UE_id.isSome ∨ (∃ x ∈ sdus, x.1 = CCCH ∧ x.2 ≤ CCCH_PAYLOAD_SIZE_MAX) ∧
        (∃ ii, enb.Pending CC_id rnti ii) → r'.UE_id.isSome) := by
  obtain ⟨h', hknown⟩ := Lib.foldlM_reaches
    (fun _ _ _ h hturn => h.sdu hturn) h hr
  exact ⟨h', fun hk =>
    hknown (hk.imp_right fun ⟨⟨x, hx, hccch⟩, hpending⟩ => ⟨x, hx, hccch, hpending⟩)⟩

theorem sameUes_sdus (block : Mem) {sdus : List (Nat × Nat)}
    (hno : (∃ x ∈ sdus, x.1 = CCCH ∧ x.2 ≤ CCCH_PAYLOAD_SIZE_MAX) → ∀ ii,
      ¬ r.enb.Pending CC_id rnti ii)
    (hr : sdus.foldlM (RxRun.sdu block CC_id rnti) r = some r') : SameUes r.enb r'.enb := by
  refine Lib.foldlM_keeps (P := fun t : RxRun => SameUes r.enb t.enb) (fun s t x hx hs hturn => ?_)
    (SameUes.refl _) hr
  obtain ⟨r₁, htake, rfl⟩ := map_eq_some_iff.1 hturn
  have ht := touches_take (fun hccch hlength ii => ?_) htake
  · exact hs.trans ht.ues
  · rw [length_read] at hlength
    rw [Enb.Pending, hs.RA_template]
    exact hno ⟨x, hx, hccch, hlength⟩ ii

/-! ## The whole block -/

/-- A Msg3 names no RNTI but its own. -/
def Msg3Names (rnti : Nat) (sdu : Option Mem) (size : Nat) : Prop :=
  ∀ block p, sdu = some block → parseUlschHeader block size = some p →
  ∀ c ∈ crntis block p.ptr p.ces, c = rnti

/-- What an uplink block does to UEs and processes. -/
inductive BlockEffect (CC_id rnti : Nat) (enb : Enb) (msg3 : Prop) (r : RxRun) : Prop where
  | other (h : ¬ msg3) (ues : SameUes enb r.enb)
  | known (h : msg3) (u : Nat) (UE_id : r.UE_id = some u) (found : enb.findUeId rnti = some u)
      (list : SameList enb r.enb) (procs : SameProcs enb r.enb)
  | added (h : msg3) (u : Nat) (UE_id : r.UE_id = some u) (unknown : enb.findUeId rnti = none)
      (list : Added CC_id rnti u enb r.enb) (procs : SameProcs enb r.enb)

theorem BlockEffect.procs {msg3 : Prop} (h : BlockEffect CC_id rnti enb msg3 r) :
    SameProcs enb r.enb := by
  cases h with
  | other _ ues => exact ues.sameProcs
  | known _ _ _ _ _ procs => exact procs
  | added _ _ _ _ _ procs => exact procs

/-- Whatever a block names, no process is ended by it. -/
theorem sameProcs_rxSdu {frame harq_pid size : Nat} {sdu : Option Mem} {msg3_flag : Option Bool}
    (h : rxSdu CC_id frame rnti harq_pid enb sdu size msg3_flag = some r) :
    SameProcs enb r.enb := by
  unfold rxSdu at h
  cases sdu with
  | none =>
    dsimp only at h
    split at h
    · cases h
    · cases h
      exact (reads_unscheduled { enb := enb, UE_id := enb.findUeId rnti, msg3_flag := msg3_flag }
        harq_pid).ues.sameProcs
  | some block =>
    obtain ⟨p, -, h⟩ := bind_eq_some_iff.1 h
    obtain ⟨r₁, hsdus, rfl⟩ := map_eq_some_iff.1 h
    have hread := (reads_opened enb rnti harq_pid msg3_flag).ues.trans (sameUes_elements rnti
      block CC_id frame p.ces { opened enb rnti harq_pid msg3_flag with payload_ptr := p.ptr }).1
    have hend := Lib.foldlM_keeps (P := fun t : RxRun => SameProcs enb t.enb)
      (fun _ _ _ _ h hturn => h.trans (sameProcs_sdu hturn)) hread.sameProcs hsdus
    exact hend.trans (drops_finish CC_id (size % 2 ^ 16) p r₁).ues.sameProcs

theorem rxSdu_effect {frame harq_pid size : Nat} {sdu : Option Mem} {msg3_flag : Option Bool}
    (hnames : RaEnb.hasCcch sdu size → (∃ ii, enb.Pending CC_id rnti ii) → Msg3Names rnti sdu size)
    (h : rxSdu CC_id frame rnti harq_pid enb sdu size msg3_flag = some r) :
    BlockEffect CC_id rnti enb (RaEnb.hasCcch sdu size ∧ ∃ ii, enb.Pending CC_id rnti ii) r := by
  unfold rxSdu at h
  cases sdu with
  | none =>
    dsimp only at h
    split at h
    · cases h
    · cases h
      have hsame := (reads_unscheduled { enb := enb, UE_id := enb.findUeId rnti, msg3_flag :=
        msg3_flag } harq_pid).ues
      exact .other (fun hmsg3 => by cases hmsg3.1) hsame
  | some block =>
    obtain ⟨p, hparse, h⟩ := bind_eq_some_iff.1 h
    obtain ⟨r₁, hsdus, rfl⟩ := map_eq_some_iff.1 h
    have hdrops := drops_finish CC_id (size % 2 ^ 16) p r₁
    have hfinish := hdrops.ues
    have hopened := reads_opened enb rnti harq_pid msg3_flag
    have hhead := hopened.ues
    obtain ⟨hces, hUE⟩ := sameUes_elements rnti block CC_id frame p.ces
      { opened enb rnti harq_pid msg3_flag with payload_ptr := p.ptr }
    have hread := hhead.trans hces
    have hccch : RaEnb.hasCcch (some block) size ↔ ∃ x ∈ p.sdus, x.1 = CCCH ∧
        x.2 ≤ CCCH_PAYLOAD_SIZE_MAX := by
      simp only [RaEnb.hasCcch, hparse, List.any_eq_true, decide_eq_true_eq]
    by_cases hmsg3 : RaEnb.hasCcch (some block) size ∧ ∃ ii, enb.Pending CC_id rnti ii
    · have hstart : Registering CC_id rnti enb (p.ces.foldl (element block CC_id frame)
          { opened enb rnti harq_pid msg3_flag with payload_ptr := p.ptr }) := by
        refine ⟨hread.sameProcs, .inl ⟨?_, hread.sameList⟩⟩
        refine (hUE ?_ (hnames hmsg3.1 hmsg3.2 block p rfl hparse)).trans (hhead.findUeId rnti)
        exact hopened.UE_id.trans (hhead.findUeId rnti).symm
      obtain ⟨hend, hknown⟩ := hstart.sdus block hsdus
      have hsome := hknown (.inr ⟨hccch.1 hmsg3.1, hmsg3.2⟩)
      have hprocs := hend.procs.trans hfinish.sameProcs
      rcases hend.list with ⟨hfound, hlist⟩ | ⟨hnone, u, hu, hadded⟩
      · obtain ⟨u, hu⟩ := isSome_iff_exists.1 hsome
        exact .known hmsg3 u (hdrops.UE_id.trans hu) (hfound.symm.trans hu)
          (hlist.trans hfinish.sameList) hprocs
      · exact .added hmsg3 u (hdrops.UE_id.trans hu) hnone (hadded.sameList hfinish.sameList) hprocs
    · refine .other hmsg3 ((hread.trans (sameUes_sdus block (fun hx ii hpending => ?_) hsdus)).trans
        hfinish)
      refine hmsg3 ⟨hccch.2 hx, ii, ?_⟩
      rwa [Enb.Pending, hread.RA_template] at hpending

end RxRun

end MacRlcSplit.Mac
