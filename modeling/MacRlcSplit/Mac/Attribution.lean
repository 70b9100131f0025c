-- Whose a block is. `rx_sdu` hands every SDU up under the RNTI that the block was
-- received under, but keeps the books of the UE that the last C-RNTI control
-- element names. A block that names no other UE is of one UE only.
import MacRlcSplit.Lib.Run
import MacRlcSplit.Mac.Uplink

namespace MacRlcSplit.Mac

open Am List Option

/-! ## One UE among the others -/

/-- A UE of the list whose `UE_RNTI` this is. -/
def Enb.HasRnti (e : Enb) (rnti UE_id : Nat) : Prop :=
  UE_id ∈ e.UE_list ∧ (e.UE_template (e.pCC_id UE_id) UE_id).rnti = rnti

variable {e : Enb}

theorem Enb.hasRnti_of_found {rnti UE_id : Nat}
    (h : e.findUeId rnti = some UE_id) : e.HasRnti rnti UE_id :=
  ⟨mem_of_find?_eq_some h, by simpa using find?_some h⟩

namespace SameUe

variable {e' : Enb} {UE_id : Nat}

theorem hasRnti (h : SameUe e e' UE_id) (rnti : Nat) : e'.HasRnti rnti UE_id ↔
    e.HasRnti rnti UE_id := by
  simp only [Enb.HasRnti, h.listed, h.pCC_id, h.template]

theorem modifyRa (e : Enb) (CC_id : Nat) (ii : Fin NB_RA_PROC_MAX) (f : RaTemplate → RaTemplate)
    (UE_id : Nat) :
    SameUe e (e.modifyRa CC_id ii f) UE_id := ⟨Iff.rfl, rfl, fun _ => rfl, rfl, fun _ => rfl⟩

end SameUe

theorem Enb.added {e' : Enb} {CC_id rnti UE_id : Nat}
    (h : e.addNewUe CC_id rnti = some (UE_id, e')) :
    e'.HasRnti rnti UE_id ∧ (∀ u ≠ UE_id, SameUe e e' u) ∧ e'.eNB_UE_stats = e.eNB_UE_stats := by
  unfold addNewUe at h
  split at h
  · cases h
  cases h
  refine ⟨?_, fun u hu => ⟨?_, ?_, ?_, ?_, ?_⟩, rfl⟩
  · simp [HasRnti, modifyCtrl, modifyTemplate]
  all_goals simp [modifyCtrl, modifyTemplate, hu]

theorem SameUes.hasRnti {e' : Enb} (h : SameUes e e') (rnti UE_id : Nat) :
    e'.HasRnti rnti UE_id ↔ e.HasRnti rnti UE_id := by
  simp only [Enb.HasRnti, h.UE_list, h.pCC_id, h.rnti]

/-! ## What was handed to RLC -/

def EnbSdu.rnti : EnbSdu → Nat
  | macRrcDataInd rnti _ => rnti
  | macRlcDataInd rnti _ _ => rnti

def rlcSdus (lcid : Nat) (handed : List EnbSdu) : List (List Byte) := handed.filterMap fun
    | .macRlcDataInd _ l sdu => if l = lcid then some sdu else none
    | .macRrcDataInd _ _ => none

@[simp] theorem rlcSdus_nil (lcid : Nat) : rlcSdus lcid [] = [] := rfl

@[simp] theorem rlcSdus_rrc (lcid rnti : Nat) (handed : List EnbSdu) (sdu : List Byte) :
    rlcSdus lcid (handed ++ [.macRrcDataInd rnti sdu]) = rlcSdus lcid handed := by
  simp [rlcSdus]

theorem rlcSdus_rlc (lcid rnti l : Nat) (handed : List EnbSdu) (sdu : List Byte) :
    rlcSdus lcid (handed ++ [.macRlcDataInd rnti l sdu]) =
      if l = lcid then rlcSdus lcid handed ++ [sdu] else rlcSdus lcid handed := by
  by_cases h : l = lcid
  all_goals simp [rlcSdus, h]

/-- The counters of received SDUs have gone up by what was handed to RLC, those of the UE that the
run is about, and no others. -/
def Counted (CC_id : Nat) (enb : Enb) (r : RxRun) : Prop := ∀ c u lcid,
    let new := if c = CC_id ∧ r.UE_id = some u then rlcSdus lcid r.handed else []
    (r.enb.eNB_UE_stats c u).num_pdu_rx lcid = (enb.eNB_UE_stats c u).num_pdu_rx lcid + new.length ∧
      (r.enb.eNB_UE_stats c u).num_bytes_rx lcid =
        (enb.eNB_UE_stats c u).num_bytes_rx lcid + (new.map List.length).sum

/-! ## The elements -/

/-- The bytes over which `rx_sdu` moves its pointer. -/
def elementLength (lcid : Nat) : Nat :=
  if lcid = POWER_HEADROOM then 1
  else if lcid = CRNTI then 2
  else if lcid = TRUNCATED_BSR ∨ lcid = SHORT_BSR then 1
  else if lcid = LONG_BSR then 3
  else 0

/-- The RNTIs that the elements of a block name. -/
def crntis (block : Mem) : Nat → List Nat → List Nat
  | _, [] => []
  | ptr, lcid :: ces =>
    let rest := crntis block (ptr + elementLength lcid) ces
    if lcid = CRNTI then ((block ptr).toNat * 256 + (block (ptr + 1)).toNat) :: rest else rest

/-- A block names no UE but the one that it was received from. -/
def NamesNoOther (enb : Enb) (rnti : Nat) (block : Mem) (size : Nat) : Prop :=
  ∀ p, parseUlschHeader block size = some p → ∀ c ∈ crntis block p.ptr p.ces, c = rnti ∨
  enb.findUeId c = none

instance (enb : Enb) (rnti : Nat) (block : Mem)
    (size : Nat) : Decidable (NamesNoOther enb rnti block size) :=
  match h : parseUlschHeader block size with
  | none => isTrue fun p hp => by simp [h] at hp
  | some p => decidable_of_iff (∀ c ∈ crntis block p.ptr p.ces,
      c = rnti ∨ enb.findUeId c = none) (by
      simp [NamesNoOther, h])

namespace RxRun

variable {r r' : RxRun}

theorem payload_ptr_element (block : Mem) (CC_id frame : Nat) (r : RxRun) (lcid : Nat) :
    (r.element block CC_id frame lcid).payload_ptr = r.payload_ptr + elementLength lcid := by
  simp only [element, elementLength]
  split_ifs <;> rfl

variable {lcid UE_id : Nat} {sdu cont_res_id : List Byte}

theorem reads_element (block : Mem) (CC_id frame : Nat) (r : RxRun) (hlcid : lcid ≠ CRNTI) :
    Reads r (r.element block CC_id frame lcid) := by
  simp only [element, if_neg hlcid]
  split_ifs
  · exact (reads_powerHeadroom CC_id r _).at _
  · exact (reads_template CC_id r fun _ => by rfl).at _
  · exact (reads_template CC_id r fun _ => by rfl).at _
  · exact .refl r

theorem sameUes_element (block : Mem) (CC_id frame : Nat) (r : RxRun) (lcid : Nat) :
    SameUes r.enb (r.element block CC_id frame lcid).enb := by
  by_cases hlcid : lcid = CRNTI
  · subst hlcid
    have hsync := fun c => reads_inSync { r with UE_id := r.enb.findUeId c } c
    exact (hsync _).ues
  · exact (reads_element block CC_id frame r hlcid).ues

/-- The run is about the UE with the RNTI of the block, or about none, and has changed no other. -/
structure Reading (enb : Enb) (rnti : Nat) (r : RxRun) : Prop where
  sender : ∀ u, r.UE_id = some u → enb.findUeId rnti = some u
  ues : SameUes enb r.enb
  others : ∀ u, enb.findUeId rnti ≠ some u → SameUe enb r.enb u

variable {enb : Enb} {rnti : Nat}

theorem Reading.touches (h : Reading enb rnti r) (ht : Touches r r') : Reading enb rnti r' := by
  refine ⟨fun u hu => h.sender u (ht.UE_id.symm.trans hu), h.ues.trans ht.ues, fun u hu => ?_⟩
  exact (h.others u hu).trans (ht.others u fun hUE => hu (h.sender u hUE))

theorem Reading.crnti (h : Reading enb rnti r) {c : Nat} (hc : c = rnti ∨ enb.findUeId c = none) :
    Reading enb rnti (r.crnti c) := by
  have hnamed : Reading enb rnti { r with UE_id := r.enb.findUeId c } := by
    refine ⟨fun u hu => ?_, h.ues, h.others⟩
    have hfound : enb.findUeId c = some u := (h.ues.findUeId c).symm.trans hu
    obtain rfl | hnone := hc
    · exact hfound
    · rw [hnone] at hfound
      cases hfound
  have := hnamed.touches (reads_inSync _ c).toTouches
  exact ⟨this.sender, this.ues, this.others⟩

theorem Reading.element (h : Reading enb rnti r) (block : Mem) (CC_id frame lcid : Nat)
    (hc : lcid = CRNTI →
      (block r.payload_ptr).toNat * 256 + (block (r.payload_ptr + 1)).toNat = rnti ∨
        enb.findUeId ((block r.payload_ptr).toNat * 256 + (block (r.payload_ptr + 1)).toNat) =
          none) :
    Reading enb rnti (r.element block CC_id frame lcid) ∧
      (r.element block CC_id frame lcid).enb.eNB_UE_stats = r.enb.eNB_UE_stats ∧
      (r.element block CC_id frame lcid).handed = r.handed := by
  by_cases hlcid : lcid = CRNTI
  · subst hlcid
    have hread := h.crnti (hc rfl)
    have hsync := fun c => reads_inSync { r with UE_id := r.enb.findUeId c } c
    exact ⟨⟨hread.sender, hread.ues, hread.others⟩, (hsync _).stats, (hsync _).handed⟩
  · have hreads := reads_element block CC_id frame r hlcid
    exact ⟨h.touches hreads.toTouches, hreads.stats, hreads.handed⟩

theorem Reading.elements (block : Mem) (CC_id frame : Nat) (ces : List Nat) (h : Reading enb rnti r)
    (hces : ∀ c ∈ crntis block r.payload_ptr ces, c = rnti ∨ enb.findUeId c = none) :
    Reading enb rnti (ces.foldl (RxRun.element block CC_id frame) r) ∧
      (ces.foldl (RxRun.element block CC_id frame) r).enb.eNB_UE_stats = r.enb.eNB_UE_stats ∧
      (ces.foldl (RxRun.element block CC_id frame) r).handed = r.handed := by
  induction ces generalizing r with
  | nil => exact ⟨h, rfl, rfl⟩
  | cons lcid ces ih =>
    simp only [crntis] at hces
    obtain ⟨hread, hstats, hhanded⟩ := h.element block CC_id frame lcid (by
      intro hlcid
      apply hces
      simp [hlcid])
    obtain ⟨hread', hstats', hhanded'⟩ := ih hread (by
      rw [payload_ptr_element]
      intro c hmem
      apply hces
      split
      · exact mem_cons_of_mem _ hmem
      · exact hmem)
    exact ⟨hread', hstats'.trans hstats, hhanded'.trans hhanded⟩

/-! ## The SDUs -/

variable {CC_id : Nat}

theorem only_adjustBuffer {e e' : Enb} {length : Nat}
    (h : adjustBuffer e CC_id UE_id lcid length = some e') :
    OnlyAt UE_id e e' ∧ e'.eNB_UE_stats = e.eNB_UE_stats := by
  unfold adjustBuffer at h
  split at h
  · cases h
    exact ⟨OnlyAt.modifyTemplate _ _ _ fun _ => rfl, rfl⟩
  · cases h

/-- Nothing is handed up, and no SDU is counted. -/
structure Drops (r r' : RxRun) : Prop extends Touches r r' where
  handed : r'.handed = r.handed
  num_pdu_rx : ∀ c u, (r'.enb.eNB_UE_stats c u).num_pdu_rx = (r.enb.eNB_UE_stats c u).num_pdu_rx
  num_bytes_rx : ∀ c u, (r'.enb.eNB_UE_stats c u).num_bytes_rx =
    (r.enb.eNB_UE_stats c u).num_bytes_rx

theorem Drops.flag (r : RxRun) (msg3_flag : Option Bool) :
    Drops r { r with msg3_flag := msg3_flag } :=
  ⟨⟨rfl, .refl _, fun _ _ => .refl _ _⟩, rfl, fun _ _ => rfl, fun _ _ => rfl⟩

/-- Other counters of the UE may go up. -/
theorem Drops.stats (h : Drops r r') (hUE : r.UE_id = some UE_id) {f : UeStats → UeStats}
    (hf : ∀ s, (f s).num_pdu_rx = s.num_pdu_rx ∧ (f s).num_bytes_rx = s.num_bytes_rx) :
    Drops r { r' with enb := r'.enb.modifyStats CC_id UE_id f } := by
  have ht : Touches r' { r' with enb := r'.enb.modifyStats CC_id UE_id f } :=
    .of_only (h.UE_id.trans hUE) rfl (.modifyStats _ _ _ _)
  refine ⟨h.toTouches.trans ht, h.handed, fun c u => ?_, fun c u => ?_⟩
  · rw [← h.num_pdu_rx]
    simp only [Enb.modifyStats]
    split
    · exact (hf _).1
    · rfl
  · rw [← h.num_bytes_rx]
    simp only [Enb.modifyStats]
    split
    · exact (hf _).2
    · rfl

/-- What an SDU that is not on the CCCH does: nothing, an error that is counted, or a delivery. -/
inductive Delivers (CC_id rnti lcid : Nat) (sdu : List Byte) (r r' : RxRun) : Prop where
  | drops (drops : Drops r r')
  | delivers (UE_id : Nat) (known : r.UE_id = some UE_id) (touches : Touches r r')
      (stats : ∃ enb, enb.eNB_UE_stats = r.enb.eNB_UE_stats ∧
        r' = { r with enb := enb }.toRlc CC_id UE_id rnti lcid sdu)

theorem Delivers.touches (h : Delivers CC_id rnti lcid sdu r r') : Touches r r' := by
  cases h with
  | drops drops => exact drops.toTouches
  | delivers _ _ touches => exact touches

theorem delivers_toRlc {length : Nat} {enb : Enb} (hUE : r.UE_id = some UE_id) (sdu : List Byte)
    (h : adjustBuffer r.enb CC_id UE_id lcid length = some enb) :
    Delivers CC_id rnti lcid sdu r ({ r with enb := enb }.toRlc CC_id UE_id rnti lcid sdu) := by
  obtain ⟨honly, hstats⟩ := only_adjustBuffer h
  refine .delivers UE_id hUE (Touches.of_only hUE rfl ?_) ⟨enb, hstats, rfl⟩
  simp only [toRlc]
  exact honly.trans (OnlyAt.modifyStats _ _ _ _)

theorem delivers_dcch (h : r.dcch CC_id rnti lcid sdu = some r') :
    Delivers CC_id rnti lcid sdu r r' := by
  unfold dcch at h
  split at h
  · cases h
    exact .drops (.flag r _)
  · rename_i UE_id hUE
    obtain ⟨enb, hadjust, rfl⟩ := map_eq_some_iff.1 h
    exact delivers_toRlc hUE sdu hadjust

theorem delivers_dtch (h : r.dtch CC_id rnti lcid sdu = some r') :
    Delivers CC_id rnti lcid sdu r r' := by
  unfold dtch at h
  split at h
  · split at h
    · cases h
      exact .drops (.flag r _)
    rename_i UE_id hUE
    obtain ⟨enb, hadjust, hr⟩ := map_eq_some_iff.1 h
    split at hr
    · subst hr
      exact delivers_toRlc hUE sdu hadjust
    -- an SDU of length zero or of more than the maximum is an error of this UE
    subst hr
    obtain ⟨honly, hstats⟩ := only_adjustBuffer hadjust
    have hdrops : Drops r { r with enb := enb } :=
      ⟨.of_only hUE rfl honly, rfl, fun c u => by rw [hstats], fun c u => by rw [hstats]⟩
    exact .drops (hdrops.stats hUE fun _ => ⟨rfl, rfl⟩)
  · cases h
    exact .drops (.flag r _)

/-- Where the run stands between SDUs. -/
structure Delivering (CC_id rnti : Nat) (enb : Enb) (r : RxRun) : Prop where
  known : ∀ u, r.UE_id = some u → r.enb.HasRnti rnti u
  others : ∀ u, ¬ r.enb.HasRnti rnti u → SameUe enb r.enb u
  under : ∀ x ∈ r.handed, x.rnti = rnti
  counted : Counted CC_id enb r
  unknown : r.UE_id = none → ∀ lcid, rlcSdus lcid r.handed = []

theorem Delivering.touches (h : Delivering CC_id rnti enb r) (ht : Touches r r') :
    (∀ u, r'.UE_id = some u → r'.enb.HasRnti rnti u) ∧ ∀ u, ¬ r'.enb.HasRnti rnti u →
    SameUe enb r'.enb u := by
  refine ⟨fun u hu => (ht.ues.hasRnti rnti u).2 (h.known u (ht.UE_id.symm.trans hu)),
    fun u hu => ?_⟩
  have hnot : ¬ r.enb.HasRnti rnti u := fun hr => hu ((ht.ues.hasRnti rnti u).2 hr)
  exact (h.others u hnot).trans (ht.others u fun hUE => hnot (h.known u hUE))

theorem Delivering.drops (h : Delivering CC_id rnti enb r)
    (hd : Drops r r') : Delivering CC_id rnti enb r' where
  known := (h.touches hd.toTouches).1
  others := (h.touches hd.toTouches).2
  under := by rw [hd.handed]; exact h.under
  counted := by
    intro c u lcid
    rw [hd.num_pdu_rx, hd.num_bytes_rx, hd.handed, hd.UE_id]
    exact h.counted c u lcid
  unknown := by rw [hd.handed, hd.UE_id]; exact h.unknown

theorem counted_toRlc {e : Enb} (h : Counted CC_id enb r) (hUE : r.UE_id = some UE_id)
    (hstats : e.eNB_UE_stats = r.enb.eNB_UE_stats) (rnti lcid : Nat) (sdu : List Byte) :
    Counted CC_id enb ({ r with enb := e }.toRlc CC_id UE_id rnti lcid sdu) := by
  intro c u l
  obtain ⟨hpdu, hbytes⟩ := h c u l
  simp only [RxRun.toRlc, Enb.modifyStats, hstats, hUE, some.injEq, rlcSdus_rlc] at hpdu hbytes ⊢
  by_cases hcu : c = CC_id ∧ UE_id = u
  · obtain ⟨rfl, rfl⟩ := hcu
    by_cases hl : lcid = l
    · subst hl
      simp only [and_self, if_true, Function.update_self, length_append, map_append, sum_append,
        length_singleton, map_singleton, sum_singleton] at hpdu hbytes ⊢
      omega
    · simp only [and_self, if_true, if_neg hl, Function.update_of_ne (Ne.symm hl)] at hpdu hbytes ⊢
      exact ⟨hpdu, hbytes⟩
  · rw [if_neg hcu] at hpdu hbytes ⊢
    rw [if_neg fun h => hcu ⟨h.1, h.2.symm⟩]
    exact ⟨hpdu, hbytes⟩

theorem Delivering.delivers (h : Delivering CC_id rnti enb r)
    (hd : Delivers CC_id rnti lcid sdu r r') : Delivering CC_id rnti enb r' := by
  cases hd with
  | drops hd => exact h.drops hd
  | delivers UE_id hUE ht hr =>
    obtain ⟨e, hstats, rfl⟩ := hr
    refine ⟨(h.touches ht).1, (h.touches ht).2, ?_,
      counted_toRlc h.counted hUE hstats rnti lcid sdu, ?_⟩
    · intro x hx
      obtain hx | hx := mem_append.1 hx
      · exact h.under x hx
      · simp only [mem_singleton] at hx
        subst hx
        rfl
    · intro hnone
      exact absurd (hUE.symm.trans hnone) (by simp)

theorem Delivering.register (h : Delivering CC_id rnti enb r) {ii : Fin NB_RA_PROC_MAX}
    (hra : (r.enb.RA_template CC_id ii).rnti = rnti)
    (hr : r.register CC_id ii cont_res_id = some r') : Delivering CC_id rnti enb r' := by
  unfold RxRun.register at hr
  split at hr
  · cases hr
    exact h
  rename_i hnone
  obtain ⟨⟨UE_id, e⟩, hadd, rfl⟩ := map_eq_some_iff.1 hr
  have hrnti :
      ((r.enb.modifyRa CC_id ii fun ra => { ra with cont_res_id := cont_res_id }).RA_template CC_id
      ii).rnti = rnti := by simp [Enb.modifyRa, hra]
  rw [hrnti] at hadd
  obtain ⟨hnew, hrest, hstats⟩ := Enb.added hadd
  have hothers : ∀ v ≠ UE_id, SameUe r.enb e v := fun v hv =>
    (SameUe.modifyRa _ _ _ _ v).trans (hrest v hv)
  refine ⟨?_, ?_, h.under, ?_, fun hunknown => absurd hunknown (some_ne_none UE_id)⟩
  · rintro v ⟨⟩
    exact hnew
  · intro v hv
    have hsame := hothers v fun hv' => hv (hv' ▸ hnew)
    exact (h.others v fun hr => hv ((hsame.hasRnti rnti).2 hr)).trans hsame
  · intro c v lcid
    have hcount := h.counted c v lcid
    simp only [hnone, h.unknown hnone, hstats] at hcount ⊢
    simpa [Enb.modifyRa] using hcount

theorem Delivering.raProc (h : Delivering CC_id rnti enb r) {ii : Fin NB_RA_PROC_MAX}
    (hr : RxRun.raProc CC_id rnti cont_res_id sdu r ii = some r') :
    Delivering CC_id rnti enb r' := by
  simp only [RxRun.raProc] at hr
  split at hr
  · rename_i hra
    obtain ⟨r₁, hregister, rfl⟩ := map_eq_some_iff.1 hr
    have h₁ := h.register hra.1 hregister
    -- RLC gets nothing, and a process is not a UE
    have hrlc : ∀ lcid, rlcSdus lcid (if r₁.enb.Is_rrc_registered then
        r₁.handed ++ [.macRrcDataInd rnti sdu] else r₁.handed) = rlcSdus lcid r₁.handed := by
      intro lcid
      split
      · exact rlcSdus_rrc _ _ _ _
      · rfl
    refine ⟨h₁.known, fun u hu => ?_, ?_, ?_, fun hnone lcid => ?_⟩
    · have hsame := SameUe.modifyRa r₁.enb CC_id ii
        (fun ra => { ra with generate_Msg4 := true, wait_ack_Msg4 := false }) u
      exact (h₁.others u hu).trans hsame
    · intro x hx
      split at hx
      · obtain hx | hx := mem_append.1 hx
        · exact h₁.under x hx
        · simp only [mem_singleton] at hx
          subst hx
          rfl
      · exact h₁.under x hx
    · intro c u lcid
      have := h₁.counted c u lcid
      simp only [hrlc]
      exact this
    · rw [← h₁.unknown hnone lcid]
      exact hrlc lcid
  · cases hr
    exact h

theorem Delivering.ccch (h : Delivering CC_id rnti enb r)
    (hr : r.ccch CC_id rnti cont_res_id sdu = some r') : Delivering CC_id rnti enb r' := by
  unfold RxRun.ccch at hr
  split at hr
  · cases hr
    exact h
  · exact Lib.foldlM_keeps (fun _ _ _ _ h hturn => h.raProc hturn) h hr

theorem touches_take
    (hno : lcid = CCCH → sdu.length ≤ CCCH_PAYLOAD_SIZE_MAX → ∀ ii, ¬ r.enb.Pending CC_id rnti ii)
    (hr : r.take CC_id rnti lcid cont_res_id sdu = some r') : Touches r r' := by
  unfold take at hr
  split at hr
  · rename_i hccch
    unfold RxRun.ccch at hr
    split at hr
    · cases hr
      exact Touches.refl r
    rename_i hlength
    have hnone := hno hccch (Nat.le_of_not_lt hlength)
    have hskip : ∀ procs : List (Fin NB_RA_PROC_MAX),
        procs.foldlM (RxRun.raProc CC_id rnti cont_res_id sdu) r = some r := by
      intro procs
      induction procs with
      | nil => rfl
      | cons ii procs ih =>
        have hturn : RxRun.raProc CC_id rnti cont_res_id sdu r ii = some r := if_neg (hnone ii)
        rw [foldlM_cons, hturn]
        exact ih
    rw [hskip] at hr
    cases hr
    exact Touches.refl r
  · split at hr
    · exact (delivers_dcch hr).touches
    · exact (delivers_dtch hr).touches

theorem Delivering.take (h : Delivering CC_id rnti enb r)
    (hr : r.take CC_id rnti lcid cont_res_id sdu = some r') : Delivering CC_id rnti enb r' := by
  unfold RxRun.take at hr
  split at hr
  · exact h.ccch hr
  · split at hr
    · exact h.delivers (delivers_dcch hr)
    · exact h.delivers (delivers_dtch hr)

theorem Delivering.sdus (block : Mem) {sdus : List (Nat × Nat)} (h : Delivering CC_id rnti enb r)
    (hr : sdus.foldlM (RxRun.sdu block CC_id rnti) r = some r') : Delivering CC_id rnti enb r' := by
  refine Lib.foldlM_keeps (fun r t x _ h hturn => ?_) h hr
  obtain ⟨r₁, htake, rfl⟩ := map_eq_some_iff.1 hturn
  have h₁ := h.take htake
  exact ⟨h₁.known, h₁.others, h₁.under, h₁.counted, h₁.unknown⟩

theorem Reading.sdus (block : Mem) {sdus : List (Nat × Nat)} (h : Reading enb rnti r)
    (hno : (∀ x ∈ sdus, x.1 ≠ CCCH) ∨ ∀ ii, ¬ enb.Pending CC_id rnti ii)
    (hr : sdus.foldlM (RxRun.sdu block CC_id rnti) r = some r') : Reading enb rnti r' := by
  refine Lib.foldlM_keeps (fun r t x hx h hturn => ?_) h hr
  obtain ⟨r₁, htake, rfl⟩ := map_eq_some_iff.1 hturn
  have hnone : x.1 = CCCH → ∀ ii, ¬ r.enb.Pending CC_id rnti ii := by
    intro hccch ii
    rw [Enb.Pending, h.ues.RA_template]
    exact hno.resolve_left (fun hno => hno x hx hccch) ii
  have h₁ := h.touches (touches_take (fun hccch _ => hnone hccch) htake)
  exact ⟨h₁.sender, h₁.ues, h₁.others⟩

theorem drops_finish (CC_id sdu_len : Nat) (p : Parsed)
    (r : RxRun) : Drops r (finish CC_id sdu_len p r) := by
  unfold finish forUe
  split
  · split
    · exact .flag r _
    · next u hUE =>
      dsimp only
      exact (Drops.flag r (r.msg3_flag.map fun _ => false)).stats hUE fun _ => by exact ⟨rfl, rfl⟩
  · split
    · exact .flag r _
    · next u hUE => exact (Drops.flag r _).stats hUE fun _ => by exact ⟨rfl, rfl⟩

/-! ## A UE that is named -/

/-- The UE has just been heard. -/
def Heard (u : Nat) (r : RxRun) : Prop := (r.enb.UE_sched_ctrl u).ul_inactivity_timer = 0

theorem heard_inSync (r : RxRun) (rnti : Nat) {u : Nat}
    (h : r.UE_id = some u ∨ Heard u r) : Heard u (r.inSync rnti) := by
  unfold inSync
  split
  · simp_all
  · rename_i v hv
    by_cases huv : u = v
    · split_ifs <;> simp [Heard, Enb.modifyCtrl, huv]
    · have hu : Heard u r := h.resolve_left fun h => huv (some.inj (h.symm.trans hv))
      split_ifs <;> simpa [Heard, Enb.modifyCtrl, huv] using hu

theorem heard_forUe {r : RxRun} {f : Nat → Enb → Enb} {u : Nat} (h : Heard u r)
    (hf : ∀ v e, ((f v e).UE_sched_ctrl u).ul_inactivity_timer =
      (e.UE_sched_ctrl u).ul_inactivity_timer) :
    Heard u (r.forUe f) := by
  unfold forUe
  split
  · exact h
  · exact (hf _ _).trans h

theorem heard_element (block : Mem) (CC_id frame lcid : Nat) {u : Nat}
    (h : Heard u r ∨ lcid = CRNTI ∧
      r.enb.findUeId ((block r.payload_ptr).toNat * 256 + (block (r.payload_ptr + 1)).toNat) =
        some u) :
    Heard u (r.element block CC_id frame lcid) := by
  by_cases hlcid : lcid = CRNTI
  · subst hlcid
    simp only [element, if_neg (show CRNTI ≠ POWER_HEADROOM by decide), if_true, crnti]
    exact heard_inSync _ _ (h.symm.imp_left fun h => h.2)
  have hu := h.resolve_right fun h => hlcid h.1
  simp only [element, if_neg hlcid]
  split_ifs
  · refine heard_forUe hu fun v e => ?_
    simp only [Enb.modifyCtrl]
    split <;> rfl
  · exact heard_forUe hu fun _ _ => rfl
  · exact heard_forUe hu fun _ _ => rfl
  · exact hu

/-- Every UE that an element names is heard. -/
theorem heard_elements (block : Mem) (CC_id frame : Nat) {ces : List Nat} {u : Nat}
    (h : Heard u r ∨ ∃ c ∈ crntis block r.payload_ptr ces, r.enb.findUeId c = some u) :
    Heard u (ces.foldl (element block CC_id frame) r) := by
  induction ces generalizing r with
  | nil => exact h.resolve_right fun ⟨c, hc, _⟩ => not_mem_nil hc
  | cons lcid ces ih =>
    apply ih
    rcases h with h | ⟨c, hc, hfound⟩
    · exact .inl (heard_element block CC_id frame lcid (.inl h))
    have hfound' := ((sameUes_element block CC_id frame r lcid).findUeId c).trans hfound
    rw [payload_ptr_element]
    simp only [crntis] at hc
    split at hc
    · rename_i hlcid
      rcases mem_cons.1 hc with rfl | hc
      · exact .inl (heard_element block CC_id frame lcid (.inr ⟨hlcid, hfound⟩))
      · exact .inr ⟨c, hc, hfound'⟩
    · exact .inr ⟨c, hc, hfound'⟩

theorem ctrl_adjustBuffer {e e' : Enb} {length : Nat}
    (h : adjustBuffer e CC_id UE_id lcid length = some e') :
    e'.UE_sched_ctrl = e.UE_sched_ctrl := by
  unfold adjustBuffer at h
  split at h
  · cases h
    rfl
  · cases h

theorem heard_raProc {u : Nat} {ii : Fin NB_RA_PROC_MAX}
    (hr : RxRun.raProc CC_id rnti cont_res_id sdu r ii = some r') (h : Heard u r) : Heard u r' := by
  simp only [RxRun.raProc] at hr
  split at hr
  · obtain ⟨r₁, hregister, rfl⟩ := map_eq_some_iff.1 hr
    show Heard u r₁
    unfold RxRun.register at hregister
    split at hregister
    · cases hregister
      exact h
    obtain ⟨⟨v, e⟩, hadd, rfl⟩ := map_eq_some_iff.1 hregister
    unfold Enb.addNewUe at hadd
    split at hadd
    · cases hadd
    cases hadd
    simp only [Heard, Enb.modifyCtrl]
    split
    · rfl
    · exact h
  · cases hr
    exact h

theorem heard_take {u : Nat} (hr : r.take CC_id rnti lcid cont_res_id sdu = some r')
    (h : Heard u r) : Heard u r' := by
  unfold RxRun.take RxRun.ccch RxRun.dcch RxRun.dtch at hr
  split at hr
  · split at hr
    · cases hr
      exact h
    · exact Lib.foldlM_keeps (P := Heard u) (fun _ _ _ _ h hturn => heard_raProc hturn h) h hr
  split at hr
  · split at hr
    · cases hr
      exact h
    obtain ⟨e, hadjust, rfl⟩ := map_eq_some_iff.1 hr
    simpa [Heard, RxRun.toRlc, Enb.modifyStats, ctrl_adjustBuffer hadjust] using h
  split at hr
  · split at hr
    · cases hr
      exact h
    obtain ⟨e, hadjust, rfl⟩ := map_eq_some_iff.1 hr
    split <;> simpa [Heard, RxRun.toRlc, Enb.modifyStats, ctrl_adjustBuffer hadjust] using h
  · cases hr
    exact h

/-- A UE that a block names has been heard at its end. -/
theorem heard_rxSdu {enb : Enb} {frame harq_pid size u c : Nat} {block : Mem}
    {msg3_flag : Option Bool} {p : Parsed} (hparse : parseUlschHeader block size = some p)
    (hc : c ∈ crntis block p.ptr p.ces) (hfound : enb.findUeId c = some u)
    (h : rxSdu CC_id frame rnti harq_pid enb (some block) size msg3_flag = some r) : Heard u r := by
  simp only [rxSdu, hparse, bind_some] at h
  obtain ⟨r₁, hsdus, rfl⟩ := map_eq_some_iff.1 h
  have hopened := ((reads_opened enb rnti harq_pid msg3_flag).ues.findUeId c).trans hfound
  have hstart : Heard u (p.ces.foldl (element block CC_id frame)
      { opened enb rnti harq_pid msg3_flag with payload_ptr := p.ptr }) :=
    heard_elements block CC_id frame (.inr ⟨c, hc, hopened⟩)
  have hend : Heard u r₁ := by
    refine Lib.foldlM_keeps (P := Heard u) (fun s t x _ h hturn => ?_) hstart hsdus
    obtain ⟨r₂, htake, rfl⟩ := map_eq_some_iff.1 hturn
    have h₂ : Heard u r₂ := heard_take htake h
    exact h₂
  unfold finish
  split
  · exact heard_forUe hend fun _ _ => rfl
  · exact heard_forUe hend fun _ _ => rfl

/-! ## A block is of one UE -/

theorem Reading.start (enb : Enb) (rnti : Nat) (msg3_flag : Option Bool) :
    Reading enb rnti { enb := enb, UE_id := enb.findUeId rnti, msg3_flag := msg3_flag } :=
  ⟨fun _ h => h, SameUes.refl _, fun _ _ => SameUe.refl _ _⟩

theorem Reading.delivering (h : Reading enb rnti r) (hstats : r.enb.eNB_UE_stats = enb.eNB_UE_stats)
    (hhanded : r.handed = []) : Delivering CC_id rnti enb r := by
  refine ⟨fun u hu => ?_, fun u hu => h.others u fun hfound => ?_, by simp [hhanded],
    ?_, by simp [hhanded]⟩
  · exact (h.ues.hasRnti rnti u).2 (Enb.hasRnti_of_found (h.sender u hu))
  · exact hu ((h.ues.hasRnti rnti u).2 (Enb.hasRnti_of_found hfound))
  · intro c u lcid
    simp [hstats, hhanded]

/-- The UE with this RNTI is the only one that is changed. -/
def OnlySender (enb : Enb) (rnti : Nat) (r : RxRun) : Prop :=
  SameUes enb r.enb ∧ ∀ u, enb.findUeId rnti ≠ some u → SameUe enb r.enb u

/-- The block is not the Msg3 of a pending process. -/
def NoMsg3 (enb : Enb) (CC_id rnti : Nat) (sdu : Option Mem) (size : Nat) : Prop :=
  (∀ block p, sdu = some block → parseUlschHeader block size = some p → ∀ x ∈ p.sdus, x.1 ≠ CCCH) ∨
    ∀ ii, ¬ enb.Pending CC_id rnti ii

theorem delivering_of_names (enb : Enb) (CC_id frame rnti harq_pid : Nat) (sdu : Option Mem)
    (size : Nat) (msg3_flag : Option Bool) (r : RxRun)
    (hnames : ∀ block, sdu = some block → NamesNoOther enb rnti block size)
    (h : rxSdu CC_id frame rnti harq_pid enb sdu size msg3_flag = some r) :
    Delivering CC_id rnti enb r ∧ (NoMsg3 enb CC_id rnti sdu size → OnlySender enb rnti r) := by
  have hstart := Reading.start enb rnti msg3_flag
  unfold rxSdu at h
  cases sdu with
  | none =>
    dsimp only at h
    split at h
    · cases h
    · cases h
      have hreads := reads_unscheduled { enb := enb, UE_id := enb.findUeId rnti, msg3_flag :=
        msg3_flag } harq_pid
      have hread := hstart.touches hreads.toTouches
      have hdel : Delivering CC_id rnti enb _ := hread.delivering hreads.stats hreads.handed
      exact ⟨hdel, fun _ => ⟨hread.ues, hread.others⟩⟩
  | some block =>
    obtain ⟨p, hparse, h⟩ := bind_eq_some_iff.1 h
    obtain ⟨r₁, hsdus, rfl⟩ := map_eq_some_iff.1 h
    have hopened := reads_opened enb rnti harq_pid msg3_flag
    have hhead := hstart.touches hopened.toTouches
    obtain ⟨hread, hstats, hhanded⟩ := Reading.elements block CC_id frame p.ces
      (r := { opened enb rnti harq_pid msg3_flag with payload_ptr := p.ptr })
      ⟨hhead.sender, hhead.ues, hhead.others⟩ (hnames block rfl p hparse)
    have hstarted : Delivering CC_id rnti enb _ :=
      hread.delivering (hstats.trans hopened.stats) (hhanded.trans hopened.handed)
    have hdel := hstarted.sdus block hsdus
    have hfinish := drops_finish CC_id (size % 2 ^ 16) p r₁
    refine ⟨hdel.drops hfinish, fun hno => ?_⟩
    have hno' : (∀ x ∈ p.sdus, x.1 ≠ CCCH) ∨ ∀ ii, ¬ enb.Pending CC_id rnti ii :=
      hno.imp_left fun hno => hno block p rfl hparse
    have hread' := (hread.sdus block hno' hsdus).touches hfinish.toTouches
    exact ⟨hread'.ues, hread'.others⟩

def twoUes : Enb where
  UE_list := [1, 0]
  avail := [2]
  pCC_id _ := 0
  UE_template _ u := { rnti := if u = 0 then 0x1111 else 0x2222 }
  UE_sched_ctrl _ := {}
  eNB_UE_stats _ _ := {}
  RA_template _ _ := {}
  Is_rrc_registered := true

def aBlockNaming (hi lo : Byte) : Mem :=
  Mem.copy (fun _ => 0) 0 [0x3B, 0x3D, 0x01, hi, lo, 84, 7, 8]

end RxRun

end MacRlcSplit.Mac
