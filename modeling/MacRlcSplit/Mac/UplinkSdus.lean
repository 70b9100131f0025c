-- The SDUs of a block on the UL-SCH: how often `rx_sdu` hands up each of them,
-- and which blocks it reads as the UE meant them.
import Mathlib.Algebra.Order.BigOperators.Group.List
import Mathlib.Algebra.Order.Group.Nat
import MacRlcSplit.Mac.Uplink

namespace MacRlcSplit.Mac

open Am List Option

/-! ## What handing up an SDU changes -/

/-- The same random access processes, and the same reports of every UE. -/
structure SameReports (e e' : Enb) : Prop where
  Is_rrc_registered : e'.Is_rrc_registered = e.Is_rrc_registered
  pending : ∀ c rnti ii, e'.Pending c rnti ii ↔ e.Pending c rnti ii
  phr_info : ∀ c u, (e'.UE_template c u).phr_info = (e.UE_template c u).phr_info
  bsr_info : ∀ c u, (e'.UE_template c u).bsr_info = (e.UE_template c u).bsr_info

namespace SameReports

variable {e e' e'' : Enb}

theorem refl (e : Enb) : SameReports e e :=
  ⟨rfl, fun _ _ _ => Iff.rfl, fun _ _ => rfl, fun _ _ => rfl⟩

theorem trans (h : SameReports e e') (h' : SameReports e' e'') : SameReports e e'' :=
  ⟨h'.Is_rrc_registered.trans h.Is_rrc_registered, fun c rnti ii =>
    (h'.pending c rnti ii).trans (h.pending c rnti ii),
    fun c u => (h'.phr_info c u).trans (h.phr_info c u), fun c u =>
      (h'.bsr_info c u).trans (h.bsr_info c u)⟩

theorem copies (h : SameReports e e') (CC_id rnti length : Nat) :
    e'.copies CC_id rnti length = e.copies CC_id rnti length := by
  simp only [Enb.copies, h.Is_rrc_registered, h.pending]

theorem accepts (h : SameReports e e') {CC_id rnti : Nat} {x : Nat × Nat} :
    e'.Accepts CC_id rnti x ↔ e.Accepts CC_id rnti x := by
  simp only [Enb.Accepts, h.copies]

theorem modifyTemplate (e : Enb) (c u : Nat) {f : UeTemplate → UeTemplate}
    (hf : ∀ t, (f t).phr_info = t.phr_info ∧ (f t).bsr_info = t.bsr_info) :
    SameReports e (e.modifyTemplate c u f) := by
  refine ⟨rfl, fun _ _ _ => Iff.rfl, fun c' u' => ?_, fun c' u' => ?_⟩
  · simp only [Enb.modifyTemplate]
    split
    · exact (hf _).1
    · rfl
  · simp only [Enb.modifyTemplate]
    split
    · exact (hf _).2
    · rfl

theorem modifyRa (e : Enb) (c : Nat) (ii : Fin NB_RA_PROC_MAX) {f : RaTemplate → RaTemplate}
    (hf : ∀ ra, (f ra).rnti = ra.rnti ∧ (f ra).RA_active = ra.RA_active) :
    SameReports e (e.modifyRa c ii f) := by
  refine ⟨rfl, fun c' rnti jj => ?_, fun _ _ => rfl, fun _ _ => rfl⟩
  simp only [Enb.Pending, Enb.modifyRa]
  split
  · rw [(hf _).1, (hf _).2]
  · rfl

theorem addNewUe {CC_id rnti UE_id : Nat} (h : e.addNewUe CC_id rnti = some (UE_id, e')) :
    SameReports e e' := by
  unfold Enb.addNewUe at h
  split at h
  · cases h
  · cases h
    have := modifyTemplate e CC_id UE_id (f := fun t =>
      { t with rnti := rnti, configured := false }) fun _ => ⟨rfl, rfl⟩
    exact ⟨rfl, fun _ _ _ => Iff.rfl, this.phr_info, this.bsr_info⟩

end SameReports

namespace RxRun

/-- A UE is known, or there is room for one. -/
def Open (r : RxRun) : Prop := r.UE_id.isSome = true ∨ r.enb.avail ≠ []

/-- The run went on, and `out` was handed up. -/
structure Took (r r' : RxRun) (out : List EnbSdu) : Prop where
  handed : r'.handed = r.handed ++ out
  crnti_rx : r'.crnti_rx = r.crnti_rx
  reports : SameReports r.enb r'.enb
  /-- Nothing is handed up for a UE that is not known. -/
  known : out ≠ [] → r'.UE_id.isSome = true
  ues : r'.UE_id = r.UE_id ∧ r'.enb.avail = r.enb.avail ∨ r'.UE_id.isSome = true ∧ r.Open

namespace Took

variable {r r' r'' : RxRun} {out out' : List EnbSdu}

theorem refl (r : RxRun) : Took r r [] :=
  ⟨by simp, rfl, .refl _, fun h => absurd rfl h, .inl ⟨rfl, rfl⟩⟩

theorem stays_known (h : Took r r' out) (hknown : r.UE_id.isSome = true) :
    r'.UE_id.isSome = true := by
  obtain ⟨heq, -⟩ | ⟨h, -⟩ := h.ues
  · rwa [heq]
  · exact h

theorem open_iff (h : Took r r' out) : r'.Open ↔ r.Open := by
  obtain ⟨hUE, havail⟩ | ⟨hknown, hopen⟩ := h.ues
  · rw [Open, Open, hUE, havail]
  · exact iff_of_true (.inl hknown) hopen

theorem trans (h : Took r r' out) (h' : Took r' r'' out') : Took r r'' (out ++ out') := by
  refine ⟨by rw [h'.handed, h.handed, append_assoc], h'.crnti_rx.trans h.crnti_rx,
    h.reports.trans h'.reports, ?_, ?_⟩
  · intro hne
    by_cases hout : out = []
    · exact h'.known (by simpa [hout] using hne)
    · exact h'.stays_known (h.known hout)
  · obtain ⟨hUE, havail⟩ | ⟨hknown, hopen⟩ := h'.ues
    · rw [hUE, havail]
      exact h.ues
    · exact .inr ⟨hknown, h.open_iff.1 hopen⟩

end Took

variable {r r' : RxRun} {CC_id rnti : Nat}

/-! ### The CCCH -/

theorem addNewUe_isSome (e : Enb) (CC_id rnti : Nat) : (e.addNewUe CC_id rnti).isSome = true ↔
    e.avail ≠ [] := by
  unfold Enb.addNewUe
  split <;> simp [*]

theorem register_took {ii : Fin NB_RA_PROC_MAX} {cr : List Byte}
    (h : r.register CC_id ii cr = some r') : Took r r' [] ∧ r'.UE_id.isSome = true := by
  unfold register at h
  split at h
  · rename_i UE_id hUE
    cases h
    exact ⟨.refl r, by rw [hUE, isSome_some]⟩
  · obtain ⟨x, hadd, rfl⟩ := Option.map_eq_some_iff.1 h
    have hra : SameReports r.enb (r.enb.modifyRa CC_id ii fun ra =>
        { ra with cont_res_id := cr }) :=
      SameReports.modifyRa _ _ _ fun _ => ⟨rfl, rfl⟩
    have havail := (addNewUe_isSome _ _ _).1 (by rw [hadd, isSome_some])
    exact ⟨⟨by simp, rfl, hra.trans (SameReports.addNewUe hadd), fun _ => rfl,
      .inr ⟨rfl, .inr havail⟩⟩, rfl⟩

theorem register_some (CC_id : Nat) (ii : Fin NB_RA_PROC_MAX) (cr : List Byte) (h : r.Open) :
    ∃ r', r.register CC_id ii cr = some r' := by
  unfold register
  split
  · exact ⟨r, rfl⟩
  · rename_i hUE
    have havail : r.enb.avail ≠ [] := h.resolve_left (by simp [hUE])
    rw [← isSome_iff_exists, isSome_map]
    exact (addNewUe_isSome _ _ _).2 havail

theorem raProc_took {ii : Fin NB_RA_PROC_MAX} {cr sdu : List Byte}
    (h : raProc CC_id rnti cr sdu r ii = some r') :
    Took r r' (if r.enb.Pending CC_id rnti ii ∧ r.enb.Is_rrc_registered =
      true then [.macRrcDataInd rnti sdu] else []) := by
  simp only [raProc] at h
  split at h
  · rename_i hpending
    obtain ⟨r₁, hregister, rfl⟩ := Option.map_eq_some_iff.1 h
    obtain ⟨htook, hknown⟩ := register_took hregister
    have hra : SameReports r₁.enb
        (r₁.enb.modifyRa CC_id ii fun ra =>
          { ra with generate_Msg4 := true, wait_ack_Msg4 := false }) :=
      SameReports.modifyRa _ _ _ fun _ => ⟨rfl, rfl⟩
    refine ⟨?_, htook.crnti_rx, htook.reports.trans hra, fun _ => hknown, htook.ues⟩
    simp only [htook.reports.Is_rrc_registered, show r.enb.Pending CC_id rnti ii from hpending,
      true_and, htook.handed, append_nil]
    split <;> simp
  · rename_i hnot
    cases h
    rw [if_neg fun hpending => hnot hpending.1]
    exact .refl _

theorem raProcs_took {cr sdu : List Byte} {l : List (Fin NB_RA_PROC_MAX)}
    (h : l.foldlM (raProc CC_id rnti cr sdu) r = some r') :
    Took r r' (replicate (if r.enb.Is_rrc_registered = true then l.countP fun ii =>
      r.enb.Pending CC_id rnti ii else 0) (.macRrcDataInd rnti sdu)) := by
  induction l generalizing r with
  | nil =>
    cases h
    simpa using Took.refl _
  | cons ii l ih =>
    rw [foldlM_cons] at h
    obtain ⟨r₁, hturn, hrest⟩ := Option.bind_eq_some_iff.1 h
    have htook := raProc_took hturn
    have hboth := htook.trans (ih hrest)
    simp only [htook.reports.Is_rrc_registered, htook.reports.pending] at hboth
    by_cases hrrc : r.enb.Is_rrc_registered = true
    · by_cases hpending : r.enb.Pending CC_id rnti ii
      · simpa [hrrc, hpending, countP_cons, replicate_succ] using hboth
      · simpa [hrrc, hpending, countP_cons] using hboth
    · simpa [hrrc] using hboth

theorem ccch_took {cr sdu : List Byte} (h : r.ccch CC_id rnti cr sdu = some r') :
    Took r r' (replicate (r.enb.copies CC_id rnti sdu.length) (.macRrcDataInd rnti sdu)) := by
  unfold ccch at h
  split at h
  · cases h
    rw [Enb.copies, if_neg (by omega)]
    exact .refl r
  · rename_i hlength
    have htook := raProcs_took h
    simpa only [Enb.copies, Nat.not_lt.1 hlength, true_and] using htook

theorem ccch_some (CC_id rnti : Nat) (cr sdu : List Byte)
    (h : r.Open) : ∃ r', r.ccch CC_id rnti cr sdu = some r' := by
  have hprocs : ∀ (l : List (Fin NB_RA_PROC_MAX)) (r : RxRun), r.Open →
      ∃ r', l.foldlM (raProc CC_id rnti cr sdu) r = some r' := by
    intro l
    induction l with
    | nil => exact fun r _ => ⟨r, rfl⟩
    | cons ii l ih =>
      intro r h
      obtain ⟨r₁, hturn⟩ : ∃ r₁, raProc CC_id rnti cr sdu r ii = some r₁ := by
        obtain ⟨r₁, hregister⟩ := register_some CC_id ii cr h
        simp only [raProc, hregister, map_some]
        split <;> exact ⟨_, rfl⟩
      obtain ⟨r', hrest⟩ := ih r₁ ((raProc_took hturn).open_iff.2 h)
      exact ⟨r', by rw [foldlM_cons, hturn]; exact hrest⟩
  unfold ccch
  split
  · exact ⟨r, rfl⟩
  · exact hprocs _ r h

/-! ### The other channels -/

variable {lcid UE_id : Nat}

theorem adjustBuffer_took {enb enb' : Enb} {length : Nat}
    (h : adjustBuffer enb CC_id UE_id lcid length = some enb') :
    lcid < 11 ∧ SameReports enb enb' ∧ enb'.avail = enb.avail := by
  unfold adjustBuffer at h
  split at h
  · rename_i hlcid
    cases h
    exact ⟨hlcid, SameReports.modifyTemplate _ _ _ fun _ => ⟨rfl, rfl⟩, rfl⟩
  · cases h

theorem toRlc_took {enb : Enb} (hUE : r.UE_id = some UE_id) (h : SameReports r.enb enb)
    (havail : enb.avail = r.enb.avail) (CC_id rnti lcid : Nat) (sdu : List Byte) :
    Took r ({ r with enb := enb }.toRlc CC_id UE_id rnti lcid sdu)
      [.macRlcDataInd rnti lcid sdu] where
  handed := rfl
  crnti_rx := rfl
  reports := ⟨h.Is_rrc_registered, h.pending, h.phr_info, h.bsr_info⟩
  known _ := by simp [toRlc, hUE]
  ues := .inl ⟨rfl, havail⟩

theorem dcch_took {sdu : List Byte} (h : r.dcch CC_id rnti lcid sdu = some r') :
    Took r r' (if r.UE_id.isSome = true then [.macRlcDataInd rnti lcid sdu] else []) := by
  unfold dcch at h
  split at h
  · rename_i hUE
    cases h
    simpa [hUE] using Took.refl r
  · rename_i UE_id hUE
    obtain ⟨enb, hadjust, rfl⟩ := Option.map_eq_some_iff.1 h
    obtain ⟨-, hreports, havail⟩ := adjustBuffer_took hadjust
    rw [if_pos (by simp [hUE])]
    exact toRlc_took hUE hreports havail CC_id rnti lcid sdu

theorem dtch_took {sdu : List Byte} (h : r.dtch CC_id rnti lcid sdu = some r') :
    Took r r' (if r.UE_id.isSome = true ∧ lcid < 11 ∧ 0 < sdu.length ∧
      sdu.length < SCH_PAYLOAD_SIZE_MAX then
      [.macRlcDataInd rnti lcid sdu] else []) := by
  unfold dtch at h
  split at h
  · split at h
    · rename_i hUE
      cases h
      simpa [hUE] using Took.refl r
    · rename_i UE_id hUE
      obtain ⟨enb, hadjust, rfl⟩ := Option.map_eq_some_iff.1 h
      obtain ⟨hlcid, hreports, havail⟩ := adjustBuffer_took hadjust
      have hUE' : r.UE_id.isSome = true := by simp [hUE]
      split
      · rename_i hsize
        rw [if_pos ⟨hUE', hlcid, hsize.2, hsize.1⟩]
        exact toRlc_took hUE hreports havail CC_id rnti lcid sdu
      · rename_i hsize
        rw [if_neg fun hall => hsize ⟨hall.2.2.2, hall.2.2.1⟩]
        exact ⟨by simp, rfl, ⟨hreports.Is_rrc_registered, hreports.pending, hreports.phr_info,
          hreports.bsr_info⟩, fun hne => absurd rfl hne, .inl ⟨rfl, havail⟩⟩
  · rename_i hlcid
    cases h
    have hnot : ¬lcid < 11 := fun hlt => hlcid (lt_trans hlt (by decide))
    simpa [hnot] using Took.refl r

theorem adjustBuffer_some (enb : Enb) (CC_id UE_id length : Nat) (h : lcid < 11) :
    ∃ enb', adjustBuffer enb CC_id UE_id lcid length = some enb' := by
  unfold adjustBuffer
  rw [dif_pos h]
  exact ⟨_, rfl⟩

/-! ### All SDUs -/

/-- An SDU that is handed up `k` times. -/
structure Times (enb : Enb) (CC_id rnti : Nat) (x : Nat × Nat) (k : Nat) : Prop where
  ccch : x.1 = CCCH → k = enb.copies CC_id rnti x.2
  le_one : x.1 ≠ CCCH → k ≤ 1
  accepts : k = 1 → enb.Accepts CC_id rnti x

theorem take_took {cr sdu : List Byte} (h : r.take CC_id rnti lcid cr sdu = some r') :
    ∃ k, Took r r' (replicate k (handedAs rnti (lcid, sdu))) ∧
      Times r.enb CC_id rnti (lcid, sdu.length) k ∧
      (k ≠ 0 → r.UE_id.isSome = true ∨ lcid = CCCH ∧ r.enb.avail ≠ []) ∧
        (r.UE_id.isSome = true ∨ lcid = CCCH → r.enb.Accepts CC_id rnti (lcid, sdu.length) →
        k = 1) := by
  unfold take at h
  unfold handedAs
  by_cases hccch : lcid = CCCH
  · subst hccch
    have htook := ccch_took h
    refine ⟨_, htook, ⟨fun _ => rfl, fun hne => absurd rfl hne, id⟩, fun hne => ?_, fun _ => id⟩
    have hopen := htook.open_iff.1 (.inl (htook.known (by simpa using hne)))
    exact hopen.imp_right fun havail => ⟨rfl, havail⟩
  simp only [if_neg hccch, Enb.Accepts] at h ⊢
  -- on every other channel once or not at all
  have honce : ∀ {P : Prop} [Decidable P], Took r r' (if r.UE_id.isSome = true ∧ P then
      [.macRlcDataInd rnti lcid sdu] else []) → (P ↔ r.enb.Accepts CC_id rnti (lcid, sdu.length)) →
      ∃ k, Took r r' (replicate k (.macRlcDataInd rnti lcid sdu)) ∧
        Times r.enb CC_id rnti (lcid, sdu.length) k ∧
        (k ≠ 0 → r.UE_id.isSome = true ∨ lcid = CCCH ∧ r.enb.avail ≠ []) ∧
        (r.UE_id.isSome = true ∨ lcid = CCCH → P → k = 1) := by
    intro P _ htook haccepts
    split at htook
    · rename_i hP
      exact ⟨1, htook, ⟨fun h => absurd h hccch, fun _ => Nat.le_refl 1, fun _ => haccepts.1 hP.2⟩,
        fun _ => .inl hP.1, fun _ _ => rfl⟩
    · rename_i hP
      exact ⟨0, htook, ⟨fun h => absurd h hccch, fun _ => Nat.zero_le 1, by rintro ⟨⟩⟩,
        fun h => absurd rfl h,
        fun hknown haccepts => absurd ⟨hknown.resolve_right hccch, haccepts⟩ hP⟩
  by_cases hdcch : lcid = DCCH ∨ lcid = DCCH1
  · rw [if_pos hdcch] at h
    simp only [if_pos hdcch]
    refine honce (by simpa only [and_true] using dcch_took h) ?_
    simp only [Enb.Accepts, if_neg hccch, if_pos hdcch]
  · rw [if_neg hdcch] at h
    simp only [if_neg hdcch]
    refine honce (dtch_took h) ?_
    simp only [Enb.Accepts, if_neg hccch, if_neg hdcch]

theorem take_some (cr : List Byte) {sdu : List Byte}
    (h : r.UE_id.isSome = true ∨ lcid = CCCH ∧ r.enb.avail ≠ [])
    (haccepts : r.enb.Accepts CC_id rnti (lcid, sdu.length)) :
    ∃ r', r.take CC_id rnti lcid cr sdu = some r' := by
  unfold take
  by_cases hccch : lcid = CCCH
  · rw [if_pos hccch]
    exact ccch_some CC_id rnti cr sdu (h.imp_right And.right)
  obtain ⟨UE_id, hUE⟩ := isSome_iff_exists.1 (h.resolve_right fun h => hccch h.1)
  rw [if_neg hccch]
  simp only [Enb.Accepts, if_neg hccch] at haccepts
  by_cases hdcch : lcid = DCCH ∨ lcid = DCCH1
  · have hlcid : lcid < 11 := by
      obtain rfl | rfl := hdcch <;> decide
    obtain ⟨enb, hadjust⟩ := adjustBuffer_some r.enb CC_id UE_id sdu.length hlcid
    simp only [if_pos hdcch, dcch, hUE, hadjust, map_some]
    exact ⟨_, rfl⟩
  · rw [if_neg hdcch] at haccepts
    obtain ⟨enb, hadjust⟩ := adjustBuffer_some r.enb CC_id UE_id sdu.length haccepts.1
    simp only [if_neg hdcch, dtch, hUE, hadjust, map_some]
    split <;> exact ⟨_, rfl⟩

/-- What is accepted, from a UE that is known or that the first SDU makes known, is handed up
once. -/
theorem sdus_some (block : Mem) {lengths : List (Nat × Nat)}
    (haccepts : ∀ x ∈ lengths, r.enb.Accepts CC_id rnti x)
    (h : lengths = [] ∨ r.UE_id.isSome = true ∨ (∃ n rest, lengths = (CCCH, n) :: rest) ∧
      r.enb.avail ≠ []) :
    ∃ r', lengths.foldlM (RxRun.sdu block CC_id rnti) r = some r' ∧
      r'.handed = r.handed ++ (sdusAt block r.payload_ptr lengths).map (handedAs rnti) ∧
      r'.crnti_rx = r.crnti_rx ∧ SameReports r.enb r'.enb := by
  induction lengths generalizing r with
  | nil => exact ⟨r, rfl, by simp [sdusAt], rfl, .refl _⟩
  | cons x lengths ih =>
    have hknown : r.UE_id.isSome = true ∨ x.1 = CCCH ∧ r.enb.avail ≠ [] := by
      obtain h | h | ⟨⟨n, rest, h⟩, havail⟩ := h
      · cases h
      · exact .inl h
      · cases h
        exact .inr ⟨rfl, havail⟩
    have hlen : (block.read r.payload_ptr x.2).length = x.2 := length_read _ _ _
    have hx : r.enb.Accepts CC_id rnti (x.1, (block.read r.payload_ptr x.2).length) := by
      rw [hlen]
      exact haccepts x mem_cons_self
    obtain ⟨r₁, htake⟩ := take_some (block.read r.payload_ptr 6) hknown hx
    obtain ⟨k, htook, -, -, honce⟩ := take_took htake
    obtain rfl := honce (hknown.imp_right And.left) hx
    obtain ⟨r', hrun, hhanded, hcrnti, hreports⟩ :=
      ih (r := { r₁ with payload_ptr := r.payload_ptr + x.2 })
      (fun y hy => htook.reports.accepts.2 (haccepts y (mem_cons_of_mem _ hy)))
      (.inr (.inl (htook.known (by simp))))
    refine ⟨r', ?_, ?_, hcrnti.trans htook.crnti_rx, htook.reports.trans hreports⟩
    · rw [foldlM_cons, RxRun.sdu, htake]
      exact hrun
    · simp only [hhanded, htook.handed, sdusAt, map_cons, append_assoc]
      rfl

/-- A run over SDUs: how often each was handed up. -/
theorem sdus_took {block : Mem} {lengths : List (Nat × Nat)}
    (h : lengths.foldlM (RxRun.sdu block CC_id rnti) r = some r') :
    ∃ l : List (Nat × Nat × List Byte), l.map Prod.snd = sdusAt block r.payload_ptr lengths ∧
      r'.handed = r.handed ++ l.flatMap (fun y => replicate y.1 (handedAs rnti y.2)) ∧
      r'.crnti_rx = r.crnti_rx ∧ SameReports r.enb r'.enb ∧
      (∀ y ∈ l, Times r.enb CC_id rnti (y.2.1, y.2.2.length) y.1) ∧
      ∀ y ∈ l.head?, y.1 ≠ 0 → r.UE_id.isSome = true ∨ y.2.1 = CCCH ∧ r.enb.avail ≠ [] := by
  induction lengths generalizing r with
  | nil =>
    cases h
    exact ⟨[], rfl, by simp, rfl, .refl _, nofun, nofun⟩
  | cons x lengths ih =>
    rw [foldlM_cons] at h
    obtain ⟨_, hturn, hrest⟩ := Option.bind_eq_some_iff.1 h
    obtain ⟨r₁, htake, rfl⟩ := Option.map_eq_some_iff.1 hturn
    obtain ⟨k, htook, htimes, hfirst, -⟩ := take_took htake
    obtain ⟨l, hl, hhanded, hcrnti, hreports, heach, -⟩ := ih hrest
    refine ⟨(k, x.1, block.read r.payload_ptr x.2) :: l, ?_, ?_, hcrnti.trans htook.crnti_rx,
      htook.reports.trans hreports, ?_, ?_⟩
    · rw [map_cons, hl]
      rfl
    · rw [hhanded, htook.handed, flatMap_cons, append_assoc]
    · intro y hy
      obtain rfl | hy := mem_cons.1 hy
      · exact htimes
      · obtain ⟨hccch, hone, haccepts⟩ := heach y hy
        exact ⟨fun hy => (hccch hy).trans (htook.reports.copies _ _ _), hone,
          fun hy => htook.reports.accepts.1 (haccepts hy)⟩
    · rintro _ ⟨⟩
      exact hfirst

end RxRun

/-! ## The round trip -/

section Sent

variable (enb : Enb) (CC_id rnti : Nat) (lengths : List (Nat × Nat)) (sdus : Sdus)
  (power_headroom : Option PowerHeadroomCmd) (crnti : Option UInt16) (bsr : Option Bsr)

/-- What the eNB can read as it was meant. -/
structure UlReadable (short_padding : Nat) : Prop where
  /-- A power headroom comes before a C-RNTI: it is for the UE with the RNTI of the block. -/
  ph_known : power_headroom.isSome = true → (enb.findUeId rnti).isSome = true
  /-- The bytes of a C-RNTI may be swapped. -/
  crnti_bytes : ∀ c, crnti = some c → c.toNat / 256 = c.toNat % 256
  bsr_known : bsr.isSome = true → (enb.sender rnti (crnti.map UInt16.toNat)).isSome = true
  /-- A long BSR has no low bits in the third level, and no SDU is after it. -/
  long_bsr : ∀ b, bsr = some (.long b) → b.Buffer_size2.val % 4 = 0 ∧ lengths = []
  accepted : ∀ x ∈ lengths, enb.Accepts CC_id rnti x
  /-- SDUs are from a UE that is known, or from one that the first SDU makes known. -/
  sdus_known : lengths = [] ∨ (enb.sender rnti (crnti.map UInt16.toNat)).isSome = true ∨
    (∃ n rest, lengths = (CCCH, n) :: rest) ∧ enb.avail ≠ []
  announced : Announced short_padding 0 (ulschElements power_headroom crnti bsr) lengths

/-- What was sent is what was read: the power headroom and the levels are in the template of the UE,
and each SDU was handed up with its LCID, its length and its bytes. -/
structure ReadAs (r : RxRun) : Prop where
  ph_read : ∀ cmd, power_headroom = some cmd → ∃ UE_id, enb.findUeId rnti = some UE_id ∧
    (r.enb.UE_template CC_id UE_id).phr_info = cmd.PH - PHR_MAPPING_OFFSET
  crnti_read : r.crnti_rx = crnti.map UInt16.toNat
  bsr_read : ∀ b, bsr = some b → ∃ UE_id, enb.sender rnti (crnti.map UInt16.toNat) = some UE_id ∧
    b.Reported (r.enb.UE_template CC_id UE_id).bsr_info
  sdus_read : r.handed = sdus.map (handedAs rnti)

/-- Every block with these elements and SDUs of these lengths is read as it was meant, with any
padding at its end, and whatever is in memory before the header is written, in the padding and after
the block. -/
def UlReadsAll (frame harq_pid : Nat) (msg3_flag : Option Bool)
    (truncated_bsr short_bsr : Option BsrShort) (long_bsr : Option BsrLong)
    (short_padding : Nat) : Prop :=
  ∀ sdus : Sdus, sdus.lengths = lengths →
  ∀ (post_padding : Nat) (mac_header : Mem) (pad : List Byte),
    (post_padding = 0 → pad = []) → ∀ (rx : Mem) (block : List Byte),
      block = blockOf (generateUlschHeader mac_header short_padding lengths power_headroom crnti
        truncated_bsr short_bsr long_bsr post_padding) sdus pad →
      rx.read 0 block.length = block →
      ∃ r, RxRun.rxSdu CC_id frame rnti harq_pid enb (some rx) block.length msg3_flag = some r ∧
        ReadAs enb CC_id rnti sdus power_headroom crnti
          (Bsr.choose truncated_bsr short_bsr long_bsr) r

end Sent

section RoundTrip

variable {enb : Enb} {CC_id rnti frame harq_pid short post : Nat} {lengths : List (Nat × Nat)}
  {sdus : Sdus}
  {ph : Option PowerHeadroomCmd} {crnti : Option UInt16} {bsr : Option Bsr}
  {msg3_flag : Option Bool} {tbsr sbsr : Option BsrShort} {lbsr : Option BsrLong}

theorem takes_ulsch (hlengths : ∀ x ∈ sdus.lengths, x.1 < 25 ∧ x.2 < 32768)
    (number : sdus.lengths.length ≤ NB_RB_MAX) : ulsch.Takes (ulschElements ph crnti bsr) sdus where
  padding := by decide
  each_ce _ hmem := each_ulschElements hmem
  each_sdu x hx := hlengths _ (mem_map.2 ⟨x, hx, rfl⟩)
  ces := le_trans length_ulschElements.1 (by decide)
  sdus := by simpa [Sdus.lengths] using number
  bytes := le_trans length_ulschElements.2 (by decide)

theorem finish_kept (CC_id sdu_len : Nat) (p : Parsed) (r : RxRun) :
    (r.finish CC_id sdu_len p).handed = r.handed ∧ (r.finish CC_id sdu_len p).crnti_rx =
      r.crnti_rx ∧ (r.finish CC_id sdu_len p).enb.UE_template = r.enb.UE_template := by
  unfold RxRun.finish RxRun.forUe
  split <;> split <;> exact ⟨rfl, rfl, rfl⟩

/-- The run after the elements of a block, for which the SDUs are as in the header. -/
theorem rxSdu_block {mac_header rx : Mem} {pad block : List Byte}
    (hlengths : ∀ x ∈ sdus.lengths, x.1 < 25 ∧ x.2 < 32768)
    (number : sdus.lengths.length ≤ NB_RB_MAX)
    (hextra : post = 0 → ∀ x ∈ sdus.lengths, x.2 + extraByte bsr < 2 ^ 15)
    (hannounced : Announced short post (ulschElements ph crnti bsr) sdus.lengths)
    (hpad : post = 0 → pad = [])
    (hblock : block = blockOf ((Writer.given mac_header short (ulschElements ph crnti bsr)
      sdus.lengths).result post) sdus pad) (hrx : rx.read 0 block.length = block)
    (frame harq_pid : Nat) (msg3_flag : Option Bool) :
    ∃ (p : Parsed) (r : RxRun),
      p.sdus = (if 0 < post then sdus.lengths else stretch (extraByte bsr) sdus.lengths) ∧
      Stores rx p.ptr ((ulschElements ph crnti bsr).bytes ++ sdus.payload) ∧
      r.payload_ptr + extraByte bsr = p.ptr + (ulschElements ph crnti bsr).bytes.length ∧
      RxRun.ElementsRead enb CC_id rnti ph crnti bsr r ∧
      RxRun.rxSdu CC_id frame rnti harq_pid enb (some rx) block.length msg3_flag =
        (p.sdus.foldlM (RxRun.sdu rx CC_id rnti) r).map
          (RxRun.finish CC_id (block.length % 2 ^ 16) p) := by
  obtain ⟨p, hparse, hces, hsdus, hbytes, -⟩ :=
    parse_block (extraByte bsr) (takes_ulsch hlengths number)
    hextra (fun _ => length_ulsch) hannounced hpad hblock hrx
  have hopened := RxRun.reads_opened enb rnti harq_pid msg3_flag
  generalize hr : RxRun.opened enb rnti harq_pid msg3_flag = r at hopened
  obtain ⟨helements, hptr⟩ := RxRun.elements_read CC_id frame (r := { r with payload_ptr := p.ptr })
    (stores_append.1 hbytes).1
  refine ⟨p, _, hsdus, hbytes, hptr,
    RxRun.elements_effect CC_id frame (r := { r with payload_ptr := p.ptr })
    hopened.ues hopened.UE_id hopened.crnti_rx hopened.handed ph crnti bsr, ?_⟩
  simp only [RxRun.rxSdu, parseUlschHeader]
  rw [hparse, bind_some, ← RxRun.opened, hr, hces, helements]

/-! ### Each SDU once -/

def EnbSdu.onCcch : EnbSdu → Bool
  | .macRrcDataInd _ _ => true
  | .macRlcDataInd _ _ _ => false

theorem onCcch_handedAs (rnti : Nat) (x : Nat × List Byte) :
    (handedAs rnti x).onCcch = decide (x.1 = CCCH) := by
  unfold handedAs
  split <;> simp [EnbSdu.onCcch, *]

theorem handedAs_injective (rnti : Nat) : Function.Injective (handedAs rnti) := by
  rintro ⟨lcid, sdu⟩ ⟨lcid', sdu'⟩ h
  unfold handedAs at h
  split at h <;> split at h <;> simp_all

variable {l : List (Nat × Nat × List Byte)}

theorem once_of_sum {l : List (Nat × Nat × List Byte)} (h : (∀ y ∈ l, y.1 ≤ 1) ∨ ∀ y ∈ l, 1 ≤ y.1)
    (hsum : (l.map Prod.fst).sum = l.length) : ∀ y ∈ l, y.1 = 1 := by
  intro y hy
  by_contra hne
  have hones : (l.map fun _ => 1).sum = l.length := by simp
  obtain h | h := h
  · have := sum_lt_sum Prod.fst (fun _ => 1) h ⟨y, hy, lt_of_le_of_ne (h y hy) hne⟩
    omega
  · have := sum_lt_sum (fun _ => 1) Prod.fst h ⟨y, hy, lt_of_le_of_ne (h y hy) (Ne.symm hne)⟩
    omega

/-- If as much was handed up as was sent, and nothing twice, then each SDU was found and handed
up. -/
theorem all_once (hle : ∀ y ∈ l, y.1 ≤ 1)
    (hhanded : l.flatMap (fun y => replicate y.1 (handedAs rnti y.2)) = sdus.map (handedAs rnti))
    (hlength : l.length = sdus.length) : (∀ y ∈ l, y.1 = 1) ∧ l.map Prod.snd = sdus := by
  have hsum : (l.map Prod.fst).sum = l.length := by
    have hcount := congrArg length hhanded
    rw [length_flatMap, length_map] at hcount
    simpa [hlength] using hcount
  have honce := once_of_sum (.inl hle) hsum
  refine ⟨honce, (handedAs_injective rnti).list_map ?_⟩
  rw [← hhanded, List.map_map, map_eq_flatMap]
  refine flatMap_congr fun y hy => ?_
  rw [honce y hy]
  rfl

/-- The CCCH: if as much was handed up as was sent, no message was handed up for two processes. -/
theorem none_twice (htimes : ∀ y ∈ l, RxRun.Times enb CC_id rnti (y.2.1, y.2.2.length) y.1)
    (hhanded : l.flatMap (fun y => replicate y.1 (handedAs rnti y.2)) = sdus.map (handedAs rnti))
    (hlengths : Sdus.lengths (l.map Prod.snd) = sdus.lengths) : ∀ y ∈ l, y.1 ≤ 1 := by
  have hleast : ∀ y ∈ l.filter fun y => y.2.1 = CCCH, 1 ≤ y.1 := by
    intro y hy
    obtain ⟨hy, hccch⟩ := mem_filter.1 hy
    have hccch : y.2.1 = CCCH := of_decide_eq_true hccch
    -- a message of this length was sent and so is handed up, as often as this one
    have hmem : (y.2.1, y.2.2.length) ∈ sdus.lengths := by
      rw [← hlengths]
      exact mem_map.2 ⟨y.2, mem_map.2 ⟨y, hy, rfl⟩, rfl⟩
    obtain ⟨x, hx, hxy⟩ := mem_map.1 hmem
    obtain ⟨z, hz, hzx⟩ := mem_flatMap.1 (hhanded ▸ mem_map_of_mem hx)
    obtain ⟨hne, hzx⟩ := mem_replicate.1 hzx
    obtain rfl := handedAs_injective rnti hzx
    obtain ⟨hlcid, hlen⟩ := Prod.ext_iff.1 hxy
    have hz := (htimes z hz).ccch (hlcid.trans hccch)
    have hy := (htimes y hy).ccch hccch
    simp only at hlen hz hy
    rw [hlen] at hz
    omega
  have hsum : ((l.filter fun y => y.2.1 = CCCH).map Prod.fst).sum =
      (l.filter fun y => y.2.1 = CCCH).length := by
    have hcount := congrArg (countP EnbSdu.onCcch) hhanded
    have hsent : (sdus.map (handedAs rnti)).countP EnbSdu.onCcch =
        (Sdus.lengths sdus).countP fun x => x.1 = CCCH := by
      simp [Sdus.lengths, countP_map, Function.comp_def, onCcch_handedAs]
    have hfound : (l.flatMap fun y => replicate y.1 (handedAs rnti y.2)).countP EnbSdu.onCcch =
        ((l.filter fun y => y.2.1 = CCCH).map Prod.fst).sum := by
      clear hhanded hcount htimes hlengths hleast
      induction l with
      | nil => rfl
      | cons y l ih =>
        rw [flatMap_cons, countP_append, ih, countP_replicate, onCcch_handedAs, filter_cons]
        split <;> simp
    rw [hfound, hsent, ← hlengths] at hcount
    rw [hcount, ← countP_eq_length_filter]
    simp [Sdus.lengths, countP_map, Function.comp_def]
  intro y hy
  by_cases hccch : y.2.1 = CCCH
  · exact (once_of_sum (.inr hleast) hsum y (mem_filter.2 ⟨hy, decide_eq_true hccch⟩)).le
  · exact (htimes y hy).le_one hccch

/-! ### What is read as it was meant is readable -/

theorem swapped_eq_iff {c : UInt16} :
    swapped c = c.toNat ↔ c.toNat / 256 = c.toNat % 256 := by
  unfold swapped
  omega

theorem bytes_long (ph : Option PowerHeadroomCmd) (crnti : Option UInt16) (b : BsrLong) :
    ∃ front, (ulschElements ph crnti (some (.long b))).bytes = front ++ [0] := by
  refine ⟨(phElements ph).bytes ++ (crntiElements crnti).bytes ++ b.bytes.dropLast, ?_⟩
  simp [ulschElements, bsrElements, Elements.bytes, Bsr.element, BsrLong.bytes]

/-- An SDU after a long BSR is not found, since the byte before it is 0. -/
theorem empty_of_long {b : BsrLong} {rx : Mem} {ptr payload_ptr : Nat}
    (hstores : Stores rx ptr (ulschElements ph crnti (some (.long b))).bytes)
    (hptr : payload_ptr + 1 = ptr + (ulschElements ph crnti (some (.long b))).bytes.length)
    (hfound : sdusAt rx payload_ptr lengths = filled 1 lengths) : ∀ x ∈ lengths, x.2 = 0 := by
  have hpayload : Stores rx payload_ptr (filled 1 lengths).payload := by
    rwa [← sdusAt_eq_iff, lengths_filled]
  rw [← lengths_filled 1 lengths]
  apply lengths_of_no_payload
  cases hbytes : Sdus.payload (filled 1 lengths) with
  | nil => rfl
  | cons c rest =>
    have hc : c ∈ Sdus.payload (filled 1 lengths) := by
      rw [hbytes]
      exact mem_cons_self
    obtain rfl : c = 1 := by
      simp only [Sdus.payload, filled, List.map_map, mem_flatten, List.mem_map, Function.comp_apply]
        at hc
      obtain ⟨_, ⟨x, -, rfl⟩, hc⟩ := hc
      exact (mem_replicate.1 hc).2
    obtain ⟨front, hfront⟩ := bytes_long ph crnti b
    rw [hfront, length_append, length_singleton] at hptr
    obtain rfl : payload_ptr = ptr + front.length := by omega
    rw [hfront, stores_append, stores_cons] at hstores
    rw [hbytes, stores_cons, hstores.2.1] at hpayload
    cases hpayload.1

theorem copies_of_le {n : Nat} (h : n ≤ CCCH_PAYLOAD_SIZE_MAX) :
    enb.copies CC_id rnti n = enb.copies CC_id rnti 0 := by
  simp only [Enb.copies, h, Nat.zero_le]

section Converse

variable
  (h : UlReadsAll enb CC_id rnti lengths ph crnti frame harq_pid msg3_flag tbsr sbsr lbsr short)

include h

/-- The one byte of a header with nothing in it is what was there before, here that of an element
which is not known. -/
theorem UlReadsAll.announced :
    Announced short 0 (ulschElements ph crnti (Bsr.choose tbsr sbsr lbsr)) lengths := by
  by_contra hnot
  simp only [Announced, not_or, not_not, Nat.not_lt, Nat.le_zero, ne_eq] at hnot
  obtain ⟨hone, htwo, -, hels, rfl⟩ := hnot
  have hblock : blockOf (generateUlschHeader (fun _ => 0x19) short [] ph crnti tbsr sbsr lbsr 0)
      [] [] = [0x19] := by
    rw [generateUlschHeader_eq, hels]
    simp [blockOf, Writer.given, Writer.shortPadding, Writer.controlElements, Writer.sdus,
      Writer.result, Writer.finish, hone, htwo, Sdus.payload, Mem.copy, Mem.read]
  obtain ⟨r, hread, -⟩ :=
    h [] rfl 0 (fun _ => 0x19) [] (fun _ => rfl) (fun _ => 0x19) _ hblock.symm rfl
  cases hread

variable (hlengths : ∀ x ∈ lengths, x.1 < 25 ∧ x.2 < 32768) (number : lengths.length ≤ NB_RB_MAX)

include hlengths number

/-- A block of SDUs whose bytes are 1: its elements have been read as they were meant, and what was
handed up is what was sent. -/
theorem UlReadsAll.block (hbsr : Bsr.choose tbsr sbsr lbsr = bsr) (post : Nat)
    (hextra : post = 0 → ∀ x ∈ lengths, x.2 + extraByte bsr < 2 ^ 15) :
    ∃ (rx : Mem) (ptr payload_ptr : Nat) (r : RxRun) (l : List (Nat × Nat × List Byte)),
      ReadAs enb CC_id rnti (filled 1 lengths) ph crnti bsr r ∧
        (crnti.map swapped = crnti.map UInt16.toNat ∧ ∀ b, bsr = some (.long b) →
        b.Buffer_size2.val % 4 = 0) ∧
      Stores rx ptr ((ulschElements ph crnti bsr).bytes ++ (filled 1 lengths).payload) ∧
      payload_ptr + extraByte bsr = ptr + (ulschElements ph crnti bsr).bytes.length ∧
      l.map Prod.snd =
        sdusAt rx payload_ptr (if 0 < post then lengths else stretch (extraByte bsr) lengths) ∧
      l.flatMap (fun y => replicate y.1 (handedAs rnti y.2)) =
        (filled 1 lengths).map (handedAs rnti) ∧
      (∀ y ∈ l, RxRun.Times enb CC_id rnti (y.2.1, y.2.2.length) y.1) ∧
      ∀ y ∈ l.head?, y.1 ≠ 0 → (enb.sender rnti (crnti.map UInt16.toNat)).isSome = true ∨
        y.2.1 = CCCH ∧ enb.avail ≠ [] := by
  have hannounced := h.announced
  have hfilled := lengths_filled 1 lengths
  generalize hblock :
    blockOf (generateUlschHeader (fun _ => 0) short lengths ph crnti tbsr sbsr lbsr post)
      (filled 1 lengths) [] = block
  obtain ⟨r, hread, hsent⟩ := h _ hfilled post (fun _ => 0) [] (fun _ => rfl) _ block hblock.symm
    (read_copy (fun _ => 0) 0 block)
  rw [generateUlschHeader_eq] at hblock
  rw [hbsr] at hblock hsent hannounced
  obtain ⟨p, r₂, hsdus, hstores, hptr, helements, heq⟩ := rxSdu_block (by rwa [hfilled])
    (by rwa [hfilled]) (by rwa [hfilled]) (by rw [hfilled]; exact hannounced.padded post)
    (fun _ => rfl) (by rw [hfilled, hblock]) (read_copy (fun _ => 0) 0 block) frame harq_pid
    msg3_flag
  rw [heq] at hread
  obtain ⟨r₃, hrun, rfl⟩ := Option.map_eq_some_iff.1 hread
  obtain ⟨hhanded₄, hcrnti₄, htemplate⟩ := finish_kept CC_id (block.length % 2 ^ 16) p r₃
  obtain ⟨l, hl, hhanded₃, hcrnti₃, hreports, htimes, hfirst⟩ := RxRun.sdus_took hrun
  have hcrnti : crnti.map swapped = crnti.map UInt16.toNat := by
    rw [← helements.crnti_rx, ← hcrnti₃, ← hcrnti₄, hsent.crnti_read]
  refine ⟨_, p.ptr, r₂.payload_ptr, _, l, hsent, ⟨hcrnti, ?_⟩, hstores, hptr, ?_, ?_, ?_, ?_⟩
  · rintro b rfl
    obtain ⟨UE_id, hfind, hreported⟩ := hsent.bsr_read _ rfl
    have htaken := helements.bsr _ UE_id rfl (hcrnti ▸ hfind)
    rw [htemplate, hreports.bsr_info, Bsr.reported_iff htaken] at hreported
    exact hreported b rfl
  · rw [hl, hsdus, hfilled]
  · rw [← hsent.sdus_read, hhanded₄, hhanded₃, helements.handed, nil_append]
  · intro y hy
    obtain ⟨hccch, hone, haccepts⟩ := htimes y hy
    exact ⟨fun hy => (hccch hy).trans (helements.ues.copies _ _ _), hone,
      fun hy => helements.ues.accepts.1 (haccepts hy)⟩
  · rw [← hcrnti, ← helements.UE_id, ← helements.ues.avail]
    exact hfirst

/-- Empty SDUs after a long BSR: the last one gets a byte. -/
theorem UlReadsAll.nil_of_empty {b : BsrLong} (hbsr : Bsr.choose tbsr sbsr lbsr = some (.long b))
    (haccepted : ∀ x ∈ lengths, enb.Accepts CC_id rnti x)
    (hempty : ∀ x ∈ lengths, x.2 = 0) : lengths = [] := by
  obtain ⟨rx, ptr, payload_ptr, r, l, -, -, -, -, hl, hhanded, htimes, -⟩ :=
    h.block hlengths number hbsr 0 (by
    intro _ x hx
    rw [hempty x hx]
    exact (by decide : 1 < 2 ^ 15))
  rcases eq_nil_or_concat lengths with hnil | ⟨front, x, hconcat⟩
  · exact hnil
  have hstretch : stretch 1 lengths = front ++ [(x.1, x.2 + 1)] := by
    rw [hconcat, stretch_concat]
  have hread : Sdus.lengths (l.map Prod.snd) = front ++ [(x.1, x.2 + 1)] := by
    rw [hl, lengths_sdusAt, ← hstretch]
    rfl
  have hmem : ∀ y ∈ front ++ [(x.1, x.2 + 1)], y.2 ≤ 1 ∧ (y.1, 0) ∈ lengths := by
    have hfront : ∀ y ∈ front ++ [x], y.2 = 0 ∧ (y.1, 0) ∈ lengths := by
      intro y hy
      rw [← concat_eq_append, ← hconcat] at hy
      exact ⟨hempty y hy, hempty y hy ▸ hy⟩
    intro y hy
    obtain hy | hy := mem_append.1 hy
    · have := hfront y (mem_append_left _ hy)
      exact ⟨by omega, this.2⟩
    · obtain rfl := mem_singleton.1 hy
      have := hfront x (by simp)
      exact ⟨by simp only; omega, this.2⟩
  have hle : ∀ y ∈ l, y.1 ≤ 1 := by
    intro y hy
    obtain ⟨hlen, hzero⟩ := hmem (y.2.1, y.2.2.length) (by
      rw [← hread]
      exact mem_map.2 ⟨y.2, mem_map.2 ⟨y, hy, rfl⟩, rfl⟩)
    by_cases hccch : y.2.1 = CCCH
    · have hone := haccepted _ hzero
      rw [Enb.Accepts, if_pos hccch] at hone
      rw [(htimes y hy).ccch hccch, copies_of_le (le_trans hlen (by decide)), hone]
    · exact (htimes y hy).le_one hccch
  have hsame := congrArg Sdus.lengths (all_once hle hhanded (by
    have := congrArg length hread
    simpa [Sdus.lengths, filled, hconcat] using this)).2
  rw [hread, lengths_filled, hconcat, concat_eq_append] at hsame
  have hlast := congrArg Prod.snd (singleton_inj.1 (append_cancel_left hsame))
  simp only at hlast
  omega

theorem UlReadsAll.readable :
    UlReadable enb CC_id rnti lengths ph crnti (Bsr.choose tbsr sbsr lbsr) short := by
  generalize hbsr : Bsr.choose tbsr sbsr lbsr = bsr
  obtain ⟨rx, ptr, payload_ptr, r, l, hread, ⟨hcrnti, hlow⟩, hstores, hptr, hl, hhanded, htimes,
      hfirst⟩ :=
    h.block hlengths number hbsr 1 nofun
  rw [if_pos Nat.one_pos] at hl
  have hsame : Sdus.lengths (l.map Prod.snd) = (filled 1 lengths).lengths := by
    rw [hl, lengths_sdusAt, lengths_filled]
  obtain ⟨honce, hfound⟩ := all_once (none_twice htimes hhanded hsame) hhanded
    (by simpa [Sdus.lengths] using congrArg length hsame)
  rw [lengths_filled] at hsame
  have haccepted : ∀ x ∈ lengths, enb.Accepts CC_id rnti x := by
    intro x hx
    rw [← hsame, Sdus.lengths, List.map_map] at hx
    obtain ⟨y, hy, rfl⟩ := mem_map.1 hx
    exact (htimes y hy).accepts (honce y hy)
  refine ⟨?_, ?_, ?_, ?_, haccepted, ?_, hbsr ▸ h.announced⟩
  · intro hph
    obtain ⟨cmd, hcmd⟩ := isSome_iff_exists.1 hph
    obtain ⟨UE_id, hfind, -⟩ := hread.ph_read cmd hcmd
    rw [hfind, isSome_some]
  · rintro c rfl
    exact swapped_eq_iff.1 (some.inj hcrnti)
  · intro hb
    obtain ⟨b, hb⟩ := isSome_iff_exists.1 hb
    obtain ⟨UE_id, hfind, -⟩ := hread.bsr_read b hb
    rw [hfind, isSome_some]
  · rintro b rfl
    exact ⟨hlow b rfl, h.nil_of_empty hlengths number hbsr haccepted
      (empty_of_long (stores_append.1 hstores).1 hptr (hl ▸ hfound))⟩
  · cases l with
    | nil => exact .inl hsame.symm
    | cons y l =>
      right
      refine (hfirst y rfl (by rw [honce y mem_cons_self]; decide)).imp_right
        (And.imp_left fun hccch => ?_)
      exact ⟨y.2.2.length, Sdus.lengths (l.map Prod.snd), by rw [← hsame, ← hccch]; rfl⟩

end Converse

theorem UlReadable.swapped_crnti (h : UlReadable enb CC_id rnti lengths ph crnti bsr short) :
    crnti.map swapped = crnti.map UInt16.toNat := by
  cases crnti with
  | none => rfl
  | some c => rw [map_some, map_some, swapped_eq_iff.2 (h.crnti_bytes c rfl)]

/-- No SDU is after a long BSR, so none gets the byte that the eNB does not count. -/
theorem UlReadable.no_extra (h : UlReadable enb CC_id rnti lengths ph crnti bsr short) :
    lengths = [] ∨ extraByte bsr = 0 := by
  rcases bsr with _ | _ | _ | b
  iterate 3 · exact .inr rfl
  · exact .inl (h.long_bsr b rfl).2

theorem UlReadable.readsAll
    (h : UlReadable enb CC_id rnti lengths ph crnti (Bsr.choose tbsr sbsr lbsr) short)
    (hlengths : ∀ x ∈ lengths, x.1 < 25 ∧ x.2 < 32768) (number : lengths.length ≤ NB_RB_MAX) :
    UlReadsAll enb CC_id rnti lengths ph crnti frame harq_pid msg3_flag tbsr sbsr lbsr short := by
  rintro sdus rfl post_padding mac_header pad hpad rx block hblock hrx
  rw [generateUlschHeader_eq] at hblock
  generalize Bsr.choose tbsr sbsr lbsr = bsr at h hblock ⊢
  have hcrnti := h.swapped_crnti
  have hstretch : ∀ x ∈ sdus.lengths, x.2 + extraByte bsr < 2 ^ 15 := by
    obtain hnil | hextra := h.no_extra
    · simp [hnil]
    · rw [hextra]
      exact fun x hx => (hlengths x hx).2
  obtain ⟨p, r₂, hsdus, hstores, hptr, helements, heq⟩ := rxSdu_block hlengths number
    (fun _ => hstretch) (h.announced.padded post_padding) hpad hblock hrx frame harq_pid
    msg3_flag
  have hall : p.sdus = sdus.lengths ∧ Stores rx r₂.payload_ptr sdus.payload := by
    obtain hnil | hextra := h.no_extra
    · obtain rfl := map_eq_nil_iff.1 hnil
      exact ⟨by rw [hsdus]; split <;> rfl, rfl⟩
    · rw [hextra, add_zero] at hptr
      rw [hsdus, hextra, stretch_zero, ite_self, hptr]
      exact ⟨rfl, (stores_append.1 hstores).2⟩
  obtain ⟨r₃, hrun, hhanded₃, hcrnti₃, hreports⟩ := RxRun.sdus_some rx
    (fun x hx => helements.ues.accepts.2 (h.accepted x hx))
    (by rw [helements.UE_id, hcrnti, helements.ues.avail]; exact h.sdus_known)
  obtain ⟨hhanded₄, hcrnti₄, htemplate⟩ := finish_kept CC_id (block.length % 2 ^ 16) p r₃
  refine ⟨r₃.finish CC_id (block.length % 2 ^ 16) p, ?_, ?_, ?_, ?_, ?_⟩
  · rw [heq, hall.1, hrun, map_some]
  · intro cmd hcmd
    obtain ⟨UE_id, hfind⟩ := isSome_iff_exists.1 (h.ph_known (by simp [hcmd]))
    refine ⟨UE_id, hfind, ?_⟩
    rw [htemplate, hreports.phr_info]
    exact helements.ph cmd UE_id hcmd hfind
  · rw [hcrnti₄, hcrnti₃, helements.crnti_rx, hcrnti]
  · rintro b rfl
    obtain ⟨UE_id, hfind⟩ := isSome_iff_exists.1 (h.bsr_known rfl)
    refine ⟨UE_id, hfind, ?_⟩
    rw [htemplate, hreports.bsr_info, Bsr.reported_iff (helements.bsr b UE_id rfl (hcrnti ▸ hfind))]
    rintro b rfl
    exact (h.long_bsr b rfl).1
  · rw [hhanded₄, hhanded₃, helements.handed, nil_append, sdusAt_eq_iff.2 hall.2]

end RoundTrip

def cellOf (rnti : Nat) : Enb where
  UE_list := [0]
  avail := [1]
  pCC_id _ := 0
  UE_template _ _ := { rnti := rnti }
  UE_sched_ctrl _ := {}
  eNB_UE_stats _ _ := {}
  RA_template _ _ := {}
  Is_rrc_registered := true

def aReport : List Byte :=
  blockOf (generateUlschHeader (fun _ => 0) 0 [(1, 1),
    (3, 3)] (some { PH := 40 }) (some 0x3434) none
    (some { Buffer_size := 20, LCGID := 1 }) none 0) [(1, [5]), (3, [7, 8, 9])] []

end MacRlcSplit.Mac
