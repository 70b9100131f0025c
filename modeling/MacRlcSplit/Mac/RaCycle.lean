-- The life of a random access process. A preamble takes the first place that is
-- not active, also one whose Msg4 waits for its acknowledgement. If preambles come
-- only when no Msg4 can wait, each process that is acknowledged configures its UE,
-- once.
import Mathlib.Data.Nat.Basic
import MacRlcSplit.Mac.Rntis

namespace MacRlcSplit.Mac

open Am Function List

namespace RaEnb

variable {n : Nat} {s t : RaEnb}

/-! ## The invariant -/

/-- What the history has to do with the processes. -/
structure History (n : Nat) (s : RaEnb) : Prop where
  placed : ∀ x, s.InUse x → x.1 < n
  /-- A process in use has a number of its own. -/
  numbered : ∀ x, s.InUse x → s.proc x ≤ s.started
  distinct : ∀ x y, s.InUse x → s.InUse y → s.proc x = s.proc y → x = y
  waiting : ∀ x, (s.template x).wait_ack_Msg4 = true → s.proc x ∈ s.sent
  sent_le : ∀ k ∈ s.sent, k ≤ s.started
  /-- No process is lost. -/
  kept : ∀ k ∈ s.sent, k ∈ s.acked.map Prod.fst ∨ k ∈ s.dropped ∨ ∃ x, s.Awaiting x ∧ s.proc x = k
  once : (s.acked.map Prod.fst).Nodup
  acked_sent : ∀ a ∈ s.acked, a.1 ∈ s.sent
  done : ∀ a ∈ s.acked, ∀ x, s.InUse x → s.proc x ≠ a.1

/-- The UE with the RNTI of a process is that of its Msg3. -/
structure Owned (s : RaEnb) : Prop where
  owned : ∀ x, s.InUse x → ∀ u ∈ s.enb.UE_list, s.ueRnti u = (s.template x).rnti →
    s.owner (s.proc x) = some u
  own : ∀ a ∈ s.acked, s.owner a.1 = some a.2

theorem history_init (n UEs : Nat) (rrc : Bool) : (init UEs rrc).History n := by
  have hidle : ∀ x, ¬ (init UEs rrc).InUse x := by simp [InUse, template, init]
  refine ⟨?_, ?_, ?_, ?_, by rintro _ ⟨⟩, by rintro _ ⟨⟩, nodup_nil, by rintro _ ⟨⟩,
    by rintro _ ⟨⟩⟩
  · exact fun x hx => absurd hx (hidle x)
  · exact fun x hx => absurd hx (hidle x)
  · exact fun x _ hx => absurd hx (hidle x)
  · exact fun x hx => absurd (.inr hx) (hidle x)

theorem owned_init (UEs : Nat) (rrc : Bool) : (init UEs rrc).Owned := ⟨fun _ _ => nofun, nofun⟩

variable {x : RaSlot} {rnti CC_id u : Nat}

theorem Awaiting.inUse (h : s.Awaiting x) : s.InUse x := .inr h.2

theorem awaiting_congr (h : t.template x = s.template x) : t.Awaiting x ↔ s.Awaiting x := by
  simp only [Awaiting, h]

/-! ## Preambles -/

theorem start_other (s : RaEnb) (x : RaSlot) (preamble : Nat) (offset : Int) (RA_rnti rnti : Nat)
    {y : RaSlot} (hy : y ≠ x) : (s.start x preamble offset RA_rnti rnti).template y = s.template y ∧
      (s.start x preamble offset RA_rnti rnti).proc y = s.proc y :=
  ⟨by rw [template_start, if_neg hy], update_of_ne hy _ _⟩

theorem History.start (h : s.History n) (hcarrier : x.1 < n) (hidle : ¬ s.InUse x) (preamble : Nat)
    (offset : Int) (RA_rnti rnti : Nat) : (s.start x preamble offset RA_rnti rnti).History n := by
  have hne : ∀ y, s.InUse y → y ≠ x := fun y hy hyx => hidle (hyx ▸ hy)
  have hother := fun y => start_other (y := y) s x preamble offset RA_rnti rnti
  have hnew : (s.start x preamble offset RA_rnti rnti).proc x = s.started + 1 := update_self _ _ _
  have hkeep : ∀ y ≠ x, (s.start x preamble offset RA_rnti rnti).InUse y → s.InUse y :=
    fun y hy => (inUse_congr (hother y hy).1).1
  refine ⟨?_, ?_, ?_, ?_, ?_, ?_, h.once, h.acked_sent, ?_⟩
  · intro y hy
    by_cases hyx : y = x
    · exact hyx ▸ hcarrier
    · exact h.placed y (hkeep y hyx hy)
  · intro y hy
    by_cases hyx : y = x
    · rw [hyx, hnew]
      exact le_rfl
    · rw [(hother y hyx).2]
      exact Nat.le_succ_of_le (h.numbered y (hkeep y hyx hy))
  · intro y z hy hz hyz
    by_cases hyx : y = x
    · by_cases hzx : z = x
      · rw [hyx, hzx]
      · rw [hyx, (hother z hzx).2] at hyz
        have := h.numbered z (hkeep z hzx hz)
        omega
    · by_cases hzx : z = x
      · rw [hzx, (hother y hyx).2] at hyz
        have := h.numbered y (hkeep y hyx hy)
        omega
      · rw [(hother y hyx).2, (hother z hzx).2] at hyz
        exact h.distinct y z (hkeep y hyx hy) (hkeep z hzx hz) hyz
  · intro y hy
    by_cases hyx : y = x
    · rw [hyx, template_start, if_pos rfl] at hy
      cases hy
    · rw [(hother y hyx).1] at hy
      rw [(hother y hyx).2]
      exact h.waiting y hy
  · exact fun k hk => Nat.le_succ_of_le (h.sent_le k hk)
  · intro k hk
    rcases h.kept k hk with hacked | hdropped | ⟨y, hy, rfl⟩
    · exact .inl hacked
    · exact .inr (.inl hdropped)
    · have hyx := hne y hy.inUse
      exact .inr (.inr ⟨y, (awaiting_congr (hother y hyx).1).2 hy, (hother y hyx).2⟩)
  · intro a ha y hy
    by_cases hyx : y = x
    · rw [hyx]
      have := h.sent_le a.1 (h.acked_sent a ha)
      omega
    · rw [(hother y hyx).2]
      exact h.done a ha y (hkeep y hyx hy)

theorem Owned.start (h : s.Owned) (hunused : s.Unused n rnti) (preamble : Nat) (offset : Int)
    (RA_rnti : Nat) : (s.start x preamble offset RA_rnti rnti).Owned := by
  have hother := fun y => start_other (y := y) s x preamble offset RA_rnti rnti
  refine ⟨fun y hy u hu hrnti => ?_, h.own⟩
  by_cases hyx : y = x
  · rw [hyx, template_start, if_pos rfl] at hrnti
    exact absurd hrnti (hunused.2.1 u hu)
  · rw [(hother y hyx).1] at hrnti
    rw [(hother y hyx).2]
    exact h.owned y ((inUse_congr (hother y hyx).1).1 hy) u hu hrnti

/-! ## Calls that leave the numbers -/

/-- The history is the same. -/
structure SameHistory (s t : RaEnb) : Prop where
  started : t.started = s.started
  proc : t.proc = s.proc
  sent : t.sent = s.sent
  acked : t.acked = s.acked

theorem History.shrink (h : s.History n) (hhist : SameHistory s t)
    (hprocs : ∀ x, t.InUse x → s.InUse x)
    (hwait : ∀ x, (t.template x).wait_ack_Msg4 → (s.template x).wait_ack_Msg4)
    (hdropped : ∀ k ∈ s.dropped, k ∈ t.dropped)
    (hawait : ∀ x, s.Awaiting x → t.Awaiting x ∨ s.proc x ∈ t.dropped) : t.History n := by
  refine ⟨fun x hx => h.placed x (hprocs x hx), ?_, ?_, ?_, ?_, ?_, ?_, ?_, ?_⟩
  · intro x hx
    rw [hhist.proc, hhist.started]
    exact h.numbered x (hprocs x hx)
  · intro x y hx hy hxy
    rw [hhist.proc] at hxy
    exact h.distinct x y (hprocs x hx) (hprocs y hy) hxy
  · intro x hx
    rw [hhist.proc, hhist.sent]
    exact h.waiting x (hwait x hx)
  · rw [hhist.sent, hhist.started]
    exact h.sent_le
  · intro k hk
    rw [hhist.sent] at hk
    rw [hhist.acked, hhist.proc]
    rcases h.kept k hk with hacked | hdrop | ⟨x, hx, rfl⟩
    · exact .inl hacked
    · exact .inr (.inl (hdropped k hdrop))
    · rcases hawait x hx with hx' | hx'
      · exact .inr (.inr ⟨x, hx', rfl⟩)
      · exact .inr (.inl hx')
  · rw [hhist.acked]
    exact h.once
  · rw [hhist.acked, hhist.sent]
    exact h.acked_sent
  · intro a ha x hx
    rw [hhist.acked] at ha
    rw [hhist.proc]
    exact h.done a ha x (hprocs x hx)

theorem Owned.shrink (h : s.Owned) (hhist : SameHistory s t)
    (hlist : ∀ u ∈ t.enb.UE_list, u ∈ s.enb.UE_list ∧ t.ueRnti u = s.ueRnti u)
    (howner : t.owner = s.owner)
    (hprocs : ∀ x, t.InUse x → s.InUse x ∧ (t.template x).rnti = (s.template x).rnti) :
    t.Owned := by
  refine ⟨fun x hx u hu hrnti => ?_, by rw [hhist.acked, howner]; exact h.own⟩
  rw [(hlist u hu).2, (hprocs x hx).2] at hrnti
  rw [howner, hhist.proc]
  exact h.owned x (hprocs x hx).1 u (hlist u hu).1 hrnti

theorem History.reset (h : s.History n) (x : RaSlot) : (s.reset x).History n := by
  refine h.shrink ⟨rfl, rfl, rfl, rfl⟩ (fun y hy => (inUse_reset hy).2.1) ?_ ?_ ?_
  · intro y hy
    have hy' : (s.reset x).InUse y := .inr hy
    obtain ⟨-, -, hsame⟩ := inUse_reset hy'
    rwa [hsame] at hy
  · intro k hk
    simp only [RaEnb.reset]
    split
    · exact mem_append_left _ hk
    · exact hk
  · intro y hy
    by_cases hyx : y = x
    · subst hyx
      right
      simp [RaEnb.reset, hy.inUse]
    · left
      have hsame : (s.reset x).template y = s.template y := by rw [template_reset, if_neg hyx]
      exact (awaiting_congr hsame).2 hy

theorem Owned.reset (h : s.Owned) (x : RaSlot) : (s.reset x).Owned := by
  refine h.shrink ⟨rfl, rfl, rfl, rfl⟩ (fun u hu => ⟨hu, rfl⟩) rfl fun y hy => ?_
  obtain ⟨-, huse, hsame⟩ := inUse_reset hy
  exact ⟨huse, by rw [hsame]⟩

/-! ## Msg3 -/

theorem awaiting_of_sameProcs (h : SameProcs s.enb t.enb) : t.Awaiting x ↔ s.Awaiting x := by
  constructor
  · intro hx
    exact (awaiting_congr (h.inactive x.1 x.2 ((h.RA_active x.1 x.2).symm.trans hx.1))).1 hx
  · exact fun hx => (awaiting_congr (h.inactive x.1 x.2 hx.1)).2 hx

theorem History.rxSdu (h : s.History n) {frame harq_pid size : Nat} {sdu : Option Mem}
    {msg3_flag : Option Bool}
    (ht : s.rxSdu CC_id frame rnti harq_pid sdu size msg3_flag = some t) : t.History n := by
  obtain ⟨r, hr, rfl⟩ := Option.map_eq_some_iff.1 ht
  have hprocs := RxRun.sameProcs_rxSdu hr
  exact h.shrink ⟨rfl, rfl, rfl, rfl⟩ (fun x hx => (inUse_sameProcs hprocs hx).1)
    (fun x hx => hprocs.wait_ack_Msg4 x.1 x.2 hx) (fun k hk => hk)
    fun x hx => .inl ((awaiting_of_sameProcs hprocs).2 hx)

/-- Everything about the processes and their UEs. -/
structure Cycle (n : Nat) (s : RaEnb) : Prop extends Unique n s, History n s, Owned s

theorem Cycle.owned_rxSdu (h : s.Cycle n) {hasMsg3 : Bool} {r : RxRun}
    (heffect : RxRun.BlockEffect CC_id rnti s.enb (hasMsg3 ∧ ∃ ii, s.enb.Pending CC_id rnti ii) r)
    (hx : s.InUse x) (hu : u ∈ r.enb.UE_list)
    (hrnti : (r.enb.UE_template (r.enb.pCC_id u) u).rnti = (s.template x).rnti) :
    (if hasMsg3 ∧ ∃ i, ((s.template (CC_id, i)).rnti = rnti ∧ (s.template (CC_id, i)).RA_active) ∧
        s.proc (CC_id, i) = s.proc x then r.UE_id else s.owner (s.proc x)) = some u := by
  -- a process with a Msg3 in this block has the RNTI of the block
  have hown : (hasMsg3 ∧ ∃ i, ((s.template (CC_id, i)).rnti = rnti ∧
      (s.template (CC_id, i)).RA_active) ∧ s.proc (CC_id, i) = s.proc x) →
      (s.template x).rnti = rnti := by
    rintro ⟨-, i, ⟨hi, hactive⟩, hproc⟩
    rw [← h.distinct (CC_id, i) x (.inl hactive) hx hproc]
    exact hi
  cases heffect with
  | other hno ues =>
    rw [if_neg fun hmsg3 => hno ⟨hmsg3.1, hmsg3.2.imp fun i hi => hi.1⟩]
    have hu' : u ∈ s.enb.UE_list := ues.UE_list ▸ hu
    refine h.owned x hx u hu' (Eq.trans ?_ hrnti)
    simp only [ueRnti, ues.pCC_id, ues.rnti]
  | known _ v hUE hfound list _ =>
    have hu' : u ∈ s.enb.UE_list := list.UE_list ▸ hu
    have hrnti' : s.ueRnti u = (s.template x).rnti := by
      refine Eq.trans ?_ hrnti
      simp only [ueRnti, list.pCC_id, list.rnti]
    split
    · rename_i hmsg3
      obtain ⟨hv, hvr⟩ := Enb.hasRnti_of_found hfound
      rw [hUE, h.ues u hu' v hv (hrnti'.trans ((hown hmsg3).trans hvr.symm))]
    · exact h.owned x hx u hu' hrnti'
  | added hmsg3 v hUE hunknown list _ =>
    rcases mem_cons.1 (list.UE_list ▸ hu) with rfl | hu'
    · -- the new UE is that of the process that waits
      obtain ⟨hccch, ii, hpending⟩ := hmsg3
      have hxii : (CC_id, ii) = x :=
        h.procs _ _ (.inl hpending.2) hx (hpending.1.trans (list.has.2.symm.trans hrnti))
      rw [if_pos ⟨hccch, ii, hpending, by rw [hxii]⟩]
      exact hUE
    · have hrnti' : s.ueRnti u = (s.template x).rnti := (h.rnti_of_added list hu').symm.trans hrnti
      rw [if_neg fun hmsg3 => rnti_ne_of_unknown hunknown u hu' (hrnti'.trans (hown hmsg3))]
      exact h.owned x hx u hu' hrnti'

theorem Cycle.rxSdu (h : s.Cycle n) {frame harq_pid size : Nat} {sdu : Option Mem}
    {msg3_flag : Option Bool}
    (hnames : NamesItself (.rxSdu CC_id frame rnti harq_pid sdu size msg3_flag))
    (ht : s.rxSdu CC_id frame rnti harq_pid sdu size msg3_flag = some t) : t.Owned := by
  obtain ⟨r, hr, rfl⟩ := Option.map_eq_some_iff.1 ht
  have heffect := RxRun.rxSdu_effect (fun hccch _ => hnames hccch) hr
  refine ⟨fun x hx u hu hrnti => ?_, fun a ha => ?_⟩
  · obtain ⟨hx', hxr⟩ := inUse_sameProcs heffect.procs hx
    rw [hxr] at hrnti
    exact h.owned_rxSdu heffect hx' hu hrnti
  · dsimp only
    rw [if_neg]
    · exact h.own a ha
    · rintro ⟨-, i, ⟨-, hactive⟩, hproc⟩
      exact h.done a ha (CC_id, i) (.inl hactive) hproc

/-! ## Msg4 -/

theorem History.sendMsg4 (h : s.History n) (hturn : Turn x s (s.sendMsg4 x))
    (hactive : (s.template x).RA_active) : (s.sendMsg4 x).History n := by
  have hother : ∀ y ≠ x, (s.sendMsg4 x).template y = s.template y := fun y => hturn.other
  have hprocs := hturn.template
  refine ⟨fun y hy => h.placed y (hprocs y hy).1, fun y hy => h.numbered y (hprocs y hy).1,
    fun y z hy hz => h.distinct y z (hprocs y hy).1 (hprocs z hz).1, ?_, ?_, ?_, h.once, ?_,
    fun a ha y hy => h.done a ha y (hprocs y hy).1⟩
  · intro y hy
    by_cases hyx : y = x
    · subst hyx
      exact mem_append_right _ mem_cons_self
    · rw [hother y hyx] at hy
      exact mem_append_left _ (h.waiting y hy)
  · exact forall_mem_append.2 ⟨h.sent_le, forall_mem_singleton.2 (h.numbered x (.inl hactive))⟩
  · intro k hk
    rcases mem_append.1 hk with hk | hk
    · rcases h.kept k hk with hacked | hdropped | ⟨y, hy, rfl⟩
      · exact .inl hacked
      · exact .inr (.inl hdropped)
      · have hyx : y ≠ x := by
          rintro rfl
          rw [hy.1] at hactive
          cases hactive
        exact .inr (.inr ⟨y, (awaiting_congr (hother y hyx)).2 hy, rfl⟩)
    · rw [mem_singleton.1 hk]
      refine .inr (.inr ⟨x, ?_, rfl⟩)
      rw [Awaiting, template_sendMsg4, if_pos rfl]
      exact ⟨rfl, rfl⟩
  · exact fun a ha => mem_append_left _ (h.acked_sent a ha)

theorem History.ackMsg4 (h : s.History n) (hturn : Turn x s (s.ackMsg4 x u))
    (hawaiting : s.Awaiting x) : (s.ackMsg4 x u).History n := by
  have hother : ∀ y ≠ x, (s.ackMsg4 x u).template y = s.template y := fun y => hturn.other
  have hdone : ¬ (s.ackMsg4 x u).InUse x := by
    rw [InUse, template_ackMsg4]
    simp
  have hprocs : ∀ y, (s.ackMsg4 x u).InUse y → y ≠ x ∧ s.InUse y ∧
      (s.ackMsg4 x u).template y = s.template y := by
    intro y hy
    have hyx : y ≠ x := fun hyx => hdone (hyx ▸ hy)
    exact ⟨hyx, (inUse_congr (hother y hyx)).1 hy, hother y hyx⟩
  refine ⟨fun y hy => h.placed y (hprocs y hy).2.1, fun y hy => h.numbered y (hprocs y hy).2.1,
    fun y z hy hz => h.distinct y z (hprocs y hy).2.1 (hprocs z hz).2.1, ?_, h.sent_le, ?_, ?_, ?_,
    ?_⟩
  · intro y hy
    have hy' : (s.ackMsg4 x u).InUse y := .inr hy
    rw [(hprocs y hy').2.2] at hy
    exact h.waiting y hy
  · intro k hk
    show k ∈ (s.acked ++ [(s.proc x, u)]).map Prod.fst ∨ _
    rw [map_append]
    rcases h.kept k hk with hacked | hdropped | ⟨y, hy, rfl⟩
    · exact .inl (mem_append_left _ hacked)
    · exact .inr (.inl hdropped)
    · by_cases hyx : y = x
      · subst hyx
        exact .inl (mem_append_right _ mem_cons_self)
      · exact .inr (.inr ⟨y, (awaiting_congr (hother y hyx)).2 hy, rfl⟩)
  · show ((s.acked ++ [(s.proc x, u)]).map Prod.fst).Nodup
    rw [map_append, nodup_append]
    refine ⟨h.once, pairwise_singleton _ _, fun k hk k' hk' => ?_⟩
    obtain ⟨a, ha, rfl⟩ := mem_map.1 hk
    rw [mem_singleton.1 hk']
    exact (h.done a ha x hawaiting.inUse).symm
  · exact forall_mem_append.2 ⟨h.acked_sent, forall_mem_singleton.2 (h.waiting x hawaiting.2)⟩
  · refine forall_mem_append.2 ⟨fun a ha y hy => h.done a ha y (hprocs y hy).2.1,
      forall_mem_singleton.2 ?_⟩
    exact fun y hy hproc => (hprocs y hy).1 (h.distinct y x (hprocs y hy).2.1 hawaiting.inUse hproc)

theorem History.turn (h : s.History n) (hturn : Turn x s t) : t.History n := by
  cases hturn with
  | nothing ht => exact ht ▸ h
  | sends active u found ht =>
    subst ht
    exact h.sendMsg4 (.sends active u found rfl) active
  | acked awaiting u found ht =>
    subst ht
    exact h.ackMsg4 (.acked awaiting u found rfl) awaiting

theorem Owned.owner_found (h : s.Owned) (hx : s.InUse x)
    (hfound : s.enb.findUeId (s.template x).rnti = some u) : s.owner (s.proc x) = some u :=
  h.owned x hx u (Enb.hasRnti_of_found hfound).1 (Enb.hasRnti_of_found hfound).2

theorem Owned.turn (h : s.Owned) (hturn : Turn x s t) : t.Owned := by
  have hlist := hturn.sameList
  have howner : t.owner = s.owner ∧ t.proc = s.proc := by
    cases hturn with
    | nothing h | sends _ _ _ h | acked _ _ _ h => exact h ▸ ⟨rfl, rfl⟩
  refine ⟨fun y hy u hu hrnti => ?_, ?_⟩
  · rw [howner.1, howner.2]
    rw [(hturn.template y hy).2] at hrnti
    simp only [ueRnti, hlist.pCC_id, hlist.rnti] at hrnti
    exact h.owned y (hturn.template y hy).1 u (hlist.UE_list ▸ hu) hrnti
  · rw [howner.1]
    cases hturn with
    | nothing ht => exact ht ▸ h.own
    | sends _ _ _ ht => exact ht ▸ h.own
    | acked awaiting u found ht =>
      rw [ht]
      exact forall_mem_append.2 ⟨h.own, forall_mem_singleton.2 (h.owner_found awaiting.inUse found)⟩

/-! ## When preambles come -/

/-- The place of a preamble does not wait for an acknowledgement. -/
def Spares (s : RaEnb) : RaCall → Prop
  | .initiateRaProc CC_id _ _ _ _ _ => ∀ i, s.freeProc CC_id = some i → ¬ s.Awaiting (CC_id, i)
  | _ => True

/-- The places where a Msg4 can wait, by what `schedule_RA` is told: one with an RRC message and
CCEs may be sent, and one in HARQ round 0 has been acknowledged. -/
def mayWait (w : RaSlot → Bool) : RaCall → RaSlot → Bool
  | .scheduleRa input => fun x =>
    w x && decide (0 < (input x).round) || decide (0 < (input x).rrc_sdu_length) &&
      (input x).feasible
  | _ => w

/-- A preamble comes when no Msg4 of its carrier can wait. -/
def Comes (w : RaSlot → Bool) : RaCall → Prop
  | .initiateRaProc CC_id _ _ _ _ _ => ∀ i, w (CC_id, i) = false
  | _ => True

instance (w : RaSlot → Bool) : (c : RaCall) → Decidable (Comes w c)
  | .initiateRaProc CC_id .. => Nat.decidableForallFin fun i => w (CC_id, i) = false
  | .fillRar .. | .rxSdu .. | .scheduleRa .. | .cancelRaProc .. | .rrcMacRemoveUe .. =>
    .isTrue trivial

theorem awaiting_scheduleProc {input : RaSlot → Input} (h : s.scheduleProc input x = some t)
    (hx : t.Awaiting x) :
    s.Awaiting x ∧ 0 < (input x).round ∨ 0 < (input x).rrc_sdu_length ∧
    (input x).feasible = true := by
  simp only [scheduleProc] at h
  split at h
  · rename_i hactive
    have hsame (ht : some s = some t) : False := by
      cases ht
      rw [hx.1] at hactive
      cases hactive
    split at h
    · exact (hsame h).elim
    split at h
    · split at h
      · cases h
      split at h
      · rename_i hsend
        exact .inr hsend
      · exact (hsame h).elim
    · exact (hsame h).elim
  · split at h
    · split at h
      · rename_i hround
        cases h
        exact .inl ⟨hx, hround⟩
      · obtain ⟨u, -, rfl⟩ := Option.map_eq_some_iff.1 h
        simp [Awaiting, template_ackMsg4] at hx
    · rename_i hwait
      cases h
      exact absurd hx.2 hwait

theorem awaiting_turns {input : RaSlot → Input} {xs : List RaSlot}
    (h : Lib.run (fun s x => s.scheduleProc input x) s xs = some t) (hx : t.Awaiting x) :
    x ∉ xs ∧ s.Awaiting x ∨ s.Awaiting x ∧ 0 < (input x).round ∨
      0 < (input x).rrc_sdu_length ∧ (input x).feasible = true := by
  induction xs generalizing s with
  | nil =>
    cases h
    exact .inl ⟨not_mem_nil, hx⟩
  | cons y xs ih =>
    obtain ⟨u, hu, hrest⟩ := Lib.run_cons.1 h
    have hback (hxu : u.Awaiting x) : x ≠ y ∧ s.Awaiting x ∨ s.Awaiting x ∧ 0 < (input x).round ∨
        0 < (input x).rrc_sdu_length ∧ (input x).feasible = true := by
      by_cases hxy : x = y
      · subst hxy
        exact .inr (awaiting_scheduleProc hu hxu)
      · exact .inl ⟨hxy, (awaiting_congr ((turn_scheduleProc hu).other hxy)).1 hxu⟩
    rcases ih hrest with ⟨hnot, hxu⟩ | ⟨hxu, hround⟩ | hsend
    · exact (hback hxu).imp_left fun ⟨hne, hxs⟩ =>
        ⟨fun hmem => (mem_cons.1 hmem).elim hne hnot, hxs⟩
    · rcases hback hxu with ⟨-, hxs⟩ | hrest
      · exact .inr (.inl ⟨hxs, hround⟩)
      · exact .inr hrest
    · exact .inr (.inr hsend)

theorem mayWait_step {w : RaSlot → Bool} (h : s.History n) (hw : ∀ x, s.Awaiting x → w x = true)
    {c : RaCall} (ht : s.step n c = some t) : ∀ x, t.Awaiting x → mayWait w c x = true := by
  by_cases hc : ∃ input, c = .scheduleRa input
  · obtain ⟨input, rfl⟩ := hc
    intro x hx
    have ht : s.scheduleRa n input = some t := by
      simpa [RaEnb.step, RaCall.carrier, RaEnb.call] using ht
    rcases awaiting_turns ht hx with ⟨hnot, hxs⟩ | ⟨hxs, hround⟩ | hsend
    · exact absurd (mem_slots.2 (h.placed x hxs.inUse)) hnot
    · simp [mayWait, hw x hxs, hround]
    · simp [mayWait, hsend]
  · have hsame : mayWait w c = w := by
      cases c with
      | scheduleRa input => exact absurd ⟨input, rfl⟩ hc
      | _ => rfl
    rw [hsame]
    refine step_keeps (P := fun t => ∀ x, t.Awaiting x → w x = true) ?_ ?_ ?_ ?_ ?_ ?_ hw ht
    · rintro CC_id i preamble offset subframe f_id taus rfl - - x hx
      by_cases hxi : x = (CC_id, i)
      · subst hxi
        simp [Awaiting, template_start, startTemplate] at hx
      · exact hw x ((awaiting_congr (start_other s _ _ _ _ _ hxi).1).1 hx)
    · exact fun y f hsame _ x hx => hw x ((awaiting_congr (hsame x)).1 hx)
    · rintro CC_id frame rnti harq_pid sdu size msg3_flag rfl ht x hx
      obtain ⟨r, hr, rfl⟩ := Option.map_eq_some_iff.1 ht
      exact hw x ((awaiting_of_sameProcs (RxRun.sameProcs_rxSdu hr)).1 hx)
    · exact fun input hinput => absurd ⟨input, hinput⟩ hc
    · intro u y hu x hx
      obtain ⟨-, -, hsame⟩ := inUse_reset hx.inUse
      exact hu x ((awaiting_congr hsame).1 hx)
    · exact fun UE_id _ x hx => hw x hx

/-! ## Every interleaving -/

/-- Every Msg4 that was sent is still accounted for. -/
theorem History.step (h : s.History n) {c : RaCall} (hc : s.Spares c)
    (ht : s.step n c = some t) : t.History n := by
  refine step_keeps ?_ (fun x f hsame _ => ?_) ?_ (fun _ _ =>
    scheduleRa_keeps (fun _ _ _ h => h.turn) h) (fun _ x h => h.reset x) ?_ h ht
  · rintro CC_id i preamble offset subframe f_id taus rfl hcarrier hfree
    have hinactive : (s.template (CC_id, i)).RA_active = false := by
      simpa [template] using find?_some hfree
    refine h.start hcarrier ?_ _ _ _ _
    rintro (hactive | hwait)
    · rw [hinactive] at hactive
      cases hactive
    · exact hc i hfree ⟨hinactive, hwait⟩
  · refine h.shrink ⟨rfl, rfl, rfl, rfl⟩ (fun y => (inUse_congr (hsame y)).1) (fun y hy => ?_)
      (fun k hk => hk) ?_
    · rwa [hsame] at hy
    · exact fun y hy => .inl ((awaiting_congr (hsame y)).2 hy)
  · rintro CC_id frame rnti harq_pid sdu size msg3_flag rfl ht
    exact h.rxSdu ht
  · exact fun UE_id _ =>
      h.shrink ⟨rfl, rfl, rfl, rfl⟩ (fun x hx => hx) (fun x hx => hx) (fun k hk => hk)
      fun x hx => .inl hx

/-- The UE of a process stays the one that its Msg3 added. -/
theorem Cycle.step (h : s.Cycle n) {c : RaCall} (hc : (s.Draws n c ∧ NamesItself c) ∧ s.Spares c)
    (ht : s.step n c = some t) : t.Cycle n := by
  refine ⟨h.toUnique.step hc.1.1 hc.1.2 ht, h.toHistory.step hc.2 ht, ?_⟩
  refine step_keeps ?_ (fun x f hsame _ => ?_) ?_ (fun _ _ =>
    scheduleRa_keeps (fun _ _ _ h => h.turn) h.toOwned) (fun _ x h => h.reset x) ?_ h.toOwned ht
  · rintro CC_id i preamble offset subframe f_id taus rfl - hfree
    exact h.toOwned.start (hc.1.1 (by simp [hfree])).1 _ _ _
  · refine h.toOwned.shrink ⟨rfl, rfl, rfl, rfl⟩ (fun u hu => ⟨hu, rfl⟩) rfl fun y hy => ?_
    exact ⟨(inUse_congr (hsame y)).1 hy, by rw [hsame]⟩
  · rintro CC_id frame rnti harq_pid sdu size msg3_flag rfl ht
    exact h.rxSdu hc.1.2 ht
  · exact fun UE_id _ => h.toOwned.shrink ⟨rfl, rfl, rfl, rfl⟩ (fun u hu => h.mem_removeUe hu) rfl
      fun x hx => ⟨hx, rfl⟩

theorem History.spares {w : RaSlot → Bool} {calls : List RaCall} (h : s.History n)
    (hw : ∀ x, s.Awaiting x → w x = true)
    (hcomes : Lib.Meets (fun w c => some (mayWait w c)) Comes w calls) :
    Lib.Meets (RaEnb.step n) Spares s calls := by
  induction calls generalizing s w with
  | nil => trivial
  | cons c calls ih =>
    have hspares : s.Spares c := by
      cases c with
      | initiateRaProc CC_id preamble_index timing_offset subframe f_id taus =>
        intro i _ hx
        have hclear := hcomes.1 i
        rw [hw _ hx] at hclear
        cases hclear
      | _ => trivial
    exact ⟨hspares, fun t ht => ih (h.step hspares ht) (mayWait_step h hw ht) (hcomes.2 _ rfl)⟩

end RaEnb

end MacRlcSplit.Mac
