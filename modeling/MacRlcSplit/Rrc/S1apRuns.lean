-- Which context a message of the MME reaches, in runs of connections,
-- removals, first NAS messages and messages of the MME.
import MacRlcSplit.Rrc.S1apIds

namespace MacRlcSplit.Rrc

open Lib List Option

/-! ## Where contexts are -/

namespace Contexts

variable {s t : Contexts}

/-- Each context has a block of its own. -/
structure Allocated (s : Contexts) : Prop where
  nodup : (s.ues.map UeContext.block).Nodup
  bound : ∀ c ∈ s.ues, c.block < s.blocks

/-- Every context of `t` is one of `s`, in its block and under its RNTI. -/
def Within (t s : Contexts) : Prop := ∀ c ∈ t.ues, ∃ c' ∈ s.ues, c'.rnti = c.rnti ∧
    c'.block = c.block

theorem allocated_init : ({} : Contexts).Allocated where
  nodup := nodup_nil
  bound c h := by cases h

theorem Allocated.congr (h : s.Allocated)
    (hues : (t.ues.map UeContext.block).Perm (s.ues.map UeContext.block))
    (hblocks : t.blocks = s.blocks) : t.Allocated where
  nodup := hues.nodup_iff.2 h.nodup
  bound c hc := by
    obtain ⟨d, hd, heq⟩ := List.mem_map.1 (hues.mem_iff.1 (List.mem_map_of_mem hc))
    rw [← heq, hblocks]
    exact h.bound d hd

theorem step_within {e : Event} (ht : step s e = some t) : ∀ c ∈ t.ues,
    (∃ c' ∈ s.ues, c'.rnti = c.rnti ∧ c'.block = c.block) ∨
      ∃ ue_Identity, e = .request c.rnti ue_Identity ∧ s.rrcEnbGetUeContext c.rnti = none := by
  intro c hc
  cases e with
  | free rnti =>
    cases ht
    left
    cases hfind : s.rrcEnbGetUeContext rnti with
    | none =>
      rw [rrcEnbFreeUe, hfind] at hc
      exact ⟨c, hc, rfl, rfl⟩
    | some d => exact ⟨c, (ues_free hfind).mem_iff.2 (mem_cons_of_mem d hc), rfl, rfl⟩
  | request rnti ue_Identity =>
    cases ht
    rcases s.request_cases rnti ue_Identity with heq | ⟨hrnti, d, rfl, -, -, heq⟩ | ⟨hrnti, -, -, d,
      hd, -, heq⟩
    · rw [heq] at hc
      exact .inl ⟨c, hc, rfl, rfl⟩
    · rw [heq] at hc
      rcases mem_cons.1 ((ues_add hrnti).mem_iff.1 hc) with rfl | hc
      · exact .inr ⟨ue_Identity, rfl, hrnti⟩
      · exact .inl ⟨c, hc, rfl, rfl⟩
    · rw [heq] at hc
      obtain ⟨others, hold, hnew⟩ := ues_rekey hd hrnti
      rcases mem_cons.1 (hnew.mem_iff.1 hc) with rfl | hc
      · exact .inr ⟨ue_Identity, rfl, hrnti⟩
      · exact .inl ⟨c, hold.mem_iff.2 (mem_cons_of_mem d hc), rfl, rfl⟩

theorem Allocated.step (h : s.Allocated) {e : Event} (ht : step s e = some t) : t.Allocated := by
  cases e with
  | free rnti =>
    cases ht
    cases hfind : s.rrcEnbGetUeContext rnti with
    | none =>
      rw [rrcEnbFreeUe, hfind]
      exact h
    | some c =>
      have hues := ues_free hfind
      have hblocks : (s.rrcEnbFreeUe rnti).blocks = s.blocks := by
        rw [rrcEnbFreeUe, hfind]
        rfl
      refine ⟨?_, fun d hd => ?_⟩
      · exact (nodup_cons.1 ((hues.map UeContext.block).nodup_iff.1 h.nodup)).2
      · rw [hblocks]
        exact h.bound d (hues.mem_iff.2 (mem_cons_of_mem c hd))
  | request rnti ue_Identity =>
    cases ht
    rcases s.request_cases rnti ue_Identity with heq | ⟨hrnti, c, rfl, -, hblock,
      heq⟩ | ⟨hrnti, -, -, c, hc, -, heq⟩
    · rw [heq]
      exact h
    · rw [heq]
      have hues : (s.addContext c).countUe.ues.Perm (c :: s.ues) := ues_add hrnti
      refine ⟨(hues.map UeContext.block).nodup_iff.2 (nodup_cons.2 ⟨fun hmem => ?_, h.nodup⟩),
        fun d hd => ?_⟩
      · obtain ⟨d, hd, hsame⟩ := List.mem_map.1 hmem
        exact absurd (h.bound d hd) (by omega)
      · show d.block < s.blocks + 1
        rcases mem_cons.1 (hues.mem_iff.1 hd) with rfl | hd
        · omega
        · exact Nat.lt_succ_of_lt (h.bound d hd)
    · obtain ⟨others, hold, hnew⟩ := ues_rekey hc hrnti
      rw [heq]
      exact h.congr ((hnew.map UeContext.block).trans (hold.map UeContext.block).symm) rfl

variable {c c' : UeContext}

theorem ues_write (hc : c ∈ s.ues) (hrnti : c'.rnti = c.rnti) :
    ∃ others, s.ues.Perm (c :: others) ∧ (s.write c').ues.Perm (c' :: others) := by
  refine ⟨(s.rrc_ue_head.remove c.rnti).elems, Tree.remove_perm hc, ?_⟩
  rw [← hrnti]
  refine Tree.insert_perm ?_
  rw [Tree.find_remove, if_pos rfl]

theorem Allocated.write (h : s.Allocated) (hc : c ∈ s.ues) (hrnti : c'.rnti = c.rnti)
    (hblock : c'.block = c.block) : (s.write c').Allocated := by
  obtain ⟨others, hold, hnew⟩ := ues_write hc hrnti
  have hblocks := (hnew.map UeContext.block).trans
    ((hold.map UeContext.block).trans (by rw [map_cons, ← hblock]; rfl)).symm
  exact h.congr hblocks rfl

theorem write_within (hc : c ∈ s.ues) (hrnti : c'.rnti = c.rnti) (hblock : c'.block = c.block) :
    (s.write c').Within s := by
  obtain ⟨others, hold, hnew⟩ := ues_write hc hrnti
  intro d hd
  rcases mem_cons.1 (hnew.mem_iff.1 hd) with rfl | hd
  · exact ⟨c, hc, hrnti.symm, hblock.symm⟩
  · exact ⟨d, hold.mem_iff.2 (mem_cons_of_mem c hd), rfl, rfl⟩

end Contexts

/-! ## Where records lead -/

namespace S1ap

variable {s t : S1ap} {m : Message} {d : UeDesc} {k : Nat}

/-- A record leads to no context but the one that an id was assigned for. -/
def Leads (s : S1ap) (ue_ids : S1apIds) (d : UeDesc) : Prop :=
  ∀ c ∈ s.rrc.ues, c.rnti = ue_ids.ue_rnti → c.block = d.owner

structure Inv (s : S1ap) : Prop where
  allocated : s.rrc.Allocated
  assigned : ∀ k ue_ids, s.s1ap_id2_s1ap_ids.lookup k = some ue_ids →
    0 < k ∧ ue_ids.eNB_ue_s1ap_id = k ∧ ∃ d, s.s1ap_ue_head.lookup k = some d ∧ s.Leads ue_ids d
  initial : ∀ i ue_ids k d, i ≠ 0 → s.initial_id2_s1ap_ids.lookup i = some ue_ids →
    s.s1ap_ue_head.lookup k = some d → d.ue_initial_id = i → s.Leads ue_ids d

theorem inv_init : ({} : S1ap).Inv where
  allocated := Contexts.allocated_init
  assigned k ue_ids h := by cases h
  initial i ue_ids k d _ h := by cases h

def Unrecorded (s : S1ap) (rnti : Nat) : Prop :=
  (∀ e ∈ s.initial_id2_s1ap_ids.entries, e.2.ue_rnti ≠ rnti) ∧
  ∀ e ∈ s.s1ap_id2_s1ap_ids.entries, e.2.ue_rnti ≠ rnti

theorem Inv.contexts (h : s.Inv) {rrc : Contexts} (hallocated : rrc.Allocated)
    (hrrc : ∀ c ∈ rrc.ues, (∃ c' ∈ s.rrc.ues, c'.rnti = c.rnti ∧ c'.block = c.block) ∨
      s.Unrecorded c.rnti) :
    Inv { s with rrc := rrc } where
  allocated := hallocated
  assigned k ue_ids hk := by
    obtain ⟨hpos, hid, d, hd, hleads⟩ := h.assigned k ue_ids hk
    refine ⟨hpos, hid, d, hd, fun c hc hrnti => ?_⟩
    rcases hrrc c hc with ⟨c', hc', hsame, hblock⟩ | ⟨-, hnone⟩
    · rw [← hblock]
      exact hleads c' hc' (hsame.trans hrnti)
    · exact absurd hrnti.symm (hnone _ (AList.mem_lookup_iff.1 hk))
  initial i ue_ids k d hi hlookup hk hd c hc hrnti := by
    rcases hrrc c hc with ⟨c', hc', hsame, hblock⟩ | ⟨hnone, -⟩
    · rw [← hblock]
      exact h.initial i ue_ids k d hi hlookup hk hd c' hc' (hsame.trans hrnti)
    · exact absurd hrnti.symm (hnone _ (AList.mem_lookup_iff.1 hlookup))

variable {i rnti : Nat} {c : UeContext}

/-- The record that is found for the id of a descriptor leads to its context, and stays where it
leads. -/
theorem Inv.getUeIds (h : s.Inv) (hk : s.s1ap_ue_head.lookup k = some d)
    (hi : i = 0 ∨ i = d.ue_initial_id) :
    (s.getUeIds i k).2.Inv ∧ (s.getUeIds i k).2.rrc = s.rrc ∧
      (s.getUeIds i k).2.s1ap_ue_head = s.s1ap_ue_head ∧
      ∀ ue_ids, (s.getUeIds i k).1 = some ue_ids → s.Leads ue_ids d := by
  have hfound : ∀ ue_ids, s.s1ap_id2_s1ap_ids.lookup k = some ue_ids → s.Leads ue_ids d := by
    intro ue_ids hlookup
    obtain ⟨-, -, d', hd', hleads⟩ := h.assigned k ue_ids hlookup
    rw [hk] at hd'
    cases hd'
    exact hleads
  unfold S1ap.getUeIds
  split
  · refine ⟨h, rfl, rfl, fun ue_ids hsome => ?_⟩
    split at hsome
    · exact hfound ue_ids hsome
    · cases hsome
  · rename_i hne
    have hd : d.ue_initial_id = i := (hi.resolve_left hne).symm
    split
    · exact ⟨h, rfl, rfl, fun ue_ids hsome => by cases hsome⟩
    rename_i result hlookup
    have hleads := h.initial i result k d hne hlookup hk hd
    split
    · rename_i hnew
      refine ⟨⟨h.allocated, fun k' ue_ids hk' => ?_,
        fun i' ue_ids k' d' hi' hlookup' hk' hd' => ?_⟩, rfl, rfl,
        fun ue_ids hsome => by cases hsome; exact hleads⟩
      · by_cases heq : k' = k
        · subst heq
          rw [AList.lookup_insert] at hk'
          cases hk'
          exact ⟨hnew.1, rfl, d, hk, hleads⟩
        · rw [AList.lookup_insert_ne heq] at hk'
          exact h.assigned k' ue_ids hk'
      · by_cases heq : i' = i
        · subst heq
          rw [AList.lookup_insert] at hlookup'
          cases hlookup'
          exact h.initial i' result k' d' hi' hlookup hk' hd'
        · rw [AList.lookup_insert_ne heq] at hlookup'
          exact h.initial i' ue_ids k' d' hi' hlookup' hk' hd'
    · exact ⟨h, rfl, rfl, fun ue_ids hsome => by cases hsome; exact hleads⟩

theorem ueInitialId_cases (d : UeDesc) (m : Message) :
    m.ueInitialId d = 0 ∨ m.ueInitialId d = d.ue_initial_id := by
  cases m with
  | downlinkNas | initialContextSetupReq | eRabSetupReq => exact .inr rfl
  | ueCtxtModificationReq | ueContextReleaseReq | ueContextReleaseCommand => exact .inl rfl

def looked (s : S1ap) (m : Message) (k : Nat) (d : UeDesc) : S1ap :=
  (s.getUeIds (m.ueInitialId d) k).2

theorem applied_eq (s : S1ap) (m : Message) (k : Nat) (d : UeDesc) : s.applied m k d =
    (s.getUeIds (m.ueInitialId d) k).1.bind fun ue_ids =>
      (s.looked m k d).rrc.rrcEnbGetUeContext ue_ids.ue_rnti := rfl

theorem Inv.looked (h : s.Inv) (hk : s.s1ap_ue_head.lookup k = some d) (m : Message) :
    (s.looked m k d).Inv ∧ (s.looked m k d).rrc = s.rrc ∧
    (s.looked m k d).s1ap_ue_head = s.s1ap_ue_head := by
  obtain ⟨hinv, hrrc, hhead, -⟩ := h.getUeIds hk (ueInitialId_cases d m)
  exact ⟨hinv, hrrc, hhead⟩

/-- A message is applied to the context that its id was assigned for, or to none. -/
theorem Inv.applied (h : s.Inv) (hk : s.s1ap_ue_head.lookup k = some d)
    (hc : s.applied m k d = some c) : c ∈ s.rrc.ues ∧ c.block = d.owner := by
  obtain ⟨-, hrrc, -, hleads⟩ := h.getUeIds hk (ueInitialId_cases d m)
  rw [applied_eq, S1ap.looked, hrrc] at hc
  obtain ⟨ue_ids, hids, hfind⟩ := bind_eq_some_iff.1 hc
  obtain ⟨hmem, hrnti⟩ := Tree.find_eq_some.1 hfind
  exact ⟨hmem, hleads ue_ids hids c hmem hrnti⟩

theorem write_rnti (k : Nat) (c : UeContext) (m : Message) :
    (m.write k c).rnti = c.rnti ∧ (m.write k c).block = c.block := by
  cases m with
  | downlinkNas =>
    by_cases hfirst : c.eNB_ue_s1ap_id = 0
    all_goals simp [Message.write, hfirst]
  | initialContextSetupReq => exact ⟨rfl, rfl⟩
  | eRabSetupReq => exact ⟨rfl, rfl⟩
  | ueCtxtModificationReq => exact ⟨rfl, rfl⟩
  | ueContextReleaseReq => exact ⟨rfl, rfl⟩
  | ueContextReleaseCommand => exact ⟨rfl, rfl⟩

theorem process_cases (hp : s.process m k d = some t) :
    (m ≠ .ueContextReleaseCommand ∧ s.applied m k d = none ∧ t = s.looked m k d) ∨
    (m ≠ .ueContextReleaseCommand ∧ ∃ c, s.applied m k d = some c ∧
      t = { s.looked m k d with rrc := (s.looked m k d).rrc.write (m.write k c) }) ∨
    (m = .ueContextReleaseCommand ∧ (((s.looked m k d).getUeIds 0 k).1 = none ∧ t = s.looked m k d ∨
        ∃ ue_ids, ((s.looked m k d).getUeIds 0 k).1 = some ue_ids ∧
        t = (s.looked m k d).removeUeIds ue_ids)) := by
  unfold process at hp
  by_cases hm : m = .ueContextReleaseCommand
  · right; right
    refine ⟨hm, ?_⟩
    rw [if_pos hm] at hp
    split at hp
    · rename_i hnone
      cases hp
      exact .inl ⟨hnone, rfl⟩
    · rename_i ue_ids hsome
      cases hp
      exact .inr ⟨ue_ids, hsome, rfl⟩
  · rw [if_neg hm] at hp
    cases hc : s.applied m k d with
    | none =>
      rw [hc] at hp
      dsimp only at hp
      split at hp
      · cases hp
      · cases hp
        exact .inl ⟨hm, rfl, rfl⟩
    | some c =>
      rw [hc] at hp
      cases hp
      exact .inr (.inl ⟨hm, c, rfl, rfl⟩)

theorem lookup_of_erase {β : Type} {l : AList fun _ : Nat => β} {j : Nat} {b : β}
    (h : (l.erase i).lookup j = some b) : l.lookup j = some b := by
  by_cases heq : j = i
  · subst heq
    rw [AList.lookup_erase] at h
    cases h
  · rwa [AList.lookup_erase_ne heq] at h

theorem Inv.removeUeIds (h : s.Inv) (ue_ids : S1apIds) : (s.removeUeIds ue_ids).Inv where
  allocated := h.allocated
  assigned k r hk := by
    refine h.assigned k r ?_
    unfold S1ap.removeUeIds at hk
    dsimp only at hk
    split at hk
    · exact lookup_of_erase hk
    · exact hk
  initial i r k d hi hlookup hk hd := by
    refine h.initial i r k d hi ?_ hk hd
    unfold S1ap.removeUeIds at hlookup
    split at hlookup
    · exact lookup_of_erase hlookup
    · exact hlookup

theorem Inv.eraseDesc (h : s.Inv) (hnone : s.s1ap_id2_s1ap_ids.lookup k = none) :
    Inv { s with s1ap_ue_head := s.s1ap_ue_head.erase k } where
  allocated := h.allocated
  assigned k' r hk' := by
    obtain ⟨hpos, hid, d, hd, hleads⟩ := h.assigned k' r hk'
    have hne : k' ≠ k := fun heq => by
      rw [heq, hnone] at hk'
      cases hk'
    exact ⟨hpos, hid, d, by rw [AList.lookup_erase_ne hne]; exact hd, hleads⟩
  initial i r k' d hi hlookup hk' hd := h.initial i r k' d hi hlookup (lookup_of_erase hk') hd

theorem Inv.clearInitialId (h : s.Inv) (hk : s.s1ap_ue_head.lookup k = some d) :
    Inv { s with s1ap_ue_head := s.s1ap_ue_head.insert k { d with ue_initial_id := 0 } } where
  allocated := h.allocated
  assigned k' r hk' := by
    obtain ⟨hpos, hid, d', hd', hleads⟩ := h.assigned k' r hk'
    by_cases heq : k' = k
    · subst heq
      rw [hk] at hd'
      cases hd'
      exact ⟨hpos, hid, { d with ue_initial_id := 0 }, AList.lookup_insert _, hleads⟩
    · exact ⟨hpos, hid, d', by rw [AList.lookup_insert_ne heq]; exact hd', hleads⟩
  initial i r k' d' hi hlookup hk' hd := by
    by_cases heq : k' = k
    · subst heq
      rw [AList.lookup_insert] at hk'
      cases hk'
      exact absurd hd.symm hi
    · rw [AList.lookup_insert_ne heq] at hk'
      exact h.initial i r k' d' hi hlookup hk' hd

theorem Inv.release (h : s.Inv) {ue_ids : Option S1apIds} (hids : (s.getUeIds 0 k).1 = ue_ids) :
    (match ue_ids with | none => s | some r => s.removeUeIds r).s1ap_id2_s1ap_ids.lookup k =
      none := by
  have hget : (s.getUeIds 0 k).1 = if 0 < k then s.s1ap_id2_s1ap_ids.lookup k else none := rfl
  have hpos : s.s1ap_id2_s1ap_ids.lookup k ≠ none → 0 < k := fun hne => by
    obtain ⟨r, hr⟩ := ne_none_iff_exists'.1 hne
    exact (h.assigned k r hr).1
  rw [hget] at hids
  subst hids
  by_cases hk : 0 < k
  · rw [if_pos hk]
    cases hlookup : s.s1ap_id2_s1ap_ids.lookup k with
    | none => exact hlookup
    | some r =>
      obtain ⟨-, hid, -⟩ := h.assigned k r hlookup
      show (if 0 < r.eNB_ue_s1ap_id then _ else _ : AList _).lookup k = none
      rw [hid, if_pos hk]
      exact AList.lookup_erase k _
  · rw [if_neg hk]
    exact not_not.1 fun hne => hk (hpos hne)

theorem Inv.updateDesc (h : s.Inv) (hk : s.s1ap_ue_head.lookup k = some d)
    (hrelease : m = .ueContextReleaseCommand → s.s1ap_id2_s1ap_ids.lookup k = none) :
    (s.updateDesc m k d).Inv := by
  cases m with
  | initialContextSetupReq => exact h.clearInitialId hk
  | ueContextReleaseCommand => exact h.eraseDesc (hrelease rfl)
  | downlinkNas | eRabSetupReq | ueCtxtModificationReq | ueContextReleaseReq => exact h

theorem Inv.receive (h : s.Inv) (ht : s.receive m k = some t) : t.Inv := by
  unfold S1ap.receive at ht
  cases hk : s.s1ap_ue_head.lookup k with
  | none =>
    rw [hk] at ht
    cases ht
    exact h
  | some d =>
    rw [hk] at ht
    obtain ⟨u, hu, rfl⟩ := map_eq_some_iff.1 ht
    obtain ⟨hinv, hrrc, hhead⟩ := h.looked hk m
    rcases process_cases hu with ⟨hm, -, rfl⟩ | ⟨hm, c, hc, rfl⟩ | ⟨rfl, hrelease⟩
    · exact hinv.updateDesc (hhead ▸ hk) fun hrelease => absurd hrelease hm
    · have hin := (h.applied hk hc).1
      rw [← hrrc] at hin
      obtain ⟨hrnti, hblock⟩ := write_rnti k c m
      have hwithin := Contexts.write_within hin hrnti hblock
      have hwritten := hinv.contexts (hinv.allocated.write hin hrnti hblock) fun c hc =>
        .inl (hwithin c hc)
      exact hwritten.updateDesc (hhead ▸ hk) fun hrelease => absurd hrelease hm
    · rcases hrelease with ⟨hnone, rfl⟩ | ⟨ue_ids, hsome, rfl⟩
      · exact hinv.updateDesc (hhead ▸ hk) fun _ => hinv.release hnone
      · exact (hinv.removeUeIds ue_ids).updateDesc (hhead ▸ hk) fun _ => hinv.release hsome

/-! ## The first message of a UE -/

theorem Inv.insertInitial (h : s.Inv) (hi : ∀ e ∈ s.s1ap_ue_head.entries, e.2.ue_initial_id ≠ i)
    (ue_ids : S1apIds) :
    Inv { s with initial_id2_s1ap_ids := s.initial_id2_s1ap_ids.insert i ue_ids } where
  allocated := h.allocated
  assigned := h.assigned
  initial i' r k d hi' hlookup hk hd := by
    have hne : i' ≠ i := fun heq => hi _ (AList.mem_lookup_iff.1 hk) (hd.trans heq)
    rw [AList.lookup_insert_ne hne] at hlookup
    exact h.initial i' r k d hi' hlookup hk hd

theorem Inv.insertDesc (h : s.Inv) (hnew : s.s1ap_ue_head.lookup k = none) {ue_ids : S1apIds}
    (hlookup : s.initial_id2_s1ap_ids.lookup d.ue_initial_id = some ue_ids)
    (hleads : s.Leads ue_ids d) : Inv { s with s1ap_ue_head := s.s1ap_ue_head.insert k d } where
  allocated := h.allocated
  assigned k' r hk' := by
    obtain ⟨hpos, hid, d', hd', hleads'⟩ := h.assigned k' r hk'
    have hne : k' ≠ k := fun heq => by
      rw [heq, hnew] at hd'
      cases hd'
    exact ⟨hpos, hid, d', by rw [AList.lookup_insert_ne hne]; exact hd', hleads'⟩
  initial i r k' d' hi hlookup' hk' hd' := by
    by_cases heq : k' = k
    · subst heq
      rw [AList.lookup_insert] at hk'
      cases hk'
      rw [← hd', hlookup] at hlookup'
      cases hlookup'
      exact hleads
    · rw [AList.lookup_insert_ne heq] at hk'
      exact h.initial i r k' d' hi hlookup' hk' hd'

/-- An RNTI without a context has no record either when a request comes for it, and the next initial
id is not the one of a descriptor. -/
def Orderly (s : S1ap) : Event → Prop
  | .contexts (.request rnti _) => s.rrc.rrcEnbGetUeContext rnti = none → s.Unrecorded rnti
  | .nasFirstReq _ _ => ∀ e ∈ s.s1ap_ue_head.entries, e.2.ue_initial_id ≠
    getNextUeInitialId s.ue_initial_id
  | .contexts (.free _) => True
  | .message _ _ => True

instance (s : S1ap) (e : Event) : Decidable (Orderly s e) := by
  unfold Orderly Unrecorded
  split <;> infer_instance

theorem recordFirstReq_within (s : S1ap) (hfind : s.rrc.rrcEnbGetUeContext rnti = some c) :
    (s.recordFirstReq rnti c).rrc.Within s.rrc :=
  Contexts.write_within (Tree.find_eq_some.1 hfind).1 rfl rfl

theorem Inv.recordFirstReq (h : s.Inv) (hfind : s.rrc.rrcEnbGetUeContext rnti = some c)
    (hi : ∀ e ∈ s.s1ap_ue_head.entries, e.2.ue_initial_id ≠ getNextUeInitialId s.ue_initial_id) :
    (s.recordFirstReq rnti c).Inv := by
  have hc := (Tree.find_eq_some.1 hfind).1
  have hallocated : (s.recordFirstReq rnti c).rrc.Allocated := h.allocated.write hc rfl rfl
  have hwritten := h.contexts hallocated fun c' hc' => .inl (s.recordFirstReq_within hfind c' hc')
  have hinserted := hwritten.insertInitial hi ⟨getNextUeInitialId s.ue_initial_id,
    UE_INITIAL_ID_INVALID, rnti⟩
  exact ⟨hinserted.allocated, hinserted.assigned, hinserted.initial⟩

theorem Inv.sendNasFirstReq (h : s.Inv) {drawn : Option Nat}
    (hi : ∀ e ∈ s.s1ap_ue_head.entries, e.2.ue_initial_id ≠ getNextUeInitialId s.ue_initial_id)
    (ht : s.sendNasFirstReq rnti drawn = some t) : t.Inv := by
  unfold S1ap.sendNasFirstReq at ht
  cases hfind : s.rrc.rrcEnbGetUeContext rnti with
  | none =>
    rw [hfind] at ht
    cases ht
    exact h
  | some c =>
    rw [hfind] at ht
    have hrecorded := h.recordFirstReq hfind hi
    cases drawn with
    | none =>
      cases ht
      exact hrecorded
    | some rand =>
      dsimp only at ht
      split at ht
      · rename_i hnew
        cases ht
        refine hrecorded.insertDesc hnew (AList.lookup_insert _) fun c' hc' hrnti' => ?_
        -- the record has the RNTI of the request, which only this context has
        obtain ⟨hc, hrnti⟩ := Tree.find_eq_some.1 hfind
        obtain ⟨c'', hc'', hsame, hblock⟩ := s.recordFirstReq_within hfind c' hc'
        have heq : c'' = c := Tree.eq_of_key_eq hc'' hc (hsame.trans (hrnti'.trans hrnti.symm))
        rw [← hblock, heq]
      · cases ht

/-- Every descriptor still leads to the context it was made for. -/
theorem Inv.step (h : s.Inv) {e : Event} (horderly : Orderly s e)
    (ht : step s e = some t) : t.Inv := by
  cases e with
  | contexts e =>
    obtain ⟨rrc, hrrc, rfl⟩ := map_eq_some_iff.1 ht
    refine h.contexts (h.allocated.step hrrc) fun c hc => ?_
    rcases Contexts.step_within hrrc c hc with hsame | ⟨ue_Identity, rfl, hnone⟩
    · exact .inl hsame
    · exact .inr (horderly hnone)
  | nasFirstReq rnti drawn => exact h.sendNasFirstReq horderly ht
  | message m k => exact h.receive ht

theorem Inv.receive_others (h : s.Inv) (hk : s.s1ap_ue_head.lookup k = some d)
    (ht : s.receive m k = some t) (hc : c.block ≠ d.owner) : c ∈ t.rrc.ues ↔ c ∈ s.rrc.ues := by
  unfold S1ap.receive at ht
  rw [hk] at ht
  obtain ⟨u, hu, rfl⟩ := map_eq_some_iff.1 ht
  have hdesc : (u.updateDesc m k d).rrc = u.rrc := by cases m <;> rfl
  obtain ⟨-, hrrc, -⟩ := h.looked hk m
  rw [hdesc]
  rcases process_cases hu with ⟨-, -, rfl⟩ | ⟨-, c', hc', rfl⟩ | ⟨rfl, ⟨-, heq⟩ | ⟨ue_ids, -, rfl⟩⟩
  · rw [hrrc]
  · obtain ⟨hin, howner⟩ := h.applied hk hc'
    obtain ⟨hrnti, hblock⟩ := write_rnti k c' m
    obtain ⟨others, hold, hnew⟩ := Contexts.ues_write hin hrnti
    rw [hrrc, hnew.mem_iff, hold.mem_iff, mem_cons, mem_cons]
    have hne : c ≠ c' := fun heq => hc (heq ▸ howner)
    have hne' : c ≠ m.write k c' := fun heq => hc (heq ▸ hblock.trans howner)
    simp only [hne, hne', false_or]
  · rw [heq, hrrc]
  · show c ∈ (s.looked .ueContextReleaseCommand k d).rrc.ues ↔ _
    rw [hrrc]

/-- The only message that is not handled is a downlink NAS message for no context. -/
theorem receive_isSome (hk : s.s1ap_ue_head.lookup k = some d)
    (hnas : m = .downlinkNas → s.applied m k d ≠ none) : ∃ t, s.receive m k = some t := by
  have hprocess : ∃ t, s.process m k d = some t := by
    unfold process
    dsimp only
    split
    · split
      all_goals exact ⟨_, rfl⟩
    · split
      · rename_i hnone
        rw [if_neg fun hm => hnas hm hnone]
        exact ⟨_, rfl⟩
      · exact ⟨_, rfl⟩
  obtain ⟨t, ht⟩ := hprocess
  exact ⟨t.updateDesc m k d, by rw [S1ap.receive, hk]; simp only [ht, map_some]⟩

/-- After an orderly run a message of the MME changes the context of the UE it is for, or none if
the context is gone, and leaves every other one as it is. -/
theorem every_message_reaches_its_ue {es : List Event} {t : S1ap} (h : Meets step Orderly {} es)
    (ht : run step {} es = some t) :
    (t.rrc.ues.map UeContext.block).Nodup ∧
    ∀ k d, t.s1ap_ue_head.lookup k = some d →
      ∀ m, (∀ c, t.applied m k d = some c → c ∈ t.rrc.ues ∧ c.block = d.owner) ∧
      ((∀ c ∈ t.rrc.ues, c.block ≠ d.owner) → t.applied m k d = none) ∧
      ((m = .downlinkNas → t.applied m k d ≠ none) →
        ∃ t', step t (.message m k) = some t' ∧
          ∀ c : UeContext, c.block ≠ d.owner → (c ∈ t'.rrc.ues ↔ c ∈ t.rrc.ues)) := by
  have hinv : t.Inv := run_invariant (fun s e t hs hC ht => Inv.step hs hC ht) inv_init h ht
  refine ⟨hinv.allocated.nodup, fun k d hk m =>
    ⟨fun c hc => hinv.applied hk hc, fun hgone => ?_, fun hnas => ?_⟩⟩
  · refine eq_none_iff_forall_ne_some.2 fun c hc => ?_
    obtain ⟨hin, howner⟩ := hinv.applied hk hc
    exact hgone c hin howner
  · obtain ⟨t', ht'⟩ := receive_isSome hk hnas
    exact ⟨t', ht', fun c hc => hinv.receive_others hk ht' hc⟩

def threeUes : List Event :=
  [.contexts (.request 1 (.randomValue 5)), .contexts (.request 2 (.randomValue 6)),
    .nasFirstReq 1 (some 100), .nasFirstReq 2 (some 200),
    .message .downlinkNas 100, .message .initialContextSetupReq 100, .message .downlinkNas 200,
    .contexts (.free 1), .message .ueContextReleaseCommand 100,
    .contexts (.request 1 (.randomValue 7)), .nasFirstReq 1 (some 300)]

theorem threeUes_reached : ∃ t, run step {} threeUes = some t ∧
    (∃ d, t.s1ap_ue_head.lookup 200 = some d ∧ d.owner = 1 ∧
        ∀ c, t.applied .eRabSetupReq 200 d = some c → c ∈ t.rrc.ues ∧ c.block = 1) ∧
      ∃ d c, t.s1ap_ue_head.lookup 300 = some d ∧ d.owner = 2 ∧
      t.applied .downlinkNas 300 d = some c ∧ c.block = 2 := by
  obtain ⟨t, ht, hsecond, hthird, hsome⟩ : ∃ t, run step {} threeUes = some t ∧
      t.s1ap_ue_head.lookup 200 = some ⟨2, 1⟩ ∧ t.s1ap_ue_head.lookup 300 = some ⟨3, 2⟩ ∧
      (t.applied .downlinkNas 300 ⟨3, 2⟩).isSome := run_decided (by decide +kernel)
  obtain ⟨c, hc⟩ := isSome_iff_exists.1 hsome
  have hreach := (every_message_reaches_its_ue (by decide +kernel) ht).2
  exact ⟨t, ht, ⟨_, hsecond, rfl, (hreach 200 _ hsecond .eRabSetupReq).1⟩,
    _, c, hthird, rfl, hc, ((hreach 300 _ hthird .downlinkNas).1 c hc).2⟩

/-- A UE that is removed, after which its RNTI is given to another one. -/
def rntiGivenAgain : List Event :=
  [.contexts (.request 1 (.randomValue 5)), .nasFirstReq 1 (some 100), .message .downlinkNas 100,
    .contexts (.free 1), .contexts (.request 1 (.randomValue 6))]

/-- A downlink message for a UE that was removed. -/
def messageAfterRemoval : List Event :=
  [.contexts (.request 1 (.randomValue 5)), .nasFirstReq 1 (some 100), .contexts (.free 1),
    .message .downlinkNas 100]

/-- A UE that comes back under another RNTI, after which its first one is given to another UE. -/
def ueComesBack : List Event :=
  [.contexts (.request 1 (.sTmsi ⟨1, 9⟩)), .nasFirstReq 1 (some 100), .message .downlinkNas 100,
    .contexts (.request 2 (.sTmsi ⟨1, 9⟩)), .contexts (.request 1 (.randomValue 6))]

/-- A UE is removed and its RNTI is given to another one, which then gets the messages for the first
one; while nobody has the RNTI, a downlink NAS message reads a context that is not there. The same
happens to a UE that comes back under another RNTI, although it has its context still. -/
theorem messages_for_another_ue :
    (∃ t d c, run step {} rntiGivenAgain = some t ∧ t.s1ap_ue_head.lookup 100 = some d ∧
      (∀ c ∈ t.rrc.ues, c.block ≠ d.owner) ∧ t.applied .initialContextSetupReq 100 d = some c) ∧
    run step {} messageAfterRemoval = none ∧
    ∃ t d c, run step {} ueComesBack = some t ∧ t.s1ap_ue_head.lookup 100 = some d ∧
      t.applied .ueContextReleaseCommand 100 d = some c ∧ c.block ≠ d.owner ∧
      ∃ c ∈ t.rrc.ues, c.block = d.owner := by
  have hcrash : (run step {} messageAfterRemoval).isNone := by decide +kernel
  obtain ⟨t, ht, hdesc, hgone, hsome⟩ : ∃ t, run step {} rntiGivenAgain = some t ∧
      t.s1ap_ue_head.lookup 100 = some ⟨1, 0⟩ ∧ (∀ c ∈ t.rrc.ues, c.block ≠ 0) ∧
      (t.applied .initialContextSetupReq 100 ⟨1, 0⟩).isSome := run_decided (by decide +kernel)
  obtain ⟨c, hc⟩ := isSome_iff_exists.1 hsome
  obtain ⟨u, hu, hudesc, huapplied, hustill⟩ : ∃ t, run step {} ueComesBack = some t ∧
      t.s1ap_ue_head.lookup 100 = some ⟨1, 0⟩ ∧
      (t.applied .ueContextReleaseCommand 100 ⟨1, 0⟩).map UeContext.block = some 1 ∧
      ∃ c ∈ t.rrc.ues, c.block = 0 := run_decided (by decide +kernel)
  obtain ⟨c', hc', hblock⟩ := map_eq_some_iff.1 huapplied
  exact ⟨⟨t, _, c, ht, hdesc, hgone, hc⟩, isNone_iff_eq_none.1 hcrash,
    u, _, c', hu, hudesc, hc', by rw [hblock]; decide, hustill⟩

end S1ap

end MacRlcSplit.Rrc
