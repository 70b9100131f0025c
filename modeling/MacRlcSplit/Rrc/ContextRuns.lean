-- Runs of connection requests and removals: local uids are handed out once,
-- and requests are admitted as long as no two UEs come with an S-TMSI.
import MacRlcSplit.Rrc.Contexts

namespace MacRlcSplit.Rrc.Contexts

open Lib List

/-! ## Local uids -/

def capacity : Nat := UID_LINEAR_ALLOCATOR_BITMAP_SIZE * 32

/-- The uids of the contexts are distinct, and the bitmap has them. -/
structure Inv (s : Contexts) : Prop where
  nodup : (s.ues.map UeContext.local_uid).Nodup
  bits : ∀ uid, Bitmap.bit s.bitmap uid = true ↔ uid ∈ s.ues.map UeContext.local_uid
  bound : ∀ c ∈ s.ues, c.local_uid < capacity

variable {s s' : Contexts} {rnti : Nat}

theorem inv_init : ({} : Contexts).Inv where
  nodup := nodup_nil
  bits uid := by simp [Bitmap.bit, ues]
  bound c h := by cases h

theorem Inv.congr (h : s.Inv)
    (hues : (s'.ues.map UeContext.local_uid).Perm (s.ues.map UeContext.local_uid))
    (hbitmap : s'.bitmap = s.bitmap) : s'.Inv where
  nodup := hues.nodup_iff.2 h.nodup
  bits uid := by rw [hbitmap, h.bits, hues.mem_iff]
  bound c hc := by
    have hmem := hues.mem_iff.1 (mem_map_of_mem hc)
    obtain ⟨d, hd, heq⟩ := mem_map.1 hmem
    rw [← heq]
    exact h.bound d hd

theorem Inv.uid_new (h : s.Inv) (hroom : s.ues.length < capacity) :
    s.uidLinearAllocatorNew.1 < capacity ∧ s.uidLinearAllocatorNew.1 ∉
      s.ues.map UeContext.local_uid ∧ ∀ uid, Bitmap.bit s.uidLinearAllocatorNew.2.bitmap uid ↔
        uid = s.uidLinearAllocatorNew.1 ∨ uid ∈ s.ues.map UeContext.local_uid := by
  obtain ⟨u, words, hnew⟩ :=
    Bitmap.new_isSome (fun uid _ => (h.bits uid).1) (by simpa [capacity] using hroom)
  obtain ⟨hlt, hfree, hbits⟩ := Bitmap.new_some hnew
  have heq : s.uidLinearAllocatorNew = (u, { s with bitmap := words }) := by
    rw [uidLinearAllocatorNew, hnew]
    rfl
  rw [heq]
  refine ⟨hlt, fun hmem => ?_, fun uid => ?_⟩
  · rw [← h.bits, hfree] at hmem
    cases hmem
  · rw [hbits, Bool.or_eq_true, h.bits, decide_eq_true_eq, or_comm]

theorem Inv.add (h : s.Inv) (hroom : s.ues.length < capacity) {c : UeContext}
    (hrnti : s.rrcEnbGetUeContext c.rnti = none) (huid : c.local_uid = s.uidLinearAllocatorNew.1) :
    (s.addContext c).countUe.Inv := by
  obtain ⟨hlt, hfresh, hbits⟩ := h.uid_new hroom
  have hues : (s.addContext c).countUe.ues.Perm (c :: s.ues) := ues_add hrnti
  have huids := hues.map UeContext.local_uid
  rw [map_cons, huid] at huids
  refine ⟨huids.nodup_iff.2 (nodup_cons.2 ⟨hfresh, h.nodup⟩), fun uid => ?_, fun d hd => ?_⟩
  · rw [huids.mem_iff, mem_cons]
    exact hbits uid
  · rcases mem_cons.1 (hues.mem_iff.1 hd) with rfl | hd
    · rw [huid]
      exact hlt
    · exact h.bound d hd

theorem Inv.rekey (h : s.Inv) {c : UeContext} (hc : c ∈ s.ues)
    (hrnti : s.rrcEnbGetUeContext rnti = none) : (s.rekey c rnti).Inv := by
  obtain ⟨others, hold, hnew⟩ := ues_rekey hc hrnti
  exact h.congr ((hnew.map UeContext.local_uid).trans (hold.map UeContext.local_uid).symm) rfl

theorem Inv.free (h : s.Inv) (rnti : Nat) : (s.rrcEnbFreeUe rnti).Inv := by
  cases hfind : s.rrcEnbGetUeContext rnti with
  | none =>
    rw [rrcEnbFreeUe, hfind]
    exact h
  | some c =>
    have hues := ues_free hfind
    have huids := hues.map UeContext.local_uid
    rw [map_cons] at huids
    obtain ⟨hfresh, hnodup⟩ := nodup_cons.1 (huids.nodup_iff.1 h.nodup)
    have hlt := h.bound c (Tree.find_eq_some.1 hfind).1
    refine ⟨hnodup, fun uid => ?_, fun d hd => h.bound d (hues.mem_iff.2 (mem_cons_of_mem c hd))⟩
    have hbit : Bitmap.bit (s.rrcEnbFreeUe rnti).bitmap uid =
        (Bitmap.bit s.bitmap uid && decide (uid ≠ c.local_uid)) := by
      rw [rrcEnbFreeUe, hfind]
      exact Bitmap.bit_free s.bitmap hlt uid
    rw [hbit, Bool.and_eq_true, h.bits, huids.mem_iff, mem_cons, decide_eq_true_eq]
    constructor
    · rintro ⟨heq | hmem, hne⟩
      · exact absurd heq hne
      · exact hmem
    · intro hmem
      exact ⟨.inr hmem, fun heq => hfresh (heq ▸ hmem)⟩

/-! ## Runs -/

inductive Event where
  | request (rnti : Nat) (ue_Identity : UeIdentity)
  | free (rnti : Nat)
deriving DecidableEq, Repr

def step (s : Contexts) : Event → Option Contexts
  | .request rnti ue_Identity => some (s.rrcConnectionRequest rnti ue_Identity).2
  | .free rnti => some (s.rrcEnbFreeUe rnti)

/-- There is a uid left for a new context. -/
def Roomy (s : Contexts) : Event → Prop
  | .request _ _ => s.ues.length < capacity
  | .free _ => True

instance (s : Contexts) (e : Event) : Decidable (Roomy s e) := by
  cases e <;> unfold Roomy <;> infer_instance

/-- With room for a number, the numbers stay different. -/
theorem Inv.step (h : s.Inv) (e : Event) (hroom : Roomy s e) : ∃ t, step s e = some t ∧ t.Inv := by
  cases e with
  | free rnti => exact ⟨_, rfl, h.free rnti⟩
  | request rnti ue_Identity =>
    refine ⟨_, rfl, ?_⟩
    rcases s.request_cases rnti ue_Identity with heq | ⟨hrnti, c, rfl, huid, -, heq⟩ | ⟨hrnti, -, -,
      c, hc, -, heq⟩
    · rw [heq]
      exact h
    · rw [heq]
      exact h.add hroom hrnti huid
    · rw [heq]
      exact h.rekey hc hrnti

/-- Without removals the contexts are counted, in eight bits. -/
theorem count_step (h : s.Nb_ue = s.ues.length % 2 ^ 8) {e : Event}
    (hrequest : ∀ rnti, e ≠ .free rnti) {t : Contexts}
    (ht : step s e = some t) : t.Nb_ue = t.ues.length % 2 ^ 8 := by
  cases e with
  | free rnti => exact absurd rfl (hrequest rnti)
  | request rnti ue_Identity =>
    cases ht
    rcases s.request_cases rnti ue_Identity with heq | ⟨hrnti, c, rfl, -, -, heq⟩ | ⟨hrnti, -, -, c,
      hc, -, heq⟩
    · rw [heq]
      exact h
    · have hlen : (s.addContext c).ues.length = s.ues.length + 1 := (ues_add hrnti).length_eq
      rw [heq]
      show (s.Nb_ue + 1) % 2 ^ 8 = (s.addContext c).ues.length % 2 ^ 8
      rw [hlen, h, Nat.mod_add_mod]
    · obtain ⟨others, hold, hnew⟩ := ues_rekey hc hrnti
      rw [heq, hnew.length_eq]
      exact h.trans (by rw [hold.length_eq]; rfl)

theorem step_total (s : Contexts) (e : Event) : ∃ t, step s e = some t := by
  cases e with
  | request | free => exact ⟨_, rfl⟩

/-- After any run two contexts have different RNTIs, and, if there was room at every request,
different local numbers. A request that no context stands against gets one of its own. -/
theorem contexts_are_kept_apart (es : List Event) :
    ∃ t, run step {} es = some t ∧
      (∀ c ∈ t.ues, ∀ d ∈ t.ues, c.rnti = d.rnti → c = d) ∧
      (Meets step Roomy {} es → (t.ues.map UeContext.local_uid).Nodup) ∧
      (∀ rnti ue_Identity, ue_Identity ≠ .other → (∀ c ∈ t.ues, c.rnti ≠ rnti) →
        (∀ c ∈ t.ues, ¬ Holds c ue_Identity) →
        (∀ s_tmsi, ue_Identity = .sTmsi s_tmsi →
          ∀ c ∈ t.ues, c.random_ue_identity ≠ NOT_A_RANDOM_UE_IDENTITY) →
        ∃ c t', t.rrcConnectionRequest rnti ue_Identity = (.accepted, t') ∧ c.rnti = rnti ∧
          Holds c ue_Identity ∧ t'.ues.Perm (c :: t.ues)) ∧
      ((∀ e ∈ es, ∀ rnti, e ≠ .free rnti) → t.ues.length < 2 ^ 8 → t.Nb_ue = t.ues.length) := by
  obtain ⟨t, ht⟩ := run_total step_total {} es
  refine ⟨t, ht, fun c hc d hd heq => Tree.eq_of_key_eq hc hd heq, fun hroom => ?_, ?_,
    fun hall hlt => ?_⟩
  · obtain ⟨u, hu, hinv⟩ := run_survives (fun s e hs he => Inv.step hs e he) inv_init hroom
    rw [ht] at hu
    cases hu
    exact hinv.nodup
  · intro rnti ue_Identity hknown hrnti hid hfirst
    have hfind : t.rrcEnbGetUeContext rnti = none := Tree.find_eq_none.2 hrnti
    obtain ⟨c, rfl, hholds, heq⟩ := request_accepted hfind hid hknown hfirst
    exact ⟨c, _, heq, rfl, hholds, ues_add hfind⟩
  · have hcount := run_invariant
      (fun s e t hs hC ht => count_step hs hC ht) rfl (meets_of_forall hall {}) ht
    rw [hcount, Nat.mod_eq_of_lt hlt]

/-- Two UEs with random values, one with an S-TMSI that comes back on another RNTI, and a
removal. -/
def fourRequests : List Event :=
  [.request 1 (.randomValue 5), .request 2 (.randomValue 6), .request 3 (.sTmsi ⟨1, 9⟩),
    .request 4 (.sTmsi ⟨1, 9⟩), .free 2]

/-- The UEs that are left have different uids, and a UE with the random value 6 is let in again. -/
theorem fourRequests_apart :
    ∃ t, run step {} fourRequests = some t ∧ t.ues.map (fun c => (c.rnti, c.local_uid)) =
      [(1, 0), (4, 2)] ∧ (t.ues.map UeContext.local_uid).Nodup ∧
      ∃ c t', t.rrcConnectionRequest 2 (.randomValue 6) = (.accepted, t') ∧ c.rnti = 2 ∧
      t'.ues.Perm (c :: t.ues) := by
  obtain ⟨t, ht, hues, hnew⟩ : ∃ t, run step {} fourRequests = some t ∧
      t.ues.map (fun c => (c.rnti, c.local_uid)) = [(1, 0), (4, 2)] ∧
      ∀ c ∈ t.ues, c.rnti ≠ 2 ∧ c.random_ue_identity ≠ randomValue 6 :=
        run_decided (by decide +kernel)
  obtain ⟨u, hu, -, huids, hcreates, -⟩ := contexts_are_kept_apart fourRequests
  rw [ht] at hu
  cases hu
  obtain ⟨c, t', heq, hc, -, hperm⟩ :=
    hcreates 2 (.randomValue 6) (by decide) (fun c hc => (hnew c hc).1)
    (fun c hc => (hnew c hc).2) (fun s_tmsi h => by cases h)
  exact ⟨t, ht, hues, huids (by decide +kernel), c, t', heq, hc, hperm⟩

def oneRemoved : List Event := [.request 1 (.randomValue 5), .free 1]

/-- Two UEs more than there are uids, most of which are removed. -/
def manyRequests : List Event :=
  (List.range 34).map (fun i => .request (i + 1) (.randomValue i)) ++ (List.range 30).map fun i =>
    .free (i + 1)

/-- A second UE that comes with an S-TMSI is dropped, since all of them have one random identity. A
removal does not count the UE out. With more UEs than uids two of them get the uid `UINT_MAX`, and
keep it when others are gone. -/
theorem contexts_not_kept_apart :
    (∃ t, run step {} [.request 1 (.sTmsi ⟨1, 9⟩)] = some t ∧ (∀ c ∈ t.ues, c.rnti ≠ 2) ∧
      (∀ c ∈ t.ues, c.Initialue_identity_s_TMSI ≠ some ⟨1, 10⟩) ∧
      (t.rrcConnectionRequest 2 (.sTmsi ⟨1, 10⟩)).1 = .dropped ∧
      (t.rrcConnectionRequest 2 (.sTmsi ⟨1, 10⟩)).2.ues = t.ues) ∧
    (∃ t, run step {} oneRemoved = some t ∧ t.ues = [] ∧ t.Nb_ue = 1) ∧
      (∃ t, run step {} manyRequests = some t ∧ t.ues.length < capacity ∧
      ¬ (t.ues.map UeContext.local_uid).Nodup) := by
  exact ⟨run_decided (by decide +kernel), run_decided (by decide +kernel),
    run_decided (by decide +kernel)⟩

end MacRlcSplit.Rrc.Contexts
