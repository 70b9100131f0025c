-- Runs of requests to create and delete tunnels: when the table of TEIDs and
-- the bearers of the UEs lead to each other.
import MacRlcSplit.Gtp.Tunnels

namespace MacRlcSplit.Gtp

open Lib Function List Option

/-! ## Tunnels -/

theorem bearerIndex_inj {e e' i : Nat} (h : bearerIndex e = some i)
    (h' : bearerIndex e' = some i) : e = e' := by
  unfold bearerIndex at h h'
  split at h <;> split at h' <;> simp_all
  omega

namespace GtpData

def teid (s : GtpData) (d : TeidData) : Option Nat :=
  (s.ue_mapping d.ue_id).bind fun ue => (bearerIndex d.eps_bearer_id).bind fun i =>
    if (ue.bearers i).state = .down then none else some (ue.bearers i).teid_eNB

variable {s s' : GtpData} {rnti : Nat} {ue : UeData} {b : Bearer} {ebi i : Nat}

theorem teid_eq (hue : s.ue_mapping rnti = some ue) (hi : bearerIndex ebi = some i) :
    s.teid ⟨rnti, ebi⟩ = if (ue.bearers i).state =
      .down then none else some (ue.bearers i).teid_eNB := by
  simp [teid, hue, hi]

theorem teid_eq_some {d : TeidData} {t : Nat} : s.teid d = some t ↔
    ∃ ue i, s.ue_mapping d.ue_id = some ue ∧ bearerIndex d.eps_bearer_id = some i ∧
      (ue.bearers i).state ≠ .down ∧ (ue.bearers i).teid_eNB = t := by
  simp only [teid, bind_eq_some_iff]
  constructor
  · rintro ⟨ue, hue, i, hi, h⟩
    split at h
    · cases h
    · rename_i hup
      exact ⟨ue, i, hue, hi, hup, some.inj h⟩
  · rintro ⟨ue, i, hue, hi, hup, ht⟩
    exact ⟨ue, hue, i, hi, by rw [if_neg hup, ht]⟩

theorem teid_write (hi : bearerIndex ebi = some i)
    (hold : ∀ j ≠ i, (ue.bearers j) = ((s.ue_mapping rnti).getD {}).bearers j)
    (hset : s'.ue_mapping = update s.ue_mapping rnti (some ue)) :
    s'.teid = update s.teid ⟨rnti, ebi⟩
      (if (ue.bearers i).state = .down then none else some (ue.bearers i).teid_eNB) := by
  funext ⟨rnti', ebi'⟩
  by_cases heq : (⟨rnti', ebi'⟩ : TeidData) = ⟨rnti, ebi⟩
  · cases heq
    rw [update_self, teid_eq (by rw [hset, update_self]) hi]
  rw [update_of_ne heq]
  by_cases hr : rnti' = rnti
  · subst hr
    simp only [teid, hset, update_self, bind_some]
    cases hi' : bearerIndex ebi' with
    | none => cases s.ue_mapping rnti' <;> rfl
    | some j =>
      have hne : j ≠ i := by
        rintro rfl
        exact heq (by rw [bearerIndex_inj hi' hi])
      simp only [bind_some, hold j hne]
      cases s.ue_mapping rnti' <;> rfl
  · simp only [teid, hset, update_of_ne hr]

/-- What every step keeps: the two tables are inverse, a bearer that is down has no TEID, and the
counter of bearers never gets to zero from above. -/
structure Inv (s : GtpData) : Prop where
  inverse : Inverse s.teid_mapping s.teid
  zero : s.teid_mapping 0 = none
  down : ∀ rnti, ∀ ue ∈ s.ue_mapping rnti, ∀ i, (ue.bearers i).state = .down →
    (ue.bearers i).teid_eNB = 0
  count : ∀ rnti, ∀ ue ∈ s.ue_mapping rnti, ue.num_bearers ≤ 0

/-- The UE has a tunnel if it is in the table. -/
def Carried (s : GtpData) (rnti : Nat) : Prop :=
  (s.ue_mapping rnti).isSome = true → ∃ ebi, (s.teid ⟨rnti, ebi⟩).isSome = true

/-- A UE is written in one bearer, which is down only without a TEID, and in its counter. -/
theorem Inv.down_write (h : s.Inv) (hset : s'.ue_mapping = update s.ue_mapping rnti (some ue))
    (hbearers : ue.bearers = update ((s.ue_mapping rnti).getD {}).bearers i b)
    (hb : b.state = .down → b.teid_eNB = 0) :
    ∀ rnti', ∀ ue' ∈ s'.ue_mapping rnti', ∀ j, (ue'.bearers j).state = .down →
    (ue'.bearers j).teid_eNB = 0 := by
  intro rnti' ue' hue' j hj
  by_cases hr : rnti' = rnti
  · subst hr
    rw [hset, update_self] at hue'
    cases hue'
    rw [hbearers] at hj ⊢
    by_cases hji : j = i
    · subst hji
      rw [update_self] at hj ⊢
      exact hb hj
    · rw [update_of_ne hji] at hj ⊢
      cases hold : s.ue_mapping rnti' with
      | none => rfl
      | some old =>
        rw [hold] at hj
        exact h.down rnti' old hold j hj
  · rw [hset, update_of_ne hr] at hue'
    exact h.down rnti' ue' hue' j hj

theorem Inv.count_write (h : s.Inv) (hset : s'.ue_mapping = update s.ue_mapping rnti (some ue))
    (hle : ue.num_bearers ≤ 0) : ∀ rnti', ∀ ue' ∈ s'.ue_mapping rnti', ue'.num_bearers ≤ 0 := by
  intro rnti' ue' hue'
  by_cases hr : rnti' = rnti
  · subst hr
    rw [hset, update_self] at hue'
    cases hue'
    exact hle
  · rw [hset, update_of_ne hr] at hue'
    exact h.count rnti' ue' hue'

theorem Inv.count_getD (h : s.Inv) (rnti : Nat) :
    ((s.ue_mapping rnti).getD {}).num_bearers ≤ 0 := by
  cases hue : s.ue_mapping rnti with
  | none => exact Int.le_refl 0
  | some ue => exact h.count rnti ue hue

end GtpData

/-! ## Creation -/

def TunnelReq.WellFormed (tunnel : TunnelReq) : Prop :=
  5 ≤ tunnel.eps_bearer_id ∧ tunnel.eps_bearer_id ≤ 15 ∧ tunnel.sgw_addr.length / 8 ∈ [4, 16, 20]

instance (tunnel : TunnelReq) : Decidable tunnel.WellFormed :=
  inferInstanceAs (Decidable (_ ∧ _ ∧ _))

/-- The stack grants a TEID that is not in the table, and the bearer has no tunnel yet. -/
def Free (rnti : Nat) (x : GtpData × CreateTunnelResp) (tunnel : TunnelReq) : Prop :=
  tunnel.s1u_teid ≠ 0 ∧ x.1.teid_mapping tunnel.s1u_teid = none ∧
  x.1.teid ⟨rnti, tunnel.eps_bearer_id⟩ = none

instance (rnti : Nat) (x : GtpData × CreateTunnelResp)
    (tunnel : TunnelReq) : Decidable (Free rnti x tunnel) :=
  inferInstanceAs (Decidable (_ ∧ _ ∧ _))

/-- The counter of the UE can still be lowered. -/
def Counts (rnti : Nat) (x : GtpData × Nat) (_ : Nat × Bool) : Prop :=
  ∀ ue ∈ x.1.ue_mapping rnti, -2 ^ 31 < ue.num_bearers

instance (rnti : Nat) (x : GtpData × Nat) (erab : Nat × Bool) : Decidable (Counts rnti x erab) :=
  inferInstanceAs (Decidable (∀ ue ∈ _, _))

theorem bearerIndex_of_range {ebi : Nat} (h : 5 ≤ ebi)
    (h' : ebi ≤ 15) : bearerIndex ebi = some (ebi - 3) :=
  if_pos ⟨le_trans (by decide) h, lt_of_le_of_lt h' (by decide)⟩

theorem Bearer.configure_survives (b : Bearer) {tunnel : TunnelReq}
    (h : tunnel.sgw_addr.length / 8 ∈ [4, 16, 20]) :
    ∃ b', b.configure tunnel = some b' ∧ b'.state = .inConfig ∧ b'.teid_eNB = tunnel.s1u_teid ∧
      b'.teid_sgw = tunnel.sgw_S1u_teid := by
  have haddr : ∃ b', b.setAddr tunnel.sgw_addr = some b' := by
    simp only [mem_cons, not_mem_nil, or_false] at h
    unfold Bearer.setAddr
    rcases h with h | h | h
    all_goals
      rw [h]
      exact ⟨_, rfl⟩
  obtain ⟨b', hb'⟩ := haddr
  rw [Bearer.configure, hb']
  exact ⟨_, rfl, rfl, rfl, rfl⟩

namespace GtpData

variable {s : GtpData} {rnti : Nat}

theorem createTurn_new (rnti : Nat) (resp : CreateTunnelResp) {tunnel : TunnelReq}
    (hwf : tunnel.WellFormed) (hnew : s.teid_mapping tunnel.s1u_teid = none) :
    ∃ b, b.state = .inConfig ∧ b.teid_eNB = tunnel.s1u_teid ∧ b.teid_sgw = tunnel.sgw_S1u_teid ∧
      createTurn rnti (s, resp) tunnel =
        some ((s.setBearer rnti (tunnel.eps_bearer_id - 3) b).setTeid tunnel.s1u_teid ⟨rnti,
          tunnel.eps_bearer_id⟩, { resp with
            enb_addr := s.enb_ip_address_for_S1u_S12_S4_up
            tunnels := resp.tunnels ++ [(tunnel.s1u_teid, tunnel.eps_bearer_id)] }) := by
  obtain ⟨b, hb, hstate, hteid, hsgw⟩ :=
    (((s.ue_mapping rnti).getD {}).bearers (tunnel.eps_bearer_id - 3)).configure_survives hwf.2.2
  have hnone : (s.setBearer rnti (tunnel.eps_bearer_id - 3) b).teid_mapping tunnel.s1u_teid =
      none := hnew
  refine ⟨b, hstate, hteid, hsgw, ?_⟩
  simp only [createTurn, bearerIndex_of_range hwf.1 hwf.2.1, bind_some, hb, map_some, hnone]
  rfl

theorem ue_mapping_setBearer (s : GtpData) (rnti i : Nat) (b : Bearer) :
    (s.setBearer rnti i b).ue_mapping = update s.ue_mapping rnti (some
      { (s.ue_mapping rnti).getD {} with
        ue_id := rnti, bearers := update ((s.ue_mapping rnti).getD {}).bearers i b }) := rfl

theorem teid_setBearer (s : GtpData) (rnti : Nat) {ebi i : Nat} (hi : bearerIndex ebi = some i)
    {b : Bearer} (hb : b.state ≠ .down) (t : Nat) (d : TeidData) :
    ((s.setBearer rnti i b).setTeid t d).teid = update s.teid ⟨rnti, ebi⟩ (some b.teid_eNB) := by
  have hset : ((s.setBearer rnti i b).setTeid t d).ue_mapping = _ := s.ue_mapping_setBearer rnti i b
  rw [teid_write hi (fun j hj => update_of_ne hj _ _) hset]
  simp [hb]

theorem Inv.createTurn (h : s.Inv) (resp : CreateTunnelResp) {tunnel : TunnelReq}
    (hwf : tunnel.WellFormed) (hfree : Free rnti (s, resp) tunnel) :
    ∃ y, createTurn rnti (s, resp) tunnel = some y ∧ y.1.Inv ∧
      y.1.teid = update s.teid ⟨rnti, tunnel.eps_bearer_id⟩ (some tunnel.s1u_teid) ∧
      ∀ rnti' ≠ rnti, y.1.ue_mapping rnti' = s.ue_mapping rnti' := by
  obtain ⟨b, hstate, hteid, -, hturn⟩ := createTurn_new rnti resp hwf hfree.2.1
  have hup : b.state ≠ .down := by
    rw [hstate]
    decide
  have htable := s.teid_setBearer rnti (bearerIndex_of_range hwf.1 hwf.2.1) hup tunnel.s1u_teid
    ⟨rnti, tunnel.eps_bearer_id⟩
  rw [hteid] at htable
  refine ⟨_, hturn, ⟨?_, ?_, ?_, ?_⟩, htable, fun rnti' hne => update_of_ne hne _ _⟩
  · rw [htable]
    exact h.inverse.insert hfree.2.1 hfree.2.2
  · exact (update_of_ne (Ne.symm hfree.1) _ _).trans h.zero
  · exact h.down_write (s.ue_mapping_setBearer rnti _ b) rfl fun hdown => absurd hdown hup
  · exact h.count_write (s.ue_mapping_setBearer rnti _ b) (h.count_getD rnti)

/-! ## Deletion -/

theorem num_bearers_uncount {ue : UeData} (hlow : -2 ^ 31 < ue.num_bearers)
    (hhigh : ue.num_bearers ≤ 0) :
    ue.uncount.num_bearers = ue.num_bearers - 1 := Int.bmod_eq_of_le (by omega) (by omega)

theorem Inv.deleteTurn (h : s.Inv) (status : Nat) {erab : Nat × Bool}
    (hin : (s.ue_mapping rnti).isSome) (hlow : 5 ≤ erab.1) (hhigh : erab.1 ≤ 15)
    (hcounts : Counts rnti (s, status) erab) :
    ∃ y, deleteTurn rnti (s, status) erab = some y ∧ y.1.Inv ∧ (y.1.ue_mapping rnti).isSome ∧
      y.1.teid = update s.teid ⟨rnti, erab.1⟩ none ∧ ∀ rnti' ≠ rnti,
      y.1.ue_mapping rnti' = s.ue_mapping rnti' := by
  obtain ⟨ue, hue⟩ := isSome_iff_exists.1 hin
  have hi := bearerIndex_of_range hlow hhigh
  have hcount := h.count rnti ue hue
  obtain ⟨ue', hue', hless⟩ : ∃ ue', { ue with
      bearers := update ue.bearers (erab.1 - 3) (ue.bearers (erab.1 - 3)).reset }.uncount = ue' ∧
    ue'.num_bearers = ue.num_bearers - 1 := ⟨_, rfl, num_bearers_uncount (hcounts ue hue) hcount⟩
  have hbearers : ue'.bearers = update ue.bearers (erab.1 - 3) (ue.bearers (erab.1 - 3)).reset := by
    rw [← hue']
    rfl
  have hne : ue'.num_bearers ≠ 0 := by omega
  have hturn : Gtp.deleteTurn rnti (s, status) erab = some
      ({ s with
          ue_mapping := update s.ue_mapping rnti (some ue')
          teid_mapping := update s.teid_mapping (ue.bearers (erab.1 - 3)).teid_eNB none },
        if erab.2 then status else 0xFF) := by
    simp only [Gtp.deleteTurn, hue, bind_some, hi, map_some, hue', if_neg hne]
  have hset : ∀ x : GtpData, x.ue_mapping = update s.ue_mapping rnti (some ue') →
      x.teid = update s.teid ⟨rnti, erab.1⟩ none := by
    intro x hx
    rw [teid_write hi (fun j hj => by rw [hue, hbearers]; exact update_of_ne hj _ _) hx, hbearers]
    simp [Bearer.reset]
  refine ⟨_, hturn, ⟨?_, ?_, ?_, ?_⟩, by simp, hset _ rfl, fun rnti' hne => update_of_ne hne _ _⟩
  · rw [hset _ rfl]
    by_cases hdown : (ue.bearers (erab.1 - 3)).state = .down
    · -- nothing is under the TEID of a bearer that is down
      have hnone : s.teid ⟨rnti, erab.1⟩ = none := by rw [teid_eq hue hi, if_pos hdown]
      show Inverse (update s.teid_mapping _ none) _
      rw [h.down rnti ue hue _ hdown, update_eq_self_iff.2 h.zero.symm,
        update_eq_self_iff.2 hnone.symm]
      exact h.inverse
    · exact h.inverse.erase (by rw [teid_eq hue hi, if_neg hdown])
  · show update s.teid_mapping _ none 0 = none
    by_cases hzero : 0 = (ue.bearers (erab.1 - 3)).teid_eNB
    · rw [← hzero, update_self]
    · rw [update_of_ne hzero, h.zero]
  · exact h.down_write rfl (by rw [hue]; exact hbearers) fun _ => rfl
  · exact h.count_write rfl (by omega)

/-! ## Requests -/

theorem carried_congr {s' : GtpData} (heq : s'.ue_mapping rnti = s.ue_mapping rnti) :
    s'.Carried rnti ↔ s.Carried rnti := by
  simp only [Carried, teid, heq]

theorem carried_of_teid {ebi : Nat} (h : (s.teid ⟨rnti, ebi⟩).isSome) : s.Carried rnti :=
  fun _ => ⟨ebi, h⟩

end GtpData

inductive Request where
  | create (rnti : Nat) (tunnels : List TunnelReq)
  | delete (rnti : Nat) (erabs : List (Nat × Bool))

def step (s : GtpData) : Request → Option GtpData
  | .create rnti tunnels => (s.gtpv1uCreateS1uTunnel rnti tunnels).map Prod.fst
  | .delete rnti erabs => (s.gtpv1uDeleteS1uTunnel rnti erabs).map Prod.fst

/-- Tunnels are created for bearers that have none, and a deletion leaves the UE a tunnel and does
not take its counter around. -/
def Orderly (s : GtpData) : Request → Prop
  | .create rnti tunnels => (∀ tunnel ∈ tunnels, tunnel.WellFormed) ∧
      Meets (createTurn rnti) (Free rnti) (s, { rnti := rnti }) tunnels
  | .delete rnti erabs => (∀ erab ∈ erabs, 5 ≤ erab.1 ∧ erab.1 ≤ 15) ∧
      Meets (deleteTurn rnti) (Counts rnti) (s, 0) erabs ∧ ((s.ue_mapping rnti).isNone = true ∨
        ∃ ebi ∈ range' 5 11, ebi ∉ erabs.map Prod.fst ∧ (s.teid ⟨rnti, ebi⟩).isSome = true)

instance (s : GtpData) (e : Request) : Decidable (Orderly s e) := by
  cases e <;> unfold Orderly <;> infer_instance

namespace GtpData

variable {s : GtpData} {rnti : Nat}

theorem Inv.create (h : s.Inv ∧ ∀ rnti, s.Carried rnti) {tunnels : List TunnelReq}
    (hwf : ∀ tunnel ∈ tunnels, tunnel.WellFormed)
    (hfree : Meets (Gtp.createTurn rnti) (Free rnti) (s, { rnti := rnti }) tunnels) :
    ∃ y, s.gtpv1uCreateS1uTunnel rnti tunnels = some y ∧ y.1.Inv ∧ ∀ rnti, y.1.Carried rnti := by
  have hmeets := hfree.and (meets_of_forall hwf _)
  exact run_survives
    (fun x tunnel hx hC => by
      obtain ⟨y, hy, hinv, htable, hsame⟩ := hx.1.createTurn x.2 hC.2 hC.1
      refine ⟨y, hy, hinv, fun rnti' => ?_⟩
      by_cases hr : rnti' = rnti
      · rw [hr]
        exact carried_of_teid (by rw [htable, update_self]; rfl)
      · exact (carried_congr (hsame rnti' hr)).2 (hx.2 rnti')) h hmeets

theorem Inv.delete (h : s.Inv ∧ ∀ rnti, s.Carried rnti) {erabs : List (Nat × Bool)}
    (hrange : ∀ erab ∈ erabs, 5 ≤ erab.1 ∧ erab.1 ≤ 15)
    (hcounts : Meets (Gtp.deleteTurn rnti) (Counts rnti) (s, 0) erabs)
    (hleft : (s.ue_mapping rnti).isNone ∨ ∃ ebi ∈ range' 5 11,
      ebi ∉ erabs.map Prod.fst ∧ (s.teid ⟨rnti, ebi⟩).isSome) :
    ∃ y, s.gtpv1uDeleteS1uTunnel rnti erabs = some y ∧ y.1.Inv ∧ ∀ rnti, y.1.Carried rnti := by
  unfold gtpv1uDeleteS1uTunnel
  cases hue : s.ue_mapping rnti with
  | none => exact ⟨_, rfl, h⟩
  | some ue =>
    obtain ⟨ebi, -, hout, hteid⟩ := hleft.resolve_left (by simp [hue])
    have hmeets : Meets (Gtp.deleteTurn rnti) (fun _ erab => (5 ≤ erab.1 ∧ erab.1 ≤ 15) ∧
        erab.1 ≠ ebi) (s, 0) erabs :=
      meets_of_forall (fun erab herab => ⟨hrange erab herab, fun heq => hout (by
        rw [← heq]
        exact List.mem_map_of_mem herab)⟩) _
    have hrun := run_survives (P := fun x : GtpData × Nat => x.1.Inv ∧
      (x.1.ue_mapping rnti).isSome ∧
      (x.1.teid ⟨rnti, ebi⟩).isSome ∧ ∀ rnti' ≠ rnti, x.1.Carried rnti') (fun x erab hx hC => ?_)
      ⟨h.1, by rw [hue]; rfl, hteid, fun rnti' _ => h.2 rnti'⟩ (hmeets.and hcounts)
    · obtain ⟨y, hy, hinv, -, hkept, hothers⟩ := hrun
      refine ⟨y, hy, hinv, fun rnti' => ?_⟩
      by_cases hr : rnti' = rnti
      · rw [hr]
        exact carried_of_teid hkept
      · exact hothers rnti' hr
    · obtain ⟨hinv, hin, hkept, hothers⟩ := hx
      obtain ⟨y, hy, hinv', hin', htable, hsame⟩ := hinv.deleteTurn x.2 hin hC.1.1.1 hC.1.1.2 hC.2
      refine ⟨y, hy, hinv', hin', ?_, fun rnti' hne =>
        (carried_congr (hsame rnti' hne)).2 (hothers rnti' hne)⟩
      rw [htable, update_of_ne]
      · exact hkept
      · intro heq
        exact hC.1.2 (by cases heq; rfl)

/-- An orderly request goes through, and the two tables still agree. -/
theorem Inv.step (h : s.Inv ∧ ∀ rnti, s.Carried rnti) (e : Request) (horderly : Orderly s e) :
    ∃ t, step s e = some t ∧ t.Inv ∧ ∀ rnti, t.Carried rnti := by
  cases e with
  | create rnti tunnels =>
    obtain ⟨y, hy, hinv⟩ := Inv.create h horderly.1 horderly.2
    exact ⟨y.1, by rw [Gtp.step, hy]; rfl, hinv⟩
  | delete rnti erabs =>
    obtain ⟨y, hy, hinv⟩ := Inv.delete h horderly.1 horderly.2.1 horderly.2.2
    exact ⟨y.1, by rw [Gtp.step, hy]; rfl, hinv⟩

def init (enb_addr : List Nat) : GtpData := { enb_ip_address_for_S1u_S12_S4_up := enb_addr }

theorem inv_init (enb_addr : List Nat) : (init enb_addr).Inv where
  inverse k a := by
    constructor
    all_goals
      intro h
      cases h
  zero := rfl
  down rnti ue h := by cases h
  count rnti ue h := by cases h

theorem carried_init (enb_addr : List Nat) (rnti : Nat) : (init enb_addr).Carried rnti := by
  intro h
  cases h

end GtpData

/-- A run of orderly requests goes through: a TEID leads to a bearer exactly if the bearer is not
down and has this TEID, and the UEs with an entry are those with a tunnel. -/
theorem the_tunnel_tables_agree (enb_addr : List Nat) (es : List Request)
    (h : Meets step Orderly (GtpData.init enb_addr) es) :
    ∃ t, run step (GtpData.init enb_addr) es = some t ∧
      (∀ teid rnti ebi, t.teid_mapping teid = some ⟨rnti, ebi⟩ ↔
        ∃ ue i, t.ue_mapping rnti = some ue ∧ bearerIndex ebi = some i ∧
          (ue.bearers i).state ≠ .down ∧ (ue.bearers i).teid_eNB = teid) ∧
      ∀ rnti, (t.ue_mapping rnti).isSome = true ↔
        ∃ teid ebi, t.teid_mapping teid = some ⟨rnti, ebi⟩ := by
  obtain ⟨t, ht, hinv, hcarried⟩ := run_survives (fun s e hs he => GtpData.Inv.step hs e he)
    ⟨GtpData.inv_init enb_addr, GtpData.carried_init enb_addr⟩ h
  refine ⟨t, ht, fun teid rnti ebi => (hinv.inverse teid ⟨rnti, ebi⟩).trans GtpData.teid_eq_some,
    fun rnti => ?_⟩
  constructor
  · intro hin
    obtain ⟨ebi, hebi⟩ := hcarried rnti hin
    obtain ⟨teid, hteid⟩ := isSome_iff_exists.1 hebi
    exact ⟨teid, ebi, (hinv.inverse teid ⟨rnti, ebi⟩).2 hteid⟩
  · rintro ⟨teid, ebi, hteid⟩
    obtain ⟨ue, -, hue, -⟩ := GtpData.teid_eq_some.1 ((hinv.inverse teid ⟨rnti, ebi⟩).1 hteid)
    rw [hue]
    rfl

def ipv4Tunnel (eps_bearer_id s1u_teid : Nat) : TunnelReq where
  sgw_S1u_teid := 1
  eps_bearer_id := eps_bearer_id
  sgw_addr := ⟨32, [10, 0, 0, 1]⟩
  s1u_teid := s1u_teid
  hStackSession := s1u_teid

def twoUes : List Request :=
  [.create 1 [ipv4Tunnel 5 100, ipv4Tunnel 6 101], .create 2 [ipv4Tunnel 5 102],
    .delete 1 [(6, true)]]

theorem the_tunnels_of_two_ues : Meets step Orderly (GtpData.init []) twoUes ∧
    ∃ t, run step (GtpData.init []) twoUes = some t ∧ t.teid_mapping 100 = some ⟨1, 5⟩ ∧
      t.teid_mapping 101 = none ∧ ∀ rnti, (t.ue_mapping rnti).isSome = true ↔ ∃ teid ebi,
      t.teid_mapping teid = some ⟨rnti, ebi⟩ := by
  have hmeets : Meets step Orderly (GtpData.init []) twoUes := by decide +kernel
  have hcomputed : (run step (GtpData.init []) twoUes).any (fun t =>
      decide (t.teid_mapping 100 = some ⟨1, 5⟩ ∧ t.teid_mapping 101 = none)) := by decide +kernel
  obtain ⟨t, ht, -, hues⟩ := the_tunnel_tables_agree [] twoUes hmeets
  rw [ht] at hcomputed
  obtain ⟨hfirst, hsecond⟩ := of_decide_eq_true hcomputed
  exact ⟨hmeets, t, ht, hfirst, hsecond, hues⟩

def twiceCreated : List Request := [.create 1 [ipv4Tunnel 5 100], .create 1 [ipv4Tunnel 5 101]]

def createdAndDeleted : List Request := [.create 1 [ipv4Tunnel 5 100], .delete 1 [(5, true)]]

/-- A second tunnel for a bearer leaves the TEID of the first one in the table. The UE that loses
its only tunnel stays in the table of UEs, as its bearers are not counted. -/
theorem a_teid_outlives_its_bearer :
    (∃ t ue, run step (GtpData.init []) twiceCreated = some t ∧ t.teid_mapping 100 = some ⟨1, 5⟩ ∧
      t.ue_mapping 1 = some ue ∧ bearerIndex 5 = some 2 ∧ (ue.bearers 2).teid_eNB = 101) ∧
    ∃ t ue, run step (GtpData.init []) createdAndDeleted = some t ∧ t.ue_mapping 1 = some ue ∧
      ue.num_bearers = -1 ∧ ∀ ebi ∈ List.range 32, ∀ i ∈ bearerIndex ebi,
      (ue.bearers i).state = .down := by
  constructor
  · obtain ⟨t, ht, hstale, ue, hue, hteid⟩ : ∃ t, run step (GtpData.init []) twiceCreated = some t ∧
        t.teid_mapping 100 = some ⟨1, 5⟩ ∧ ∃ ue ∈ t.ue_mapping 1, (ue.bearers 2).teid_eNB = 101 :=
      run_decided (by decide +kernel)
    exact ⟨t, ue, ht, hstale, hue, rfl, hteid⟩
  · obtain ⟨t, ht, ue, hue, hcount, hdown⟩ : ∃ t, run step (GtpData.init []) createdAndDeleted =
        some t ∧ ∃ ue ∈ t.ue_mapping 1, ue.num_bearers = -1 ∧
          ∀ ebi ∈ List.range 32, ∀ i ∈ bearerIndex ebi, (ue.bearers i).state = .down :=
      run_decided (by decide +kernel)
    exact ⟨t, ue, ht, hue, hcount, hdown⟩

end MacRlcSplit.Gtp
