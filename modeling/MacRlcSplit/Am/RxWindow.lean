-- The receive window: VR(R), VR(MS), VR(H), VR(MR) and VR(X) over the list of
-- received PDUs. VR(R) passes only SNs that are complete, and exactly those
-- elements leave the list; VR(MS) never stands on an SN that is complete.
import MacRlcSplit.Am.RxList
import MacRlcSplit.Am.Transmit

namespace MacRlcSplit.Am

open Lib List Option

variable {sn h : Nat} {rx rx' : Rx} {pre : List RxPdu}

theorem shifted_eq {base : Nat} (hsn : sn < 1024)
    (hbase : base < 1024) : shifted sn base = off 1024 base sn := by
  unfold shifted off
  split <;> omega

/-! ## VR(MS) -/

/-- Where VR(MS) may come to stand: on an SN that is not complete, or after the last one. -/
def Lands (l : List RxPdu) (m : Nat) : Prop :=
  (∃ c ∈ l, c.all_segments_received = false ∧ m = c.info.sn) ∨
    ∃ c, l.getLast? = some c ∧ m = (c.info.sn + 1) % 1024

variable {a m : Nat} {l : List RxPdu}

theorem Lands.append (h : Lands l m) (l' : List RxPdu) : Lands (l' ++ l) m := by
  rcases h with ⟨c, hc, hm⟩ | ⟨c, hc, hm⟩
  · exact .inl ⟨c, mem_append_right l' hc, hm⟩
  · right
    refine ⟨c, ?_, hm⟩
    rw [getLast?_append, hc]
    rfl

theorem updateVrMs_lands (c : RxPdu) (l : List RxPdu)
    (m : Nat) : Lands (c :: l) (updateVrMs m (c :: l)) := by
  induction l generalizing c m with
  | nil =>
    unfold updateVrMs
    split
    · exact .inr ⟨c, rfl, rfl⟩
    · next hmark => exact .inl ⟨c, mem_cons_self, by simpa using hmark, rfl⟩
  | cons d l ih =>
    unfold updateVrMs
    split
    · exact (ih d _).append [c]
    · next hmark => exact .inl ⟨c, mem_cons_self, by simpa using hmark, rfl⟩

theorem reorderingVrMs_lands (rx : Rx) (c : RxPdu) (l : List RxPdu) (m : Nat) :
    Lands (c :: l) (reorderingVrMs rx m (c :: l)) := by
  induction l generalizing c m with
  | nil =>
    unfold reorderingVrMs
    split
    · next hmark => exact .inl ⟨c, mem_cons_self, hmark.2, rfl⟩
    · exact .inr ⟨c, rfl, rfl⟩
  | cons d l ih =>
    unfold reorderingVrMs
    split
    · next hmark => exact .inl ⟨c, mem_cons_self, hmark.2, rfl⟩
    · exact (ih d _).append [c]

theorem Ordered.le_last (h : Ordered a l) {c d : RxPdu} (hlast : l.getLast? = some c)
    (hd : d ∈ l) : d.off a ≤ c.off a := by
  obtain ⟨l', rfl⟩ := getLast?_eq_some_iff.1 hlast
  rcases mem_append.1 hd with hd | hd
  · exact (pairwise_append.1 h.sorted).2.2 d hd c (mem_singleton.2 rfl)
  · rw [mem_singleton.1 hd]

theorem Lands.spec (lands : Lands l m) (kept : Kept a l) (ha : a < 1024)
    (below : ∀ c ∈ l, c.off a < off 1024 a h) :
    m < 1024 ∧ off 1024 a m ≤ off 1024 a h ∧ ∀ c ∈ l, c.info.sn = m →
    c.all_segments_received = false := by
  rcases lands with ⟨c, hc, hmark, rfl⟩ | ⟨c, hlast, rfl⟩
  · refine ⟨(kept.sn c hc).1, le_of_lt (below c hc), ?_⟩
    intro d hd hdsn
    rw [← Bool.not_eq_true]
    intro hdmark
    rw [(kept.whole d hd hdmark).1 c hc hdsn.symm] at hmark
    cases hmark
  · have hc := mem_of_getLast? hlast
    have hsn := kept.sn c hc
    have hbelow := below c hc
    have hnext : off 1024 a ((c.info.sn + 1) % 1024) = c.off a + 1 :=
      off_succ ha hsn.1 (by have := hsn.2; unfold RxPdu.off at this; omega)
    refine ⟨succ_mod_lt hsn.1, by omega, ?_⟩
    intro d hd hdsn
    have hle := kept.le_last hlast hd
    rw [RxPdu.off, hdsn] at hle
    omega

/-! ## VR(R) -/

theorem updateVrR_spec {cur : Nat} (sn : ∀ c ∈ l, c.info.sn < 1024 ∧ c.off a < 512)
    (ha : a < 1024) (hcur : cur < 1024) (hle : off 1024 a cur ≤ 512) :
    updateVrR cur l < 1024 ∧ off 1024 a cur ≤ off 1024 a (updateVrR cur l) ∧
      off 1024 a (updateVrR cur l) ≤ 512 ∧
      ∀ j, off 1024 a cur ≤ j → j < off 1024 a (updateVrR cur l) →
      ∃ c ∈ l, c.all_segments_received ∧ c.off a = j := by
  induction l generalizing cur with
  | nil => exact ⟨hcur, le_rfl, hle, fun j h h' => by unfold updateVrR at h'; omega⟩
  | cons c l ih =>
    have tail := fun d hd => sn d (mem_cons_of_mem c hd)
    unfold updateVrR
    split
    · exact ⟨hcur, le_rfl, hle, fun j h h' => by omega⟩
    next hgo =>
    rw [not_or, Bool.not_eq_false, not_not] at hgo
    obtain ⟨hmark, rfl⟩ := hgo
    have hc := (sn c mem_cons_self).2
    unfold RxPdu.off at hc
    split
    · have hnext : off 1024 a ((c.info.sn + 1) % 1024) = off 1024 a c.info.sn + 1 :=
        off_succ ha hcur (by omega)
      obtain ⟨hlt, hge, hmax, hpass⟩ := ih tail (succ_mod_lt hcur) (by omega)
      refine ⟨hlt, by omega, hmax, ?_⟩
      intro j hj hj'
      by_cases heq : j = off 1024 a c.info.sn
      · exact ⟨c, mem_cons_self, hmark, heq.symm⟩
      · obtain ⟨d, hd, hdmark, hdoff⟩ := hpass j (by omega) hj'
        exact ⟨d, mem_cons_of_mem c hd, hdmark, hdoff⟩
    · obtain ⟨hlt, hge, hmax, hpass⟩ := ih tail hcur hle
      refine ⟨hlt, hge, hmax, ?_⟩
      intro j hj hj'
      obtain ⟨d, hd, hdmark, hdoff⟩ := hpass j hj hj'
      exact ⟨d, mem_cons_of_mem c hd, hdmark, hdoff⟩

/-! ## What leaves the list -/

/-- What reassembly may touch: the SDU under construction and what was delivered. -/
def Reassembled (rx rx' : Rx) : Prop :=
  ∃ o d, rx' = { rx with output_sdu_in_construction := o, delivered := d }

theorem Reassembled.refl (rx : Rx) : Reassembled rx rx := ⟨_, _, rfl⟩

theorem Reassembled.trans {rx₁ rx₂ rx₃ : Rx} : Reassembled rx₁ rx₂ → Reassembled rx₂ rx₃ →
    Reassembled rx₁ rx₃ := by
  rintro ⟨_, _, rfl⟩ ⟨o, d, rfl⟩
  exact ⟨o, d, rfl⟩

theorem reassembly_reassembled {src : Mem} {i : Nat} {length : Int}
    (h : reassembly rx src i length = some rx') : Reassembled rx rx' := by
  unfold reassembly at h
  dsimp only at h
  split at h
  · split at h
    · cases h
    · cases h
      exact ⟨_, _, rfl⟩
  · cases h
    exact ⟨_, _, rfl⟩

theorem sendSdu_reassembled (h : rlcAmSendSdu rx = some rx') : Reassembled rx rx' := by
  unfold rlcAmSendSdu at h
  split at h
  · cases h
    exact .refl rx
  · cases h
  · cases h
    exact ⟨_, _, rfl⟩

theorem reassembleLis_reassembled {src : Mem} {ls : List Nat} {i j : Nat}
    (h : reassembleLis src i ls rx = some (rx', j)) : Reassembled rx rx' := by
  induction ls generalizing i rx with
  | nil =>
    cases h
    exact .refl _
  | cons n ls ih =>
    obtain ⟨rx₁, h₁, h⟩ := bind_eq_some_iff.1 h
    obtain ⟨rx₂, h₂, h⟩ := bind_eq_some_iff.1 h
    exact (reassembly_reassembled h₁).trans ((sendSdu_reassembled h₂).trans (ih h))

theorem reassemblePdu_reassembled {c : RxPdu}
    (h : rlcAmReassemblePdu rx c = some rx') : Reassembled rx rx' := by
  have send : ∀ {p : Prop} [Decidable p] {rx rx' : Rx},
      (if p then rlcAmSendSdu rx else some rx) = some rx' → Reassembled rx rx' := by
    intro p _ rx rx' h
    split at h
    · exact sendSdu_reassembled h
    · cases h
      exact .refl rx
  obtain ⟨rx₁, h₁, h⟩ := bind_eq_some_iff.1 h
  refine (send h₁).trans ?_
  split at h
  · obtain ⟨⟨rx₂, j⟩, h₂, h⟩ := bind_eq_some_iff.1 h
    refine (reassembleLis_reassembled h₂).trans ?_
    dsimp only at h
    split at h
    · obtain ⟨rx₃, h₃, h⟩ := bind_eq_some_iff.1 h
      exact (reassembly_reassembled h₃).trans (send h)
    · cases h
      exact .refl _
  · obtain ⟨rx₂, h₂, h⟩ := bind_eq_some_iff.1 h
    exact (reassembly_reassembled h₂).trans (send h)

/-- Where the list is cut: what stays does not start with a marked element that follows on
what left. -/
structure Popped (l popped left : List RxPdu) : Prop where
  split : l = popped ++ left
  stop : ∀ e ∈ left.head?, e.all_segments_received = true →
    ∃ c, popped.getLast? = some c ∧ e.info.sn ≠ (c.info.sn + 1) % 1024 ∧ e.info.sn ≠ c.info.sn

theorem reassembleRlcSdus_popped {l : List RxPdu} (h : reassembleRlcSdus l rx = some rx') :
    ∃ popped left o d, Popped l popped left ∧ (∀ p ∈ popped, p.all_segments_received) ∧
      rx' = { rx with receiver_buffer := left, output_sdu_in_construction := o
                      delivered := d } := by
  induction l generalizing rx with
  | nil =>
    cases h
    exact ⟨[], [], _, _, ⟨rfl, nofun⟩, fun _ => nofun, rfl⟩
  | cons c l ih =>
    unfold reassembleRlcSdus at h
    split at h
    · next hmark =>
      have single : ∀ p ∈ [c], p.all_segments_received := by
        intro p hp
        rw [mem_singleton.1 hp]
        exact hmark
      obtain ⟨rx₁, h₁, h⟩ := bind_eq_some_iff.1 h
      obtain ⟨o₁, d₁, rfl⟩ := reassemblePdu_reassembled h₁
      cases l with
      | nil =>
        cases h
        exact ⟨[c], [], _, _, ⟨rfl, nofun⟩, single, rfl⟩
      | cons e l' =>
      dsimp only at h
      split at h
      · obtain ⟨popped, left, o, d, ⟨split, stop⟩, marked, rfl⟩ := ih h
        refine ⟨c :: popped, left, o, d, ⟨congrArg (c :: ·) split, ?_⟩,
          forall_mem_cons.2 ⟨hmark, marked⟩, rfl⟩
        intro f hf hfmark
        obtain ⟨b, hlast, hsn⟩ := stop f hf hfmark
        refine ⟨b, ?_, hsn⟩
        rw [getLast?_cons, hlast]
        rfl
      · next hgap =>
        cases h
        refine ⟨[c], e :: l', _, _, ⟨rfl, ?_⟩, single, rfl⟩
        intro f hf hfmark
        cases hf
        rw [not_or, not_and] at hgap
        exact ⟨c, rfl, hgap.1, fun heq => hgap.2 heq hfmark⟩
    · next hmark =>
      cases h
      refine ⟨[], c :: l, _, _, ⟨rfl, ?_⟩, fun _ => nofun, rfl⟩
      intro f hf hfmark
      cases hf
      exact absurd hfmark hmark

section Popped

variable {popped left : List RxPdu}

theorem Popped.before (h : Popped l popped left) (kept : Kept a l) (ha : a < 1024) {e p : RxPdu}
    (he : e ∈ left.head?) (hmark : e.all_segments_received)
    (hp : p ∈ popped) : p.off a + 1 < e.off a := by
  obtain ⟨c, hlast, hnext, hsame⟩ := h.stop e he hmark
  have hc : c ∈ popped := mem_of_getLast? hlast
  have hel : e ∈ left := mem_of_mem_head? he
  have hcsn := kept.sn c (h.split ▸ mem_append_left left hc)
  have hesn := kept.sn e (h.split ▸ mem_append_right popped hel)
  have sorted := pairwise_append.1 (h.split ▸ kept.sorted)
  have hpc : p.off a ≤ c.off a := by
    obtain ⟨init, hinit⟩ := getLast?_eq_some_iff.1 hlast
    rw [hinit] at hp sorted
    rcases mem_append.1 hp with hp | hp
    · exact (pairwise_append.1 sorted.1).2.2 p hp c (mem_singleton.2 rfl)
    · rw [mem_singleton.1 hp]
  have hce : c.off a ≤ e.off a := sorted.2.2 c hc e hel
  have hne : c.off a ≠ e.off a := fun heq => hsame (off_inj ha hcsn.1 hesn.1 heq).symm
  have hsucc : off 1024 a ((c.info.sn + 1) % 1024) = c.off a + 1 :=
    off_succ ha hcsn.1 (by have := hcsn.2; unfold RxPdu.off at this; omega)
  have hgap : c.off a + 1 ≠ e.off a := by
    rw [← hsucc]
    exact fun heq => hnext (off_inj ha (succ_mod_lt hcsn.1) hesn.1 heq).symm
  omega

theorem Popped.kept (h : Popped l popped left) (kept : Kept a l) (ha : a < 1024) : Kept a left := by
  have mem : ∀ {c}, c ∈ left → c ∈ l := fun hc => h.split ▸ mem_append_right popped hc
  refine ⟨⟨fun c hc => kept.sn c (mem hc), ?_, ?_⟩, ?_⟩
  · exact (pairwise_append.1 (h.split ▸ kept.sorted)).2.1
  · exact (pairwise_append.1 (h.split ▸ kept.segments)).2.1
  intro c hc hmark
  have whole := kept.whole c (mem hc) hmark
  have none_left : group c.info.sn popped = [] := by
    rw [group, filter_eq_nil_iff]
    intro p hp hsn
    have hsn : p.info.sn = c.info.sn := by simpa [sameSn] using hsn
    obtain ⟨e, t, rfl⟩ := exists_cons_of_ne_nil (ne_nil_of_mem hc)
    -- the first that stays lies between two elements of one SN
    have sorted := pairwise_append.1 (h.split ▸ kept.sorted)
    have hpe : p.off a ≤ e.off a := sorted.2.2 p hp e mem_cons_self
    have hec : e.off a ≤ c.off a := by
      rcases mem_cons.1 hc with rfl | hc
      · exact le_rfl
      · exact (pairwise_cons.1 sorted.2.1).1 c hc
    have hpc : p.off a = c.off a := by rw [RxPdu.off, hsn, RxPdu.off]
    have hesn : e.info.sn = c.info.sn :=
      off_inj ha (kept.sn e (mem mem_cons_self)).1 (kept.sn c (mem hc)).1
        (show e.off a = c.off a by omega)
    have hemark := whole.1 e (mem mem_cons_self) hesn
    have := h.before kept ha (mem_some_self e) hemark hp
    omega
  refine ⟨fun d hd => whole.1 d (mem hd), ?_⟩
  have hgroup : group c.info.sn l = group c.info.sn left := by
    rw [h.split, group_append, none_left, nil_append]
  rw [← hgroup]
  exact whole.2

theorem Popped.past (h : Popped l popped left) (kept : Kept a l) (ha : a < 1024) {k : Nat}
    (passes : ∀ j < k, ∃ c ∈ l, c.all_segments_received ∧ c.off a = j) {e : RxPdu}
    (he : e ∈ left) : k ≤ e.off a := by
  obtain ⟨d, t, rfl⟩ := exists_cons_of_ne_nil (ne_nil_of_mem he)
  have sorted := pairwise_append.1 (h.split ▸ kept.sorted)
  have least : ∀ f ∈ d :: t, d.off a ≤ f.off a := by
    intro f hf
    rcases mem_cons.1 hf with rfl | hf
    · exact le_rfl
    · exact (pairwise_cons.1 sorted.2.1).1 f hf
  by_contra hlt
  have hde := least e he
  -- so the first that stays is marked
  obtain ⟨c, hc, hmark, hoff⟩ := passes (d.off a) (by omega)
  have hdl : d ∈ l := h.split ▸ mem_append_right popped mem_cons_self
  have hsn : d.info.sn = c.info.sn := off_inj ha (kept.sn d hdl).1 (kept.sn c hc).1 hoff.symm
  have hdmark := (kept.whole c hc hmark).1 d hdl hsn
  obtain ⟨p, hlast, _⟩ := h.stop d (mem_some_self d) hdmark
  have hpd := h.before kept ha (mem_some_self d) hdmark (mem_of_getLast? hlast)
  -- and the one before it was passed, but is nowhere in the list
  obtain ⟨f, hf, _, hfoff⟩ := passes (d.off a - 1) (by omega)
  rw [h.split] at hf
  rcases mem_append.1 hf with hf | hf
  · have := h.before kept ha (mem_some_self d) hdmark hf
    omega
  · have := least f hf
    omega

end Popped

theorem Kept.rebase {b : Nat} (kept : Kept a l) (ha : a < 1024) (hb : b < 1024)
    (past : ∀ c ∈ l, off 1024 a b ≤ c.off a) : Kept b l := by
  have rebased : ∀ c ∈ l, c.off b = c.off a - off 1024 a b := fun c hc =>
    off_rebase ha hb (kept.sn c hc).1 (past c hc)
  refine ⟨⟨?_, ?_, kept.segments⟩, kept.whole⟩
  · intro c hc
    have := rebased c hc
    have := kept.sn c hc
    exact ⟨this.1, by omega⟩
  · refine kept.sorted.imp_of_mem ?_
    intro c d hc hd hle
    rw [rebased c hc, rebased d hd]
    exact Nat.sub_le_sub_right hle _

/-! ## The window -/

/-- The receive window: VR(R) <= VR(MS) <= VR(H) <= VR(MR), and a list of what is between
VR(R) and VR(H). -/
structure RxWin (rx : Rx) : Prop where
  vr_r : rx.vr_r < 1024
  vr_x : rx.vr_x < 1024
  vr_ms : rx.vr_ms < 1024
  vr_h : rx.vr_h < 1024
  vr_mr : rx.vr_mr = (rx.vr_r + 512) % 1024
  ms_le : off 1024 rx.vr_r rx.vr_ms ≤ off 1024 rx.vr_r rx.vr_h
  h_le : off 1024 rx.vr_r rx.vr_h ≤ 512
  kept : Kept rx.vr_r rx.receiver_buffer
  below : ∀ c ∈ rx.receiver_buffer, c.off rx.vr_r < off 1024 rx.vr_r rx.vr_h
  missing : ∀ c ∈ rx.receiver_buffer, c.info.sn = rx.vr_ms → c.all_segments_received = false

theorem inRxWindow_iff (win : RxWin rx) : rlcAmInRxWindow rx sn ↔
    sn < 1024 ∧ off 1024 rx.vr_r sn < 512 := by
  have hmr : shifted rx.vr_mr rx.vr_r = 512 := by
    rw [shifted_eq (by have := win.vr_mr; omega) win.vr_r, win.vr_mr]
    exact off_add win.vr_r (by decide)
  rw [rlcAmInRxWindow, decide_eq_true_iff, hmr]
  constructor
  · rintro ⟨hsn, h⟩
    exact ⟨hsn, shifted_eq hsn win.vr_r ▸ h⟩
  · rintro ⟨hsn, h⟩
    exact ⟨hsn, (shifted_eq hsn win.vr_r).symm ▸ h⟩

theorem vrH_spec (win : RxWin rx) (hsn : sn < 1024) (window : off 1024 rx.vr_r sn < 512)
    (heq : h = if rlcAmSnGteVrH rx sn then (sn + 1) % 1024 else rx.vr_h) :
    h < 1024 ∧ off 1024 rx.vr_r sn < off 1024 rx.vr_r h ∧
      off 1024 rx.vr_r rx.vr_h ≤ off 1024 rx.vr_r h ∧ off 1024 rx.vr_r h ≤ 512 := by
  have hgte : rlcAmSnGteVrH rx sn ↔ off 1024 rx.vr_r rx.vr_h ≤ off 1024 rx.vr_r sn := by
    rw [rlcAmSnGteVrH, decide_eq_true_iff, shifted_eq hsn win.vr_r, shifted_eq win.vr_h win.vr_r]
    exact ⟨fun h => h.2, fun h => ⟨hsn, h⟩⟩
  split at heq
  · next hge =>
    rw [hgte] at hge
    have hnext : off 1024 rx.vr_r ((sn + 1) % 1024) = off 1024 rx.vr_r sn + 1 :=
      off_succ win.vr_r hsn (by omega)
    subst heq
    exact ⟨succ_mod_lt hsn, by omega, by omega, by omega⟩
  · next hge =>
    rw [hgte] at hge
    subst heq
    exact ⟨win.vr_h, by omega, by omega, win.h_le⟩

theorem RxWin.placed (win : RxWin rx) {m : Nat} (l : List RxPdu) (kept : Kept rx.vr_r l)
    (hh : h < 1024) (h_ge : off 1024 rx.vr_r rx.vr_h ≤ off 1024 rx.vr_r h)
    (h_le : off 1024 rx.vr_r h ≤ 512) (below : ∀ c ∈ l, c.off rx.vr_r < off 1024 rx.vr_r h)
    (ms : Lands l m ∨ (m = rx.vr_ms ∧ ∀ c ∈ l, c.info.sn = rx.vr_ms →
      c.all_segments_received = false)) :
    RxWin { rx with receiver_buffer := l, vr_h := h, vr_ms := m } := by
  rcases ms with lands | ⟨rfl, missing⟩
  · obtain ⟨hm, hle, missing⟩ := lands.spec kept win.vr_r below
    exact ⟨win.vr_r, win.vr_x, hm, hh, win.vr_mr, hle, h_le, kept, below, missing⟩
  · exact ⟨win.vr_r, win.vr_x, win.vr_ms, hh, win.vr_mr, win.ms_le.trans h_ge, h_le, kept, below,
      missing⟩

theorem RxWin.advance (win : RxWin rx) {r : Nat} {popped left : List RxPdu} (hr : r < 1024)
    (passes : ∀ j < off 1024 rx.vr_r r, ∃ c ∈ rx.receiver_buffer,
      c.all_segments_received ∧ c.off rx.vr_r = j) (cut : Popped rx.receiver_buffer popped left)
    (o : Option (List Byte)) (d : List (List Byte)) :
    RxWin { rx with
      vr_r := r, vr_mr := (r + 512) % 1024, receiver_buffer := left
      output_sdu_in_construction := o, delivered := d } := by
  have mem : ∀ {c}, c ∈ left → c ∈ rx.receiver_buffer := fun hc =>
    cut.split ▸ mem_append_right popped hc
  have past : ∀ c ∈ left, off 1024 rx.vr_r r ≤ c.off rx.vr_r := fun c hc =>
    cut.past win.kept win.vr_r passes hc
  have ms : off 1024 rx.vr_r r ≤ off 1024 rx.vr_r rx.vr_ms := by
    by_contra hlt
    obtain ⟨c, hc, hmark, hoff⟩ := passes (off 1024 rx.vr_r rx.vr_ms) (by omega)
    have hsn : c.info.sn = rx.vr_ms := off_inj win.vr_r (win.kept.sn c hc).1 win.vr_ms hoff
    rw [win.missing c hc hsn] at hmark
    cases hmark
  have ms_le := win.ms_le
  have h_le := win.h_le
  have hms := off_rebase win.vr_r hr win.vr_ms ms
  have hh := off_rebase win.vr_r hr win.vr_h (ms.trans ms_le)
  refine ⟨hr, win.vr_x, win.vr_ms, win.vr_h, rfl, ?_, ?_, ?_, ?_, ?_⟩
  · show off 1024 r rx.vr_ms ≤ off 1024 r rx.vr_h
    omega
  · show off 1024 r rx.vr_h ≤ 512
    omega
  · exact (cut.kept win.kept win.vr_r).rebase win.vr_r hr past
  · intro c hc
    have hlt := win.below c (mem hc)
    have hc' : c.off r = c.off rx.vr_r - off 1024 rx.vr_r r :=
      off_rebase win.vr_r hr (win.kept.sn c (mem hc)).1 (past c hc)
    have := past c hc
    show c.off r < off 1024 r rx.vr_h
    omega
  · exact fun c hc => win.missing c (mem hc)

theorem RxWin.delivers (win : RxWin rx) {from_tb : List RxPdu} {complete : Bool}
    (split : rx.receiver_buffer = pre ++ from_tb)
    (h : reassembleRlcSdus (pre ++ from_tb) (if complete then
        { rx with vr_r := updateVrR rx.vr_r from_tb
                  vr_mr := (updateVrR rx.vr_r from_tb + 512) % 1024 } else rx) = some rx') :
    RxWin rx' := by
  obtain ⟨popped, left, o, d, cut, -, rfl⟩ := reassembleRlcSdus_popped h
  rw [← split] at cut
  split
  · have mem : ∀ c ∈ from_tb, c ∈ rx.receiver_buffer := fun c hc =>
      split ▸ mem_append_right pre hc
    obtain ⟨hlt, _, _, passes⟩ := updateVrR_spec (fun c hc => win.kept.sn c (mem c hc)) win.vr_r
      win.vr_r (by rw [off_self]; omega)
    refine win.advance hlt ?_ cut o d
    intro j hj
    obtain ⟨c, hc, hmark, hoff⟩ := passes j (by rw [off_self]; omega) hj
    exact ⟨c, mem c hc, hmark, hoff⟩
  · have stays := win.advance win.vr_r (by rw [off_self]; exact fun j => nofun) cut o d
    rw [← win.vr_mr] at stays
    exact stays

/-! ## A data PDU -/

/-- What the code needs of a data PDU with header `x`: it does not come before a list that,
from its first element on, lies below a VR(R) above VR(MR), and a segment does not have a
negative size. -/
structure RxReady (rx : Rx) (x : PduInfo) : Prop where
  first : rx.vr_mr < rx.vr_r → x.sn < rx.vr_r →
    ∀ c ∈ rx.receiver_buffer.head?, ¬ (x.sn < c.info.sn ∧ c.info.sn < rx.vr_r)
  size : x.rf = true → 0 ≤ x.payload_size

instance (rx : Rx) (x : PduInfo) : Decidable (RxReady rx x) :=
  decidable_of_iff (_ ∧ _) ⟨fun h => ⟨h.1, h.2⟩, fun h => ⟨h.first, h.size⟩⟩

/-- The list after a new PDU: as the check leaves it, without marked elements at its front. -/
theorem rxPlaced_buffer {post : List RxPdu} {y : RxPdu} (h : rxPlaced rx pre y post = some rx') :
    ∃ p q popped, rlcAmRxCheckAllByteSegments pre y post = (p, q) ∧
      p ++ q = popped ++ rx'.receiver_buffer ∧ ∀ c ∈ popped, c.all_segments_received := by
  unfold rxPlaced at h
  dsimp only at h
  generalize rlcAmRxCheckAllByteSegments pre y post = pq at h
  obtain ⟨p, q⟩ := pq
  dsimp only at h
  split at h
  · obtain ⟨popped, left, o, d, cut, marked, rfl⟩ := reassembleRlcSdus_popped h
    exact ⟨p, q, popped, rfl, cut.split, marked⟩
  · cases h
    exact ⟨p, q, [], rfl, rfl, fun _ => nofun⟩

/-- What the new PDU and the check of its SN leave of the list: the same headers, and marks
only on the new SN, if its first element after the place is marked. -/
theorem Placed.checked {x : PduInfo} {post p q : List RxPdu} {y : RxPdu}
    (placed : Placed a x l pre post) (kept : Kept a l) (ha : a < 1024) (sn : x.sn < 1024)
    (window : off 1024 a x.sn < 512) (size : x.rf → 0 ≤ x.payload_size) (info : y.info = x)
    (unmarked : y.all_segments_received = false)
    (h : rlcAmRxCheckAllByteSegments pre y post = (p, q)) :
    Kept a (p ++ q) ∧ (∃ c q', q = c :: q') ∧ ∀ c ∈ p ++ q,
      if c.info.sn = x.sn then c.all_segments_received =
        (q.headD y).all_segments_received else c ∈ l := by
  have mem : ∀ {c}, c ∈ pre ++ y :: post → c.info.sn ≠ x.sn → c ∈ l :=
    fun hc hne => placed.old (congrArg PduInfo.sn info) unmarked hc (.inl hne)
  rcases placed.check kept ha sn window size info unmarked with ⟨heq, kept'⟩ | ⟨heq, kept', fresh⟩
  · obtain ⟨rfl, rfl⟩ := Prod.mk.inj (heq.symm.trans h)
    rw [markSn_append] at kept'
    refine ⟨kept', ⟨_, _, rfl⟩, ?_⟩
    intro c hc
    rw [← markSn_append] at hc
    obtain ⟨d, hd, hinfo, hsame, hother⟩ := mem_markSn hc
    rw [hinfo]
    split
    · next hsn =>
      rw [hsame hsn, markSn, map_cons, if_pos (congrArg PduInfo.sn info)]
      rfl
    · next hne =>
      rw [hother hne]
      exact mem hd hne
  · obtain ⟨rfl, rfl⟩ := Prod.mk.inj (heq.symm.trans h)
    refine ⟨kept', ⟨_, _, rfl⟩, ?_⟩
    intro c hc
    split
    · next hsn => rw [fresh c hc hsn, headD_cons, unmarked]
    · next hne => exact mem hc hne

theorem rxPlaced_win {x : PduInfo} {post : List RxPdu} {y : RxPdu} (win : RxWin rx)
    (sn : x.sn < 1024) (window : off 1024 rx.vr_r x.sn < 512) (size : x.rf → 0 ≤ x.payload_size)
    (placed : Placed rx.vr_r x rx.receiver_buffer pre post) (info : y.info = x)
    (unmarked : y.all_segments_received = false) (h : rxPlaced rx pre y post = some rx') :
    RxWin rx' := by
  unfold rxPlaced at h
  rw [info] at h
  dsimp only at h
  generalize hcheck : rlcAmRxCheckAllByteSegments pre y post = pq at h
  obtain ⟨p, q⟩ := pq
  generalize hvr_h : (if rlcAmSnGteVrH rx x.sn = true then (x.sn + 1) % 1024 else rx.vr_h) = vr_h
    at h
  obtain ⟨hh, hsn_h, h_ge, h_le⟩ := vrH_spec win sn window hvr_h.symm
  obtain ⟨kept, ⟨c₀, q', rfl⟩, old⟩ :=
    placed.checked win.kept win.vr_r sn window size info unmarked hcheck
  have below : ∀ c ∈ p ++ c₀ :: q', c.off rx.vr_r < off 1024 rx.vr_r vr_h := by
    intro c hc
    have hold := old c hc
    split at hold
    · next hsn =>
      rw [RxPdu.off, hsn]
      exact hsn_h
    · exact lt_of_lt_of_le (win.below c hold) h_ge
  have win' := win.placed (p ++ c₀ :: q') kept hh h_ge h_le below
    (m := if x.sn = rx.vr_ms ∧ c₀.all_segments_received = true then
      updateVrMs rx.vr_ms (c₀ :: q') else rx.vr_ms) ?_
  · split at h
    · exact win'.delivers rfl h
    · cases h
      exact win'
  · split
    · exact .inl ((updateVrMs_lands c₀ q' rx.vr_ms).append p)
    next hms =>
    refine .inr ⟨rfl, ?_⟩
    intro c hc hcsn
    have hold := old c hc
    split at hold
    · next hsn =>
      rw [hold, ← Bool.not_eq_true]
      exact fun hmark => hms ⟨hsn.symm.trans hcsn, hmark⟩
    · exact win.missing c hold hcsn

theorem RxWin.of_eq (win : RxWin rx)
    (h : rx' = { rx with t_reordering := rx'.t_reordering
                         t_status_prohibit := rx'.t_status_prohibit
                         status_requested := rx'.status_requested }) : RxWin rx' := by
  rw [h]
  exact ⟨win.vr_r, win.vr_x, win.vr_ms, win.vr_h, win.vr_mr, win.ms_le, win.h_le, win.kept,
    win.below, win.missing⟩

theorem RxWin.setVrX (win : RxWin rx) : RxWin { rx with vr_x := rx.vr_h } :=
  ⟨win.vr_r, win.vr_h, win.vr_ms, win.vr_h, win.vr_mr, win.ms_le, win.h_le, win.kept, win.below,
    win.missing⟩

theorem rxReordering_win (win : RxWin rx) (ctxt : Ctxt)
    (sn : Nat) : RxWin (rxReordering rx ctxt sn) := by
  unfold rxReordering
  extract_lets t
  split
  · exact win.setVrX.of_eq rfl
  · exact win.of_eq rfl

theorem processDataPdu_win {ctxt : Ctxt} {tb : MacTbInd} (win : RxWin rx)
    (ready : ∀ x ∈ rlcAmGetDataPduInfos tb.data (tb.size % 2 ^ 16 : Nat), RxReady rx x)
    (h : rlcAmReceiveProcessDataPdu rx ctxt tb = some rx') : RxWin rx' := by
  unfold rlcAmReceiveProcessDataPdu at h
  split at h
  · cases h
    exact win
  next x hinfo =>
  obtain ⟨first, size⟩ := ready x hinfo
  split at h
  · next hin =>
    obtain ⟨sn, window⟩ := (inRxWindow_iff win).1 hin
    dsimp only at h
    have win₁ : RxWin { rx with status_requested := rx.status_requested || x.p } := win.of_eq rfl
    split at h
    · cases h
      exact win.of_eq rfl
    next pre post hins =>
    obtain ⟨rx₁, h₁, rfl⟩ := map_eq_some_iff.1 h
    have placed := insertPdu_placed win₁.vr_r win₁.vr_mr win₁.kept.toOrdered sn window first hins
    exact rxReordering_win (rxPlaced_win win₁ sn window size placed rfl rfl h₁) ctxt x.sn
  · cases h
    exact win.of_eq rfl

/-! ## Timers -/

theorem checkTimerReordering_win (win : RxWin rx)
    (ctxt : Ctxt) : RxWin (rlcAmCheckTimerReordering rx ctxt) := by
  unfold rlcAmCheckTimerReordering
  split
  · have win' := win.placed
      (m := reorderingVrMs rx rx.vr_ms rx.receiver_buffer) rx.receiver_buffer win.kept win.vr_h
      le_rfl win.h_le win.below ?_
    · dsimp only
      split
      · exact win'.setVrX.of_eq rfl
      · exact win'.of_eq rfl
    · cases hl : rx.receiver_buffer with
      | nil => exact .inr ⟨rfl, fun c => nofun⟩
      | cons c l => exact .inl (reorderingVrMs_lands rx c l _)
  · exact win

theorem checkTimerStatusProhibit_win (win : RxWin rx) (ctxt : Ctxt) :
    RxWin (rlcAmCheckTimerStatusProhibit rx ctxt) := by
  unfold rlcAmCheckTimerStatusProhibit
  split
  · exact win.of_eq rfl
  · exact win

theorem rxWin_empty : RxWin {} where
  vr_r := by decide
  vr_x := by decide
  vr_ms := by decide
  vr_h := by decide
  vr_mr := by decide
  ms_le := Nat.le_refl _
  h_le := by decide
  kept := ⟨⟨fun _ => nofun, .nil, .nil⟩, fun _ => nofun⟩
  below := fun _ => nofun
  missing := fun _ => nofun

theorem rxWin_configure (cfg : Config) : RxWin (rlcAmConfigure cfg).rx := rxWin_empty.of_eq rfl

end MacRlcSplit.Am
