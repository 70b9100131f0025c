-- What a STATUS PDU says about the receive list: an SN below ACK_SN without a
-- NACK is marked as received, and what has not come of a NACKed SN is inside
-- the ranges reported for it. Both hold as long as no PDU comes as one last
-- segment, except for a first segment that is alone in the list.
import MacRlcSplit.Am.RxMarks

namespace MacRlcSplit.Am

open Lib List Option

/-! ## What a report has to say -/

/-- A byte of a PDU that has come. -/
def Received (l : List RxPdu) (sn b : Nat) : Prop :=
  ∃ c ∈ l, c.info.sn = sn ∧ c.info.so ≤ b ∧ (b : Int) < c.info.so + c.info.payload_size

def NackSn.Covers (n : NackSn) (sn b : Nat) : Prop := n.nack_sn = sn ∧ n.so_start ≤ b ∧ b ≤ n.so_end

/-- A byte that has come, or is inside a range. -/
def ByteReported (l : List RxPdu) (nacks : List NackSn) (sn b : Nat) : Prop :=
  Received l sn b ∨ ∃ m ∈ nacks, m.Covers sn b

/-- Up to the last offset that is reported for it, every byte of a NACKed SN has come or is inside a
range. -/
def RangesSound (l : List RxPdu) (nacks : List NackSn) : Prop :=
  ∀ n ∈ nacks, ∀ b ≤ n.so_end, ByteReported l nacks n.nack_sn b

/-- Without a NACK, the SN is marked. -/
def Accounted (l : List RxPdu) (nacks : List NackSn) (sn : Nat) : Prop :=
  (∀ n ∈ nacks, n.nack_sn ≠ sn) → ∃ c ∈ l, c.info.sn = sn ∧ c.all_segments_received = true

structure StatusSound (rx : Rx) (info : ControlPduInfo) : Prop where
  acked : ∀ sn < 1024, off 1024 rx.vr_r sn < off 1024 rx.vr_r info.ack_sn →
    Accounted rx.receiver_buffer info.nack_list sn
  ranges : RangesSound rx.receiver_buffer info.nack_list

variable {a k sn : Nat} {l buf : List RxPdu} {nacks nacks' : List NackSn}

theorem ByteReported.mono {b : Nat} (h : ByteReported l nacks sn b) (hsub : nacks ⊆ nacks') :
    ByteReported l nacks' sn b := by
  rcases h with h | ⟨m, hm, covers⟩
  · exact .inl h
  · exact .inr ⟨m, hsub hm, covers⟩

theorem Accounted.mono (h : Accounted l nacks sn) (hsub : nacks ⊆ nacks') : Accounted l nacks' sn :=
  fun none => h fun n hn => none n (hsub hn)

theorem RangesSound.push (h : RangesSound l nacks) (n : NackSn)
    (hn : ∀ b ≤ n.so_end, ByteReported l nacks n.nack_sn b ∨ n.so_start ≤ b) :
    RangesSound l (nacks ++ [n]) := by
  have hsub : nacks ⊆ nacks ++ [n] := subset_append_left nacks [n]
  intro m hm b hb
  rcases mem_append.1 hm with hm | hm
  · exact (h m hm b hb).mono hsub
  rw [mem_singleton.1 hm] at hb ⊢
  rcases hn b hb with hold | hstart
  · exact hold.mono hsub
  · exact .inr ⟨n, mem_append_right nacks (mem_singleton.2 rfl), rfl, hstart, hb⟩

variable {rep rep' : Report} {rx : Rx} {ack_sn n previous : Nat} {passed : List RxPdu} {grant : Int}

theorem push_some {bits : Int} {n : NackSn} (h : rep.push bits n = some rep') :
    rep'.nack_list = rep.nack_list ++ [n] := by
  unfold Report.push at h
  split at h
  · cases h
    rfl
  · cases h

/-- The first `k` SNs from `a` on are accounted for. -/
structure Reports (buf : List RxPdu) (a k : Nat) (nacks : List NackSn) : Prop where
  accounted : ∀ j < k, Accounted buf nacks ((a + j) % 1024)
  ranges : RangesSound buf nacks

theorem Reports.of_le {k' : Nat} (h : Reports buf a k nacks) (hle : k' ≤ k) (hsub : nacks ⊆ nacks')
    (ranges : RangesSound buf nacks') : Reports buf a k' nacks' :=
  ⟨fun j hj => (h.accounted j (lt_of_lt_of_le hj hle)).mono hsub, ranges⟩

theorem Reports.succ (h : Reports buf a k nacks) (hsub : nacks ⊆ nacks')
    (ranges : RangesSound buf nacks')
    (next : Accounted buf nacks' ((a + k) % 1024)) : Reports buf a (k + 1) nacks' := by
  refine ⟨?_, ranges⟩
  intro j hj
  rcases Nat.lt_succ_iff_lt_or_eq.1 hj with hj | rfl
  · exact (h.accounted j hj).mono hsub
  · exact next

theorem Reports.statusSound (h : Reports rx.receiver_buffer rx.vr_r k nacks) (ha : rx.vr_r < 1024)
    (hk : k < 1024) (hack : ack_sn = (rx.vr_r + k) % 1024) : StatusSound rx ⟨ack_sn, nacks⟩ := by
  refine ⟨?_, h.ranges⟩
  intro sn hsn hoff
  rw [hack, off_add ha hk] at hoff
  have haccounted := h.accounted _ hoff
  rwa [add_off ha hsn] at haccounted

/-! ## Missing PDUs -/

theorem nackMissing_reports {d previous' : Nat} {full : Bool} (h : Reports buf a k rep.nack_list)
    (hlt : previous < 1024) (hprevious : (previous + 1) % 1024 = (a + k) % 1024) (hd : d < 1024)
    (hk : k ≤ d) (hn : d ≤ k + n)
    (hres : nackMissing ((a + d) % 1024) n rep previous = some (rep', previous', full)) :
    ∃ k' ≤ d, Reports buf a k' rep'.nack_list ∧ previous' < 1024 ∧
      (previous' + 1) % 1024 = (a + k') % 1024 ∧ (full = false → k' = d) := by
  induction n generalizing rep previous k with
  | zero =>
    cases hres
    exact ⟨k, hk, h, hlt, hprevious, fun _ => by omega⟩
  | succ n ih =>
    unfold nackMissing at hres
    split at hres
    · cases hres
      exact ⟨k, hk, h, hlt, hprevious, fun _ => by omega⟩
    split at hres
    · obtain ⟨rep₁, hpush, hres⟩ := bind_eq_some_iff.1 hres
      have hlist := push_some hpush
      have next : Reports buf a (k + 1) rep₁.nack_list := by
        rw [hlist]
        refine h.succ (subset_append_left _ _) (h.ranges.push _ fun b _ => .inr (Nat.zero_le b)) ?_
        intro none
        exact absurd hprevious (none _ (mem_append_right _ (mem_singleton.2 rfl)))
      exact ih next (by omega) (by omega) (by omega) (by omega) hres
    · cases hres
      exact ⟨k, hk, h, hlt, hprevious, nofun⟩

/-! ## Segments of one SN -/

/-- The loop over the segments of an SN that is not marked, at the SO it waits for. -/
structure SegmentWalk (buf : List RxPdu) (sn : Nat) (l : List RxPdu) (nacks : List NackSn)
    (waited : Int) : Prop where
  nonneg : 0 ≤ waited
  ranges : RangesSound buf nacks
  below : (waited = 0x7FFF ∧ ∀ c ∈ l, c.info.sn ≠ sn) ∨ ∀ b : Nat, (b : Int) < waited →
    ByteReported buf nacks sn b
  gap : (∃ n ∈ nacks, n.nack_sn = sn) ∨ (waited ≠ 0x7FFF ∧ allContiguous sn waited l = false)

/-- The rest of the list at such an SN. -/
structure SegmentsOf (buf : List RxPdu) (sn : Nat) (l : List RxPdu) : Prop where
  mem : ∀ c ∈ l, c ∈ buf
  rf : ∀ c ∈ l, c.info.sn = sn → c.info.rf = true
  size : ∀ c ∈ l, c.info.rf = true → 0 < c.info.payload_size
  segmented : Segmented l

variable {c : RxPdu} {waited : Int}

theorem SegmentsOf.tail (h : SegmentsOf buf sn (c :: l)) : SegmentsOf buf sn l :=
  ⟨fun d hd => h.mem d (mem_cons_of_mem c hd), fun d hd => h.rf d (mem_cons_of_mem c hd),
    fun d hd => h.size d (mem_cons_of_mem c hd), h.segmented.sublist (sublist_cons_self c l)⟩

theorem SegmentsOf.below_after (h : SegmentsOf buf sn (c :: l)) (hsn : c.info.sn = sn)
    (before : ∀ b < c.info.so, ByteReported buf nacks sn b) :
    (waitedAfter c.info = 0x7FFF ∧ ∀ d ∈ l, d.info.sn ≠ sn) ∨
      ∀ b : Nat, (b : Int) < waitedAfter c.info → ByteReported buf nacks sn b := by
  cases hlsf : c.info.lsf with
  | true =>
    refine .inl ⟨by simp [waitedAfter, hlsf], ?_⟩
    intro d hd heq
    have hlast := (pairwise_cons.1 h.segmented.last).1 d hd (hsn.trans heq.symm)
    rw [hlsf] at hlast
    cases hlast
  | false =>
    refine .inr fun b hb => ?_
    have hb : (b : Int) < c.info.so + c.info.payload_size := by simpa [waitedAfter, hlsf] using hb
    rcases lt_or_ge b c.info.so with hlt | hge
    · exact before b hlt
    · exact .inl ⟨c, h.mem c mem_cons_self, hsn, hge, hb⟩

theorem SegmentsOf.nonneg_after (h : SegmentsOf buf sn (c :: l))
    (hsn : c.info.sn = sn) : 0 ≤ waitedAfter c.info := by
  have hsize := h.size c mem_cons_self (h.rf c mem_cons_self hsn)
  unfold waitedAfter
  split <;> omega

theorem SegmentWalk.before_segment (walk : SegmentWalk buf sn (c :: l) nacks waited)
    (hsn : c.info.sn = sn) : ∀ b : Nat, (b : Int) < waited → ByteReported buf nacks sn b := by
  rcases walk.below with ⟨-, none⟩ | below
  · exact absurd hsn (none c mem_cons_self)
  · exact below

theorem SegmentWalk.pass (walk : SegmentWalk buf sn (c :: l) nacks waited)
    (of : SegmentsOf buf sn (c :: l)) (hsn : c.info.sn = sn) (hso : (c.info.so : Int) ≤ waited) :
    SegmentWalk buf sn l nacks (waitedAfter c.info) where
  nonneg := of.nonneg_after hsn
  ranges := walk.ranges
  below := of.below_after hsn fun b hb => walk.before_segment hsn b (by omega)
  gap := by
    rcases walk.gap with pushed | ⟨-, gap⟩
    · exact .inl pushed
    have hrf := of.rf c mem_cons_self hsn
    have hrest : (c.info.lsf || allContiguous sn (c.info.so + c.info.payload_size) l) = false := by
      simpa [allContiguous, hsn, hrf, hso] using gap
    obtain ⟨hlsf, hrest⟩ := Bool.or_eq_false_iff.1 hrest
    have hwaited : waitedAfter c.info = c.info.so + c.info.payload_size := by
      simp [waitedAfter, hlsf]
    rw [hwaited]
    exact .inr ⟨(of.segmented.regular c mem_cons_self).inner hrf hlsf, hrest⟩

theorem SegmentWalk.report (walk : SegmentWalk buf sn (c :: l) nacks waited)
    (of : SegmentsOf buf sn (c :: l)) (hsn : c.info.sn = sn) (hso : waited < c.info.so) :
    SegmentWalk buf sn l (nacks ++
      [⟨sn, true, true, (waited % 32768).toNat, (((c.info.so : Int) - 1) % 32768).toNat⟩])
      (waitedAfter c.info) := by
  have hlt := (of.segmented.regular c mem_cons_self).so
  have hnonneg := walk.nonneg
  have hstart : (waited % 32768).toNat = waited.toNat := by omega
  rw [hstart]
  have below : ∀ b < c.info.so, ByteReported buf nacks sn b ∨ waited.toNat ≤ b := by
    intro b hb
    rcases Int.lt_or_le b waited with hb | hb
    · exact .inl (walk.before_segment hsn b hb)
    · exact .inr (by omega)
  have entry : ∀ n : NackSn, n ∈ nacks ++ [n] := fun n =>
    mem_append_right nacks (mem_singleton.2 rfl)
  refine ⟨of.nonneg_after hsn, walk.ranges.push _ ?_, of.below_after hsn ?_, .inl ⟨_, entry _, rfl⟩⟩
  · intro b hb
    exact below b (by dsimp only at hb; omega)
  · intro b hb
    rcases below b hb with hold | hge
    · exact hold.mono (subset_append_left nacks _)
    · exact .inr ⟨_, entry _, rfl, hge, by dsimp only; omega⟩

theorem SegmentWalk.rest (walk : SegmentWalk buf sn l nacks waited) (hwaited : waited ≠ 0x7FFF) :
    RangesSound buf (nacks ++ [⟨sn, true, true, (waited % 32768).toNat, 0x7FFF⟩]) := by
  have hnonneg := walk.nonneg
  refine walk.ranges.push _ ?_
  intro b hb
  rcases Int.lt_or_le b waited with hlt | hge
  · rcases walk.below with ⟨heq, -⟩ | below
    · exact absurd heq hwaited
    · exact .inl (below b hlt)
  · refine .inr ?_
    dsimp only at hb ⊢
    omega

/-- What the loop over the segments ends with. -/
def SegmentsReported (buf : List RxPdu) (sn previous : Nat) (l : List RxPdu)
    (nacks : List NackSn) : Walk → Prop
  | .done rep ack_sn => nacks ⊆ rep.nack_list ∧ RangesSound buf rep.nack_list ∧
    (ack_sn = sn ∨ (ack_sn = previous ∧ l.length ≤ 1))
  | .go rep previous' l' => nacks ⊆ rep.nack_list ∧ RangesSound buf rep.nack_list ∧
    (∃ n ∈ rep.nack_list, n.nack_sn = sn) ∧ previous' = sn ∧ ∃ passed, l = passed ++ l' ∧
    ∀ c ∈ passed, c.info.sn = sn

theorem SegmentsReported.cons {w : Walk} (hsn : c.info.sn = sn) (hsub : nacks ⊆ nacks')
    (h : SegmentsReported buf sn (if l = [] then previous else sn) l nacks' w) :
    SegmentsReported buf sn previous (c :: l) nacks w := by
  cases w with
  | done rep ack_sn =>
    obtain ⟨hmono, ranges, hack⟩ := h
    refine ⟨List.Subset.trans hsub hmono, ranges, ?_⟩
    rcases hack with rfl | ⟨rfl, -⟩
    · exact .inl rfl
    · split
      · next hnil => exact .inr ⟨rfl, by simp [hnil]⟩
      · exact .inl rfl
  | go rep previous' l' =>
    obtain ⟨hmono, ranges, pushed, hprevious, passed, rfl, hpassed⟩ := h
    refine ⟨List.Subset.trans hsub hmono, ranges, pushed, hprevious, c :: passed, rfl, ?_⟩
    intro d hd
    rcases mem_cons.1 hd with rfl | hd
    · exact hsn
    · exact hpassed d hd

theorem reportSegments_reported {w : Walk} (walk : SegmentWalk buf sn l rep.nack_list waited)
    (of : SegmentsOf buf sn l) (h : reportSegments sn rep previous waited l = some w) :
    SegmentsReported buf sn previous l rep.nack_list w := by
  induction l generalizing rep previous waited with
  | nil =>
    cases h
    exact ⟨List.Subset.refl _, walk.ranges, .inr ⟨rfl, Nat.zero_le 1⟩⟩
  | cons c l ih =>
    unfold reportSegments at h
    dsimp only at h
    split at h
    · -- the next SN: the loop is left here, and every SN that is not complete has its entry
      split at h
      · next hwaited =>
        split at h
        · obtain ⟨rep₁, hpush, rfl⟩ := map_eq_some_iff.1 h
          have hlist := push_some hpush
          refine ⟨?_, ?_, ?_, rfl, [], rfl, fun _ => nofun⟩
          · rw [hlist]
            exact subset_append_left _ _
          · rw [hlist]
            exact walk.rest hwaited
          · rw [hlist]
            exact ⟨_, mem_append_right _ (mem_singleton.2 rfl), rfl⟩
        · cases h
          exact ⟨List.Subset.refl _, walk.ranges, .inl rfl⟩
      · next hwaited =>
        cases h
        refine ⟨List.Subset.refl _, walk.ranges, ?_, rfl, [], rfl, fun _ => nofun⟩
        rcases walk.gap with pushed | ⟨hopen, -⟩
        · exact pushed
        · exact absurd hopen hwaited
    · next hsn =>
      have hsn := Decidable.not_not.1 hsn
      split at h
      · next hso =>
        split at h
        · obtain ⟨rep₁, hpush, h⟩ := bind_eq_some_iff.1 h
          have hlist := push_some hpush
          have walk₁ := walk.report of hsn hso
          rw [← hlist] at walk₁
          refine SegmentsReported.cons hsn ?_ (ih walk₁ of.tail h)
          rw [hlist]
          exact subset_append_left _ _
        · cases h
          exact ⟨List.Subset.refl _, walk.ranges, .inl rfl⟩
      · next hso =>
        exact SegmentsReported.cons hsn (List.Subset.refl _)
          (ih (walk.pass of hsn (Int.not_lt.1 hso)) of.tail h)

/-! ## The walk over the list -/

/-- Where the walk stands: the first `k` SNs are accounted for, and the elements passed are of
these. -/
structure Standing (buf : List RxPdu) (a k : Nat) (nacks : List NackSn) (previous : Nat)
    (l : List RxPdu) : Prop where
  reports : Reports buf a k nacks
  bound : k ≤ 512
  previous_lt : previous < 1024
  previous_eq : (previous + 1) % 1024 = (a + k) % 1024
  split : ∃ passed, passed ++ l = buf ∧ ∀ c ∈ passed, c.off a < k
  ahead : ∀ c ∈ l, k ≤ c.off a + 1

theorem Standing.sn_previous (st : Standing buf a k nacks previous l) (ordered : Ordered a buf)
    (ha : a < 1024) (hc : c ∈ buf) : c.info.sn = previous ↔ c.off a + 1 = k := by
  have hsn := ordered.sn c hc
  have hoff : (a + c.off a) % 1024 = c.info.sn := add_off ha hsn.1
  have heq := st.previous_eq
  have hlt := st.previous_lt
  have hk := st.bound
  omega

theorem Standing.dropWhile (st : Standing buf a k nacks previous l) (ordered : Ordered a buf)
    (ha : a < 1024) :
    ∃ passed, passed ++ l.dropWhile (sameSn previous) = buf ∧ (∀ c ∈ passed, c.off a < k) ∧
      ∀ c ∈ l.dropWhile (sameSn previous), k ≤ c.off a := by
  obtain ⟨passed, hsplit, hpassed⟩ := st.split
  have hmem : ∀ c ∈ l, c ∈ buf := fun c hc => hsplit ▸ mem_append_right passed hc
  have same : ∀ c ∈ l, sameSn previous c ↔ c.off a + 1 = k := by
    intro c hc
    rw [sameSn, decide_eq_true_iff]
    exact st.sn_previous ordered ha (hmem c hc)
  have front : Front (sameSn previous) l := by
    have sorted :=
      (hsplit ▸ ordered.sorted : (passed ++ l).Pairwise _).sublist (sublist_append_right passed l)
    refine sorted.imp_of_mem ?_
    intro c d hc hd hcd hsame
    rw [same d hd] at hsame
    rw [same c hc]
    have := st.ahead c hc
    omega
  refine ⟨passed ++ l.takeWhile (sameSn previous), ?_, ?_, ?_⟩
  · rw [append_assoc, takeWhile_append_dropWhile, hsplit]
  · intro c hc
    rcases mem_append.1 hc with hc | hc
    · exact hpassed c hc
    have := (same c ((takeWhile_sublist _).subset hc)).1 (mem_takeWhile_imp hc)
    omega
  · intro c hc
    have hl := (dropWhile_sublist _).subset hc
    have hne : ¬ c.off a + 1 = k := by
      rw [← same c hl, front.dropWhile_none c hc]
      exact Bool.false_ne_true
    have := st.ahead c hl
    omega

theorem Reportable.segments (h : Reportable buf) (ordered : Ordered a buf) (ha : a < 1024)
    (hsplit : passed ++ c :: l = buf) (hpassed : ∀ d ∈ passed, d.off a < c.off a)
    (hmark : c.all_segments_received = false) :
    SegmentsOf buf c.info.sn (c :: l) ∧ allContiguous c.info.sn 0 (c :: l) = false := by
  subst hsplit
  have hsub : (c :: l).Sublist (passed ++ c :: l) := sublist_append_right passed _
  have hmem := hsub.subset
  have hin := ordered.sn c (hmem mem_cons_self)
  have same : ∀ d ∈ c :: l, d.off a = c.off a → sameSn c.info.sn d := by
    intro d hd heq
    have := off_inj ha (ordered.sn d (hmem hd)).1 hin.1 heq
    simpa [sameSn] using this
  have sorted := ordered.sorted.sublist hsub
  have front : Front (sameSn c.info.sn) (c :: l) := by
    refine sorted.imp_of_mem ?_
    intro d e hd he hde hsame
    have hesn : e.info.sn = c.info.sn := by simpa [sameSn] using hsame
    have heq : e.off a = c.off a := by rw [RxPdu.off, hesn, RxPdu.off]
    apply same d hd
    rcases mem_cons.1 hd with rfl | hd
    · rfl
    have := (pairwise_cons.1 sorted).1 d hd
    omega
  have hgroup : group c.info.sn (passed ++ c :: l) = group c.info.sn (c :: l) := by
    have hnone : group c.info.sn passed = [] := by
      rw [eq_nil_iff_forall_not_mem]
      intro d hd
      obtain ⟨hd, hsn⟩ := mem_group.1 hd
      have hlt := hpassed d hd
      rw [RxPdu.off, hsn] at hlt
      exact lt_irrefl _ hlt
    rw [group_append, hnone, nil_append]
  have incomplete := h.unmarked c (hmem mem_cons_self) hmark
  rw [hgroup] at incomplete
  have segments := ordered.segments.sublist hsub
  have hrf : c.info.rf := by
    -- a PDU that is not a segment is alone, and so complete
    rw [← Bool.not_eq_false]
    intro hplain
    apply incomplete
    rw [group_cons_self rfl]
    refine .inl ⟨hplain, eq_nil_iff_forall_not_mem.2 ?_⟩
    intro d hd
    obtain ⟨hd, hsn⟩ := mem_group.1 hd
    rw [((pairwise_cons.1 segments).1 d hd hsn.symm).1] at hplain
    cases hplain
  refine ⟨⟨fun d hd => hmem hd, ?_, fun d hd => h.apart.size d (hmem hd), h.segmented.sublist hsub⟩,
    ?_⟩
  · intro d hd hsn
    rcases mem_cons.1 hd with rfl | hd
    · exact hrf
    · exact ((pairwise_cons.1 segments).1 d hd hsn.symm).2
  · rw [complete_iff front rfl hrf] at incomplete
    rw [← Bool.not_eq_true]
    intro hcontiguous
    have hcontiguous : c.info.so = 0 ∧
        (c.info.lsf ∨ allContiguous c.info.sn (c.info.so + c.info.payload_size) l) := by
      simpa [allContiguous, hrf, Int.natCast_nonpos_iff] using hcontiguous
    obtain ⟨hso, hlsf | hrest⟩ := hcontiguous
    · rw [(h.segmented.regular c (hmem mem_cons_self)).part hrf hso] at hlsf
      cases hlsf
    · refine incomplete ⟨hso, ?_⟩
      simpa [hso] using hrest

/-- The list holds nothing but one segment of the SN that is waited for. -/
def LoneSegment (a : Nat) (l : List RxPdu) : Prop :=
  l.length = 1 ∧ ∀ c ∈ l, c.info.sn = a ∧ c.all_segments_received = false

instance (a : Nat) (l : List RxPdu) : Decidable (LoneSegment a l) :=
  inferInstanceAs (Decidable (_ ∧ ∀ c ∈ l, _))

theorem lone_of_first (ha : a < 1024) (hsplit : passed ++ c :: l = buf)
    (hpassed : ∀ d ∈ passed, d.off a < c.off a) (hshort : (c :: l).length ≤ 1) (hzero : c.off a = 0)
    (hmark : c.all_segments_received = false) : LoneSegment a buf := by
  have hnil : passed = [] := by
    rw [eq_nil_iff_forall_not_mem]
    intro d hd
    have := hpassed d hd
    omega
  have hl : l = [] := length_eq_zero_iff.1 (by simpa using hshort)
  rw [hnil, hl] at hsplit
  rw [← hsplit]
  refine ⟨rfl, fun d hd => ?_⟩
  rw [mem_singleton.1 hd]
  exact ⟨(off_eq_zero ha).1 hzero, hmark⟩

theorem standing_past {p rest : List RxPdu} (ordered : Ordered a buf) (ha : a < 1024)
    (hsplit : passed ++ c :: l = buf) (hpassed : ∀ d ∈ passed, d.off a < c.off a)
    (reports : Reports buf a (c.off a + 1) nacks) (hp : c :: l = p ++ rest)
    (hsn : ∀ d ∈ p, d.info.sn = c.info.sn) : Standing buf a (c.off a + 1) nacks c.info.sn rest := by
  subst hsplit
  have hc := ordered.sn c (mem_append_right passed mem_cons_self)
  have hat : (a + c.off a) % 1024 = c.info.sn := add_off ha hc.1
  have sorted := ordered.sorted.sublist (sublist_append_right passed (c :: l))
  refine ⟨reports, hc.2, hc.1, by omega, ⟨passed ++ p, ?_, ?_⟩, ?_⟩
  · rw [append_assoc, hp]
  · intro d hd
    rcases mem_append.1 hd with hd | hd
    · exact Nat.lt_succ_of_lt (hpassed d hd)
    · rw [RxPdu.off, hsn d hd]
      exact Nat.lt_succ_self _
  · intro d hd
    have hd : d ∈ c :: l := hp ▸ mem_append_right p hd
    rcases mem_cons.1 hd with rfl | hd
    · exact le_rfl
    · exact Nat.succ_le_succ ((pairwise_cons.1 sorted).1 d hd)

/-- The walk ends with the SN after the first ones, which are accounted for. -/
theorem reportList_reports (reportable : Reportable buf) (ordered : Ordered a buf) (ha : a < 1024)
    (lone : ¬ LoneSegment a buf) (st : Standing buf a k rep.nack_list previous l)
    (h : reportList n rep previous l = some (rep', ack_sn)) :
    ∃ k' < 1024, ack_sn = (a + k') % 1024 ∧ Reports buf a k' rep'.nack_list := by
  have hk : k < 1024 := lt_of_le_of_lt st.bound (by decide)
  induction n generalizing rep previous l k with
  | zero =>
    cases h
    exact ⟨k, hk, st.previous_eq, st.reports⟩
  | succ n ih =>
    unfold reportList at h
    split at h
    · cases h
      exact ⟨k, hk, st.previous_eq, st.reports⟩
    obtain ⟨passed, hsplit, hpassed, hahead⟩ := st.dropWhile ordered ha
    generalize hdrop : (l.dropWhile fun c => c.info.sn = previous) = l' at h
    change l.dropWhile (sameSn previous) = l' at hdrop
    rw [hdrop] at hsplit hahead
    cases l' with
    | nil =>
      cases h
      exact ⟨k, hk, st.previous_eq, st.reports⟩
    | cons c l' =>
      have hmem : c ∈ buf := hsplit ▸ mem_append_right passed mem_cons_self
      obtain ⟨hsn, hoff⟩ := ordered.sn c hmem
      have hkc := hahead c mem_cons_self
      have hat : (a + c.off a) % 1024 = c.info.sn := add_off ha hsn
      obtain ⟨⟨rep₁, previous₁, full⟩, hmissing, h⟩ := bind_eq_some_iff.1 h
      rw [← hat] at hmissing
      obtain ⟨k₁, hle, reports₁, hlt₁, hprevious₁, hfull⟩ :=
        nackMissing_reports st.reports st.previous_lt st.previous_eq (by omega) hkc (by omega)
          hmissing
      dsimp only at h
      split at h
      · cases h
        exact ⟨k₁, by omega, hprevious₁, reports₁⟩
      next hroom =>
      obtain rfl := hfull (Bool.not_eq_true _ ▸ hroom)
      have hbefore : ∀ d ∈ passed, d.off a < c.off a := fun d hd =>
        lt_of_lt_of_le (hpassed d hd) hkc
      split at h
      · next hmark =>
        have next : Reports buf a (c.off a + 1) rep₁.nack_list :=
          reports₁.succ (List.Subset.refl _) reports₁.ranges fun _ => ⟨c, hmem, hat.symm, hmark⟩
        refine ih (standing_past (p := [c]) ordered ha hsplit hbefore next rfl ?_) h (by omega)
        intro d hd
        rw [mem_singleton.1 hd]
      next hmark =>
      have hmark : c.all_segments_received = false := Bool.not_eq_true _ ▸ hmark
      obtain ⟨of, gap⟩ := reportable.segments ordered ha hsplit hbefore hmark
      obtain ⟨w, hsegments, h⟩ := bind_eq_some_iff.1 h
      have reported := reportSegments_reported
        ⟨Int.le_refl 0, reports₁.ranges, .inr fun b hb => by omega,
          .inr ⟨by decide, gap⟩⟩ of hsegments
      cases w with
      | done rep₂ ack₂ =>
        obtain ⟨hmono, ranges, hack⟩ := reported
        cases h
        rcases hack with rfl | ⟨rfl, hshort⟩
        · exact ⟨c.off a, by omega, hat.symm, reports₁.of_le le_rfl hmono ranges⟩
        · -- alone after others: the SN before it is not covered
          have hpos : 0 < c.off a := by
            rw [Nat.pos_iff_ne_zero]
            exact fun hzero => lone (lone_of_first ha hsplit hbefore hshort hzero hmark)
          exact ⟨c.off a - 1, by omega, by omega, reports₁.of_le (Nat.sub_le _ _) hmono ranges⟩
      | go rep₂ previous₂ l₂ =>
        obtain ⟨hmono, ranges, ⟨n, hn, hnack⟩, rfl, p, hp, hpsn⟩ := reported
        have next : Reports buf a (c.off a + 1) rep₂.nack_list :=
          reports₁.succ hmono ranges fun none => absurd (hnack.trans hat.symm) (none n hn)
        exact ih (standing_past ordered ha hsplit hbefore next hp hpsn) h (by omega)

theorem skipOutside_inside (win : RxWin rx) (hne : rx.receiver_buffer ≠ []) (previous : Nat) :
    skipOutside rx previous rx.receiver_buffer = some (previous, rx.receiver_buffer) := by
  cases hbuf : rx.receiver_buffer with
  | nil => exact absurd hbuf hne
  | cons c l =>
    have hin := win.kept.sn c (hbuf ▸ mem_cons_self)
    rw [skipOutside, if_pos ((inRxWindow_iff win).2 hin)]

theorem statusReport_sound (win : RxWin rx) (reportable : Reportable rx.receiver_buffer)
    (lone : ¬ LoneSegment rx.vr_r rx.receiver_buffer)
    (h : statusReport rx grant = some (rep, ack_sn)) : StatusSound rx ⟨ack_sn, rep.nack_list⟩ := by
  have ha := win.vr_r
  have nothing : Reports rx.receiver_buffer rx.vr_r 0 [] :=
    ⟨fun j hj => absurd hj (Nat.not_lt_zero j), fun _ => nofun⟩
  unfold statusReport at h
  split at h
  · cases h
    refine nothing.statusSound ha (by decide : 0 < 1024) ?_
    rw [Nat.add_zero, Nat.mod_eq_of_lt ha]
  · rw [skipOutside_inside win ‹_›] at h
    have st : Standing rx.receiver_buffer rx.vr_r 0 [] ((rx.vr_r + 1023) % 1024)
        rx.receiver_buffer :=
      ⟨nothing, by decide, by omega, by omega, ⟨[], rfl, fun _ => nofun⟩, fun _ _ => Nat.zero_le _⟩
    obtain ⟨k, hk, hack, reports⟩ := reportList_reports reportable win.kept.toOrdered ha lone st h
    exact reports.statusSound ha hk hack

/-! ## The PDU -/

def NackSn.bits (n : NackSn) : Nat := if n.e2 then 42 else 12

def bitsOf (nacks : List NackSn) : Nat := (nacks.map NackSn.bits).sum

theorem length_le_bitsOf (nacks : List NackSn) : 12 * nacks.length ≤ bitsOf nacks := by
  induction nacks with
  | nil => exact le_rfl
  | cons n nacks ih =>
    have hn : 12 ≤ n.bits := by
      unfold NackSn.bits
      split <;> decide
    rw [bitsOf, map_cons, sum_cons, length_cons]
    unfold bitsOf at ih
    omega

def Spent (grant : Int) (rep : Report) : Prop := rep.bits + 15 + bitsOf rep.nack_list = grant * 8

/-- In a grant of 1536 bytes there is no room for more entries than the list can hold. -/
theorem push_spent {b : Int} {n : NackSn} (spent : Spent grant rep) (hgrant : grant ≤ 1536)
    (hbits : b = n.bits)
    (hroom : b ≤ rep.bits) : ∃ rep', rep.push b n = some rep' ∧ Spent grant rep' := by
  have hlength := length_le_bitsOf rep.nack_list
  unfold Spent at spent
  refine ⟨_, if_pos (by omega), ?_⟩
  unfold Spent bitsOf at *
  rw [map_append, sum_append, map_singleton, sum_singleton]
  dsimp only
  omega

theorem nackMissing_spent (hgrant : grant ≤ 1536) (sn n previous : Nat) (spent : Spent grant rep) :
    ∃ rep' previous' full, nackMissing sn n rep previous = some (rep', previous', full) ∧
    Spent grant rep' := by
  induction n generalizing rep previous with
  | zero => exact ⟨rep, previous, false, rfl, spent⟩
  | succ n ih =>
    unfold nackMissing
    split
    · exact ⟨rep, previous, false, rfl, spent⟩
    split
    · next hroom =>
      obtain ⟨rep₁, hpush, spent₁⟩ :=
        push_spent (b := 12) (n := ⟨(previous + 1) % 1024, true, false, 0, 0x7FF⟩) spent
        hgrant rfl (Int.le_of_lt hroom)
      rw [hpush]
      exact ih _ spent₁
    · exact ⟨rep, previous, true, rfl, spent⟩

def Walk.report : Walk → Report
  | .done rep _ => rep
  | .go rep _ _ => rep

theorem reportSegments_spent (hgrant : grant ≤ 1536) (sn previous : Nat) (waited : Int)
    (l : List RxPdu)
    (spent : Spent grant rep) : ∃ w, reportSegments sn rep previous waited l = some w ∧
    Spent grant w.report := by
  induction l generalizing rep previous waited with
  | nil => exact ⟨_, rfl, spent⟩
  | cons c l ih =>
    unfold reportSegments
    dsimp only
    split
    · split
      · split
        · next hroom =>
          obtain ⟨rep₁, hpush, spent₁⟩ :=
            push_spent (b := 42) (n := ⟨sn, true, true, (waited % 32768).toNat, 0x7FFF⟩)
            spent hgrant rfl hroom
          rw [hpush]
          exact ⟨_, rfl, spent₁⟩
        · exact ⟨_, rfl, spent⟩
      · exact ⟨_, rfl, spent⟩
    · split
      · split
        · next hroom =>
          obtain ⟨rep₁, hpush, spent₁⟩ := push_spent (b := 42)
            (n := ⟨sn, true, true, (waited % 32768).toNat, (((c.info.so : Int) - 1) % 32768).toNat⟩)
              spent hgrant rfl hroom
          rw [hpush]
          exact ih _ _ spent₁
        · exact ⟨_, rfl, spent⟩
      · exact ih _ _ spent

theorem reportList_spent (hgrant : grant ≤ 1536) (n previous : Nat) (l : List RxPdu)
    (spent : Spent grant rep) :
    ∃ rep' ack_sn, reportList n rep previous l = some (rep', ack_sn) ∧ Spent grant rep' := by
  induction n generalizing rep previous l with
  | zero => exact ⟨_, _, rfl, spent⟩
  | succ n ih =>
    unfold reportList
    split
    · exact ⟨_, _, rfl, spent⟩
    split
    · exact ⟨_, _, rfl, spent⟩
    next c l' hdrop =>
    obtain ⟨rep₁, previous₁, full, hmissing, spent₁⟩ :=
      nackMissing_spent hgrant c.info.sn 1024 previous spent
    rw [hmissing, bind_some]
    dsimp only
    split
    · exact ⟨_, _, rfl, spent₁⟩
    split
    · exact ih _ _ spent₁
    · obtain ⟨w, hsegments, spent₂⟩ :=
        reportSegments_spent hgrant c.info.sn previous₁ 0 (c :: l') spent₁
      rw [hsegments]
      cases w with
      | done rep₂ ack_sn => exact ⟨_, _, rfl, spent₂⟩
      | go rep₂ previous₂ l₂ => exact ih _ _ spent₂

theorem statusReport_spent (win : RxWin rx) (hgrant : grant ≤ 1536) :
    ∃ rep ack_sn, statusReport rx grant = some (rep, ack_sn) ∧ Spent grant rep := by
  have spent : Spent grant { bits := grant * 8 - 15 } := by
    have hnone : bitsOf [] = 0 := rfl
    unfold Spent
    dsimp only
    omega
  unfold statusReport
  split
  · exact ⟨_, _, rfl, spent⟩
  · rw [skipOutside_inside win ‹_›]
    exact reportList_spent hgrant _ _ _ spent

/-- A place in a PDU, in bits. -/
def BitPos.at (pos : BitPos) : Nat := 8 * pos.byte + pos.bit

theorem write8BitField_at (m : Mem) {pos : BitPos} (hpos : pos.bit < 8) {bits : Nat}
    (hbits : bits ≤ 8) (value : Nat) :
    (write8BitField 2 (m, pos) bits value).2.at = pos.at + bits ∧
    (write8BitField 2 (m, pos) bits value).2.bit < 8 := by
  unfold write8BitField BitPos.at
  dsimp only
  split
  · dsimp only
    omega
  split
  · dsimp only
    omega
  unfold write8BitField
  dsimp only
  split
  · dsimp only
    omega
  split
  · omega
  · omega

def Writes (n : Nat) (mp mp' : Mem × BitPos) : Prop :=
  mp.2.bit < 8 → mp'.2.at = mp.2.at + n ∧ mp'.2.bit < 8

theorem Writes.trans {n' : Nat} {mp mp₁ mp₂ : Mem × BitPos} (h : Writes n mp mp₁)
    (h' : Writes n' mp₁ mp₂) : Writes (n + n') mp mp₂ := by
  intro hbit
  obtain ⟨hat, hbit⟩ := h hbit
  obtain ⟨hat', hbit⟩ := h' hbit
  exact ⟨by omega, hbit⟩

theorem write8BitField_writes (mp : Mem × BitPos) {bits : Nat} (hbits : bits ≤ 8) (value : Nat) :
    Writes bits mp (write8BitField 2 mp bits value) :=
  fun hbit => write8BitField_at mp.1 hbit hbits value

theorem write16BitField_writes (mp : Mem × BitPos) {bits : Nat} (hlow : 8 < bits)
    (hbits : bits ≤ 16) (value : Nat) : Writes bits mp (write16BitField mp bits value) := by
  have h := (write8BitField_writes mp (by omega : bits - 8 ≤ 8) (value / 256 % 256)).trans
    (write8BitField_writes _ le_rfl (value % 256))
  rw [Nat.sub_add_cancel (le_of_lt hlow)] at h
  rw [write16BitField, if_pos hlow]
  exact h

theorem writeNack_writes (mp : Mem × BitPos) (n : NackSn) : Writes n.bits mp (writeNack mp n) := by
  have head := ((write16BitField_writes mp (by decide : 8 < 10) (by decide) n.nack_sn).trans
    (write8BitField_writes _ (by decide : 1 ≤ 8) n.e1.toNat)).trans
    (write8BitField_writes _ (by decide : 1 ≤ 8) n.e2.toNat)
  unfold writeNack NackSn.bits
  split
  · exact (head.trans (write16BitField_writes _ (by decide : 8 < 15) (by decide) n.so_start)).trans
      (write16BitField_writes _ (by decide : 8 < 15) (by decide) n.so_end)
  · exact head

theorem writeNacks_writes (mp : Mem × BitPos) (nacks : List NackSn) :
    Writes (bitsOf nacks) mp (nacks.foldl writeNack mp) := by
  induction nacks generalizing mp with
  | nil => exact fun hbit => ⟨rfl, hbit⟩
  | cons n nacks ih => exact (writeNack_writes mp n).trans (ih _)

theorem length_writeStatusPdu (info : ControlPduInfo) :
    (rlcAmWriteStatusPdu info).2 = (15 + bitsOf info.nack_list + 7) / 8 := by
  obtain ⟨hat, hbit⟩ := ((write16BitField_writes (fun _ => 0,
    ⟨0, 4⟩) (by decide : 8 < 10) (by decide) info.ack_sn).trans
    (write8BitField_writes _ (by decide : 1 ≤ 8) (if info.nack_list.length >
      0 then 1 else 0))).trans
    (writeNacks_writes _ info.nack_list) (by decide : 4 < 8)
  unfold rlcAmWriteStatusPdu
  unfold BitPos.at at hat
  dsimp only at hat ⊢
  generalize (if info.nack_list.length > 0 then 1 else 0) = more at hat hbit ⊢
  split <;> omega

/-- An entry without its E1. -/
def NackSn.opened (n : NackSn) : NackSn := { n with e1 := true }

theorem NackSn.of_opened {m n : NackSn} (h : m.opened = n.opened) :
    m.nack_sn = n.nack_sn ∧ m.so_start = n.so_start ∧ m.so_end = n.so_end := by
  obtain ⟨hsn, -, -, hstart, hend⟩ := NackSn.mk.inj h
  exact ⟨hsn, hstart, hend⟩

theorem closeNacks_opened (nacks : List NackSn) :
    (closeNacks nacks).map NackSn.opened = nacks.map NackSn.opened := by
  fun_induction closeNacks nacks with
  | case1 => rfl
  | case2 => rfl
  | case3 n nacks _ ih => rw [map_cons, map_cons, ih]

theorem bitsOf_opened (h : nacks.map NackSn.opened = nacks'.map NackSn.opened) :
    bitsOf nacks = bitsOf nacks' := by
  have opened : ∀ l : List NackSn, bitsOf l = ((l.map NackSn.opened).map NackSn.bits).sum := by
    intro l
    rw [List.map_map]
    rfl
  rw [opened, h, ← opened]

theorem StatusSound.opened (sound : StatusSound rx ⟨ack_sn, nacks⟩)
    (h : nacks.map NackSn.opened = nacks'.map NackSn.opened) : StatusSound rx ⟨ack_sn, nacks'⟩ := by
  have there : ∀ n ∈ nacks, ∃ m ∈ nacks', m.opened = n.opened := by
    intro n hn
    exact List.mem_map.1 (h ▸ List.mem_map_of_mem hn)
  have back : ∀ m ∈ nacks', ∃ n ∈ nacks, n.opened = m.opened := by
    intro m hm
    exact List.mem_map.1 (h.symm ▸ List.mem_map_of_mem hm)
  constructor
  · intro sn hsn hoff none
    refine sound.acked sn hsn hoff ?_
    intro n hn
    obtain ⟨m, hm, heq⟩ := there n hn
    rw [← (NackSn.of_opened heq).1]
    exact none m hm
  · intro m hm b hb
    obtain ⟨n, hn, heq⟩ := back m hm
    obtain ⟨hsame, -, hend⟩ := NackSn.of_opened heq
    rw [← hend] at hb
    rcases sound.ranges n hn b hb with received | ⟨n', hn', hsn', hstart', hend'⟩
    · exact .inl (hsame ▸ received)
    · obtain ⟨m', hm', heq'⟩ := there n' hn'
      obtain ⟨hsame', hstart, hend⟩ := NackSn.of_opened heq'
      exact .inr ⟨m', hm', hsame'.trans (hsn'.trans hsame), by omega, by omega⟩

theorem sendStatusPdu_built {s : Entity} (win : RxWin s.rx)
    (hgrant : s.nb_bytes_requested_by_mac ≤ 1536) : (rlcAmSendStatusPdu s).isSome := by
  obtain ⟨rep, ack_sn, hrep, spent⟩ := statusReport_spent win hgrant
  have hbits := bitsOf_opened (closeNacks_opened rep.nack_list)
  have hsize := length_writeStatusPdu ⟨ack_sn, closeNacks rep.nack_list⟩
  unfold Spent at spent
  unfold rlcAmSendStatusPdu
  rw [hrep, bind_some]
  dsimp only at hsize ⊢
  rw [if_pos (by omega)]
  rfl

theorem sendStatusPdu_report {s t : Entity} {pdu : List Byte}
    (h : rlcAmSendStatusPdu s = some (t, pdu)) :
    ∃ rep ack_sn, statusReport s.rx s.nb_bytes_requested_by_mac = some (rep, ack_sn) ∧
      let (m, size) := rlcAmWriteStatusPdu ⟨ack_sn, closeNacks rep.nack_list⟩
      pdu = m.read 0 size := by
  obtain ⟨⟨rep, ack_sn⟩, hrep, h⟩ := bind_eq_some_iff.1 h
  obtain ⟨-, h⟩ := ite_none_right_eq_some.1 h
  cases h
  exact ⟨rep, ack_sn, hrep, rfl⟩

/-- For every grant, the STATUS PDU acknowledges no SN that is not marked, and no byte that has not
come is missing from the ranges of its SN. Up to 1536 bytes, the PDU is there. -/
theorem a_status_pdu_is_sound {cfg : Config} {es : List Event} {s : Entity}
    (meets : Meets step SegmentReadyFor (rlcAmConfigure cfg) es)
    (h : run step (rlcAmConfigure cfg) es = some s)
    (lone : ¬ LoneSegment s.rx.vr_r s.rx.receiver_buffer) (grant : Int) :
    (grant ≤ 1536 → (rlcAmSendStatusPdu { s with nb_bytes_requested_by_mac := grant }).isSome) ∧
      ∀ t pdu, rlcAmSendStatusPdu { s with nb_bytes_requested_by_mac := grant } = some (t, pdu) →
        ∃ info, StatusSound s.rx info ∧ let (m, size) := rlcAmWriteStatusPdu info
          pdu = m.read 0 size := by
  obtain ⟨win, reportable⟩ := reportable_run meets h
  constructor
  · intro hgrant
    exact sendStatusPdu_built win hgrant
  · intro t pdu hsend
    obtain ⟨rep, ack_sn, hrep, hpdu⟩ := sendStatusPdu_report hsend
    have sound := statusReport_sound win reportable lone hrep
    exact ⟨_, sound.opened (closeNacks_opened rep.nack_list).symm, hpdu⟩

def lastSegmentTb (sn so size : Nat) : MacTbInd := segmentTb sn (0x8000 + so) size

/-- Of SN 0 two segments with gaps, SN 1 missing, SN 2 whole. -/
def gapsRun : List Event :=
  [arrival (segmentTb 0 0 5), arrival (lastSegmentTb 0 9 3), arrival (dataTb 2)]

/-- SN 1 is missing, and of SN 0 the bytes 5 to 8. -/
theorem gapsRun_reported :
    Meets step SegmentReadyFor (rlcAmConfigure ⟨4, 4, 100, 20, 20, 20⟩) gapsRun ∧
    ∃ s, run step (rlcAmConfigure ⟨4, 4, 100, 20, 20, 20⟩) gapsRun = some s ∧
      ¬ LoneSegment s.rx.vr_r s.rx.receiver_buffer ∧
      ((statusReport s.rx 20).map fun (rep, ack_sn) => (rep.nack_list, ack_sn)) =
        some ([⟨0, true, true, 5, 8⟩, ⟨1, true, false, 0, 0x7FF⟩], 3) ∧
      (rlcAmSendStatusPdu { s with nb_bytes_requested_by_mac := 20 }).isSome ∧
      ∀ t pdu, rlcAmSendStatusPdu { s with nb_bytes_requested_by_mac := 20 } = some (t, pdu) →
        ∃ info, StatusSound s.rx info ∧ let (m, size) := rlcAmWriteStatusPdu info
          pdu = m.read 0 size := by
  have meets : Meets step SegmentReadyFor (rlcAmConfigure ⟨4, 4, 100, 20, 20, 20⟩) gapsRun := by
    decide +kernel
  obtain ⟨s, hs, lone, hreport⟩ : ∃ s, run step (rlcAmConfigure ⟨4, 4, 100, 20, 20, 20⟩) gapsRun =
      some s ∧ ¬
      LoneSegment s.rx.vr_r s.rx.receiver_buffer ∧
      ((statusReport s.rx 20).map fun (rep, ack_sn) => (rep.nack_list,
      ack_sn)) = some ([⟨0, true, true, 5, 8⟩, ⟨1, true, false, 0, 0x7FF⟩], 3) :=
        run_decided (by decide +kernel)
  obtain ⟨built, sound⟩ := a_status_pdu_is_sound meets hs lone 20
  exact ⟨meets, s, hs, lone, hreport, built (by decide), sound⟩

/-- The report acknowledges an SN that is neither marked nor NACKed. -/
def AcksUnreceived (es : List Event) (grant : Int) (sn : Nat) : Prop :=
  ∃ s rep ack_sn, run step (rlcAmConfigure ⟨4, 4, 100, 20, 20, 20⟩) es = some s ∧
    statusReport s.rx grant = some (rep, ack_sn) ∧ off 1024 s.rx.vr_r sn <
      off 1024 s.rx.vr_r ack_sn ∧
    (∀ n ∈ rep.nack_list, n.nack_sn ≠ sn) ∧
    ∀ c ∈ s.rx.receiver_buffer, c.info.sn = sn → c.all_segments_received = false

theorem acksUnreceived_of {es : List Event} {sn : Nat}
    (h : (run step (rlcAmConfigure ⟨4, 4, 100, 20, 20, 20⟩) es).any (fun s : Entity =>
      (statusReport s.rx grant).any fun (rep, ack_sn) =>
        decide (off 1024 s.rx.vr_r sn < off 1024 s.rx.vr_r ack_sn ∧
        (∀ n ∈ rep.nack_list, n.nack_sn ≠ sn) ∧
        ∀ c ∈ s.rx.receiver_buffer, c.info.sn = sn → c.all_segments_received = false))) :
    AcksUnreceived es grant sn := by
  obtain ⟨s, hs, h⟩ := (Option.any_eq_true _ _).1 h
  obtain ⟨⟨rep, ack_sn⟩, hrep, h⟩ := (Option.any_eq_true _ _).1 h
  exact ⟨s, rep, ack_sn, hs, hrep, of_decide_eq_true h⟩

/-- SN 0 comes as one segment, which is the first and the last: it is never marked, and the report
with SN 1 after it acknowledges it. With nothing but a first segment of SN 0 in the list, ACK_SN is
the SN before it, and SN 1, of which no byte has come, is acknowledged as well. -/
theorem a_status_pdu_acknowledges_what_has_not_come :
    AcksUnreceived [arrival (lastSegmentTb 0 0 5), arrival (dataTb 1)] 20 0 ∧
      AcksUnreceived [arrival (segmentTb 0 0 5)] 20 1 := by
  constructor
  all_goals exact acksUnreceived_of (by decide +kernel)

end MacRlcSplit.Am
