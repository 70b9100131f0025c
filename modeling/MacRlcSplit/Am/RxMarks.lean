-- The segments that the receive list holds: the last segment flag stands only
-- on the last of an SN, and an SN that is complete is marked. The check does
-- not look at the flag of the first segment, so that a PDU that comes as one
-- segment is never marked.
import MacRlcSplit.Am.RxOrder

namespace MacRlcSplit.Am

open Lib List

/-! ## Segments -/

/-- What is asked of a segment for itself: it is not the whole PDU, and it does not end at the SO
that stands for the end of a PDU without being the last. -/
structure PduInfo.Regular (x : PduInfo) : Prop where
  so : x.so < 0x8000
  flagged : x.lsf = true → x.rf = true
  part : x.rf = true → x.so = 0 → x.lsf = false
  inner : x.rf = true → x.lsf = false → x.so + x.payload_size ≠ 0x7FFF

/-- The segments of a list: regular, and with the last segment flag only on the last one of an
SN. -/
structure Segmented (l : List RxPdu) : Prop where
  regular : ∀ c ∈ l, c.info.Regular
  last : l.Pairwise fun c d => c.info.sn = d.info.sn → c.info.lsf = false

/-- What is not marked is not complete. -/
def Unmarked (l : List RxPdu) : Prop :=
  ∀ c ∈ l, c.all_segments_received = false → ¬ Complete c.info.sn (group c.info.sn l)

variable {a : Nat} {x : PduInfo} {l pre post : List RxPdu} {y : RxPdu}

theorem Segmented.sublist {l' : List RxPdu} (h : Segmented l)
    (hsub : l'.Sublist l) : Segmented l' :=
  ⟨fun c hc => h.regular c (hsub.subset hc), h.last.sublist hsub⟩

theorem Segmented.markSn (h : Segmented l) (sn : Nat) : Segmented (markSn sn l) := by
  refine ⟨?_, pairwise_markSn (R := fun c d => c.sn = d.sn → c.lsf = false) h.last sn⟩
  intro c hc
  obtain ⟨d, hd, hinfo, -⟩ := mem_markSn hc
  rw [hinfo]
  exact h.regular d hd

/-- What a new segment must be for the list: regular, before a held last segment of its SN, and, as
the last one, after all held segments of its SN. -/
structure SegmentReady (rx : Rx) (x : PduInfo) : Prop extends ListReady rx x where
  part : x.rf = true → x.so = 0 → x.lsf = false
  inner : x.rf = true → x.lsf = false → x.so + x.payload_size ≠ 0x7FFF
  before : ∀ c ∈ rx.receiver_buffer, c.info.sn = x.sn → c.info.lsf = true → x.so < c.info.so
  after : x.lsf = true → ∀ c ∈ rx.receiver_buffer, c.info.sn = x.sn → c.info.so < x.so

instance (rx : Rx) (x : PduInfo) : Decidable (SegmentReady rx x) :=
  decidable_of_iff (_ ∧ _ ∧ _ ∧ _ ∧ _) ⟨fun h => ⟨h.1, h.2.1, h.2.2.1, h.2.2.2.1, h.2.2.2.2⟩,
    fun h => ⟨h.toListReady, h.part, h.inner, h.before, h.after⟩⟩

theorem SegmentReady.regular {rx : Rx} {m : Mem} {size : Int} (ready : SegmentReady rx x)
    (h : rlcAmGetDataPduInfos m size = some x) : x.Regular := by
  have decoded : x.so < 0x8000 ∧ (x.lsf → x.rf) := by
    unfold rlcAmGetDataPduInfos at h
    dsimp only at h
    split at h
    · cases h
    obtain ⟨lis, -, rfl⟩ := Option.map_eq_some_iff.1 h
    dsimp only
    refine ⟨?_, fun hlsf => ?_⟩
    · have h3 := (m 3).toNat_lt
      split <;> omega
    · rw [decide_eq_true_eq] at hlsf
      exact hlsf.1
  exact ⟨decoded.1, decoded.2, ready.part, ready.inner⟩

theorem Segmented.insert (h : Segmented (pre ++ post)) (apart : Apart (pre ++ y :: post))
    (regular : y.info.Regular)
    (before : ∀ c ∈ pre ++ post, c.info.sn = y.info.sn → c.info.lsf → y.info.so < c.info.so)
    (after : y.info.lsf → ∀ c ∈ pre ++ post, c.info.sn = y.info.sn → c.info.so < y.info.so) :
    Segmented (pre ++ y :: post) := by
  obtain ⟨-, bpost, bboth⟩ := pairwise_append.1 apart.before
  refine ⟨?_, pairwise_insert h.last ?_ ?_⟩
  · intro c hc
    rcases mem_cons.1 (perm_middle.mem_iff.1 hc) with rfl | hc
    · exact regular
    · exact h.regular c hc
  · intro p hp hsn
    rw [← Bool.not_eq_true]
    intro hlsf
    have hmem := mem_append_left post hp
    have hso := before p hmem hsn hlsf
    have hend := bboth p hp y mem_cons_self hsn
    have hsize := apart.size p (mem_append_left _ hp) ((h.regular p hmem).flagged hlsf)
    unfold PduInfo.lastByte at hend
    omega
  · -- as the last segment it would come after `c`, but it ends before `c`
    intro c hc hsn
    rw [← Bool.not_eq_true]
    intro hlsf
    have hso := after hlsf c (mem_append_right pre hc) hsn.symm
    have hend := (pairwise_cons.1 bpost).1 c hc hsn
    have hsize := apart.size y (mem_append_right pre mem_cons_self) (regular.flagged hlsf)
    unfold PduInfo.lastByte at hend
    omega

/-! ## Marks -/

theorem Placed.checked_unmarked (placed : Placed a x l pre post) (kept : Kept a l) (ha : a < 1024)
    (sn : x.sn < 1024) (info : y.info = x) (unmarked : Unmarked l) {p q : List RxPdu}
    (h : rlcAmRxCheckAllByteSegments pre y post = (p, q)) : Unmarked (p ++ q) := by
  have hysn : y.info.sn = x.sn := by rw [info]
  have other : ∀ c ∈ pre ++ y :: post, c.info.sn ≠ x.sn → c.all_segments_received = false →
      ¬ Complete c.info.sn (group c.info.sn (pre ++ y :: post)) := by
    intro c hc hne hmark
    rw [placed.group_other hysn hne]
    rcases placed.mem hc with rfl | hold
    · exact absurd hysn hne
    · exact unmarked c hold hmark
  rcases placed.check_spec kept ha sn info with ⟨-, heval⟩ | ⟨incomplete, heval⟩
  · obtain ⟨rfl, rfl⟩ := Prod.mk.inj (heval.symm.trans h)
    rw [← markSn_append]
    intro c hc hmark
    obtain ⟨d, hd, hinfo, hsame, heq⟩ := mem_markSn hc
    by_cases hsn : d.info.sn = x.sn
    · rw [hsame hsn] at hmark
      cases hmark
    · rw [heq hsn] at hmark ⊢
      rw [group_markSn, if_neg hsn]
      exact other d hd hsn hmark
  · obtain ⟨rfl, rfl⟩ := Prod.mk.inj (heval.symm.trans h)
    intro c hc hmark
    by_cases hsn : c.info.sn = x.sn
    · rw [hsn]
      exact incomplete
    · exact other c hc hsn hmark

theorem Unmarked.of_popped {popped left : List RxPdu} (h : Unmarked l) (kept : Kept a l)
    (hsplit : l = popped ++ left)
    (marked : ∀ p ∈ popped, p.all_segments_received) : Unmarked left := by
  intro c hc hmark
  have hmem : c ∈ l := hsplit ▸ mem_append_right popped hc
  have none_left : group c.info.sn popped = [] := by
    rw [eq_nil_iff_forall_not_mem]
    intro p hp
    obtain ⟨hp, hsn⟩ := mem_group.1 hp
    have hwhole := kept.whole p (hsplit ▸ mem_append_left left hp) (marked p hp)
    rw [hwhole.1 c hmem hsn.symm] at hmark
    cases hmark
  have hgroup : group c.info.sn l = group c.info.sn left := by
    rw [hsplit, group_append, none_left, nil_append]
  rw [← hgroup]
  exact h c hmem hmark

/-! ## A data PDU -/

/-- The list of a receiver that a STATUS PDU is built from. -/
structure Reportable (l : List RxPdu) : Prop where
  apart : Apart l
  segmented : Segmented l
  unmarked : Unmarked l

theorem rxPlaced_reportable {rx rx' : Rx} (win : RxWin rx) (sn : x.sn < 1024)
    (window : off 1024 rx.vr_r x.sn < 512) (size : x.rf → 0 ≤ x.payload_size)
    (placed : Placed rx.vr_r x rx.receiver_buffer pre post) (info : y.info = x)
    (fresh : y.all_segments_received = false) (apart : Apart (pre ++ y :: post))
    (segmented : Segmented (pre ++ y :: post)) (unmarked : Unmarked rx.receiver_buffer)
    (h : rxPlaced rx pre y post = some rx') :
    Reportable rx'.receiver_buffer := by
  obtain ⟨p, q, popped, hcheck, hsplit, marked⟩ := rxPlaced_buffer h
  refine ⟨rxPlaced_apart win sn placed info apart h,
    rxPlaced_keeps (fun _ sn h => h.markSn sn) (fun _ _ hsub h =>
      h.sublist hsub) win sn placed info segmented h, ?_⟩
  have checked := placed.checked_unmarked win.kept win.vr_r sn info unmarked hcheck
  have kept := (placed.checked win.kept win.vr_r sn window size info fresh hcheck).1
  exact checked.of_popped kept hsplit marked

theorem processDataPdu_reportable {rx rx' : Rx} {ctxt : Ctxt} {tb : MacTbInd} (win : RxWin rx)
    (reportable : Reportable rx.receiver_buffer)
    (ready : ∀ x ∈ rlcAmGetDataPduInfos tb.data (tb.size % 2 ^ 16 : Nat), SegmentReady rx x)
    (h : rlcAmReceiveProcessDataPdu rx ctxt tb = some rx') : Reportable rx'.receiver_buffer := by
  rcases processDataPdu_buffer h with heq | ⟨x, pre, post, rx₁, hinfo, hin, hins, h₁, heq⟩
  · rw [heq]
    exact reportable
  rw [heq]
  obtain ⟨sn, window⟩ := (inRxWindow_iff win).1 hin
  have hready := ready x hinfo
  have placed := insertPdu_placed win.vr_r win.vr_mr win.kept.toOrdered sn window hready.first hins
  have apart :=
    (insertPdu_fits placed hready.toListReady hins).apart placed win.kept.toOrdered win.vr_r sn
    reportable.apart (y := { info := x, data := tb.data }) rfl hready.size
  have segmented : Segmented (pre ++ { info := x, data := tb.data } :: post) := by
    refine Segmented.insert (by rw [placed.split]; exact reportable.segmented) apart
      (hready.regular hinfo) ?_ ?_
    · rw [placed.split]
      exact hready.before
    · rw [placed.split]
      exact hready.after
  have win' : RxWin { rx with status_requested := rx.status_requested || x.p } := win.of_eq rfl
  exact rxPlaced_reportable win' sn window (fun hrf =>
    Int.le_of_lt (hready.size hrf)) placed rfl rfl apart segmented reportable.unmarked h₁

/-! ## Runs -/

/-- A data PDU that arrives is one that the list and the segments it holds are ready for. -/
def SegmentReadyFor (s : Entity) : Event → Prop
  | .macDataIndication _ tb => (tb.data 0).toNat / 128 = 1 →
    ∀ x ∈ rlcAmGetDataPduInfos tb.data (tb.size % 2 ^ 16 : Nat), SegmentReady s.rx x
  | _ => True

instance (s : Entity) (e : Event) : Decidable (SegmentReadyFor s e) := by
  rcases e with ⟨⟩ <;> dsimp only [SegmentReadyFor] <;> infer_instance

theorem SegmentReadyFor.readyFor {s : Entity} {e : Event}
    (h : SegmentReadyFor s e) : ReadyFor s e := by
  cases e with
  | macDataIndication ctxt tb => exact fun hdata x hx => (h hdata x hx).toListReady.rxReady
  | dataReq | macStatusIndication | macDataRequest => trivial

theorem reportable_run {cfg : Config} {es : List Event} {s : Entity}
    (meets : Meets step SegmentReadyFor (rlcAmConfigure cfg) es)
    (h : run step (rlcAmConfigure cfg) es = some s) :
    RxWin s.rx ∧ Reportable s.rx.receiver_buffer := by
  have keep : ∀ s e t, (RxSide s ∧ Reportable s.rx.receiver_buffer) → SegmentReadyFor s e →
      step s e = some t → RxSide t ∧ Reportable t.rx.receiver_buffer := by
    rintro s e t ⟨side, reportable⟩ ready hs
    refine ⟨step_rxSide side ready.readyFor hs, ?_⟩
    rcases step_buffer hs with heq | ⟨ctxt, tb, rfl, hdata, hrx⟩
    · rw [heq]
      exact reportable
    · exact processDataPdu_reportable side.1 reportable (ready hdata) hrx
  have start : RxSide (rlcAmConfigure cfg) ∧ Reportable (rlcAmConfigure cfg).rx.receiver_buffer :=
    ⟨⟨rxWin_configure cfg, (by decide : 0 < 1024)⟩,
      ⟨⟨.nil, fun _ => nofun⟩, ⟨fun _ => nofun, .nil⟩, fun _ => nofun⟩⟩
  obtain ⟨side, reportable⟩ := run_invariant keep start meets h
  exact ⟨side.1, reportable⟩

end MacRlcSplit.Am
