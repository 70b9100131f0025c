-- The receive list in its order: strictly by distance from VR(R) and by SO,
-- with the segments of one SN apart from each other. Two places of the
-- wrapped window are chosen without a look at the neighbour.
import MacRlcSplit.Am.Windows

namespace MacRlcSplit.Am

open Lib List Option

/-! ## The order -/

/-- The order of the receive list with VR(R) = `a`. -/
structure InOrder (a : Nat) (l : List RxPdu) : Prop where
  strict : l.Pairwise fun c d => c.off a < d.off a ∨ (c.off a = d.off a ∧ c.info.so < d.info.so)
  disjoint : l.Pairwise fun c d => c.info.sn = d.info.sn → c.info.lastByte < d.info.so
  alone : l.Pairwise fun c d => c.info.sn = d.info.sn → c.info.rf = true ∧ d.info.rf = true

def RxPdu.Before (c d : RxPdu) : Prop := c.info.sn = d.info.sn → c.info.lastByte < d.info.so

/-- The segments of each SN are apart, and none is empty. -/
structure Apart (l : List RxPdu) : Prop where
  before : l.Pairwise RxPdu.Before
  size : ∀ c ∈ l, c.info.rf = true → 0 < c.info.payload_size

variable {a : Nat} {x : PduInfo} {l pre post pre' post' : List RxPdu} {y : RxPdu}

theorem Apart.inOrder (h : Apart l) (ordered : Ordered a l) (ha : a < 1024) : InOrder a l := by
  refine ⟨?_, h.before, ordered.segments⟩
  refine (ordered.sorted.and (h.before.and ordered.segments)).imp_of_mem ?_
  rintro c d hc hd ⟨hle, hbefore, hsegments⟩
  rcases Nat.lt_or_eq_of_le hle with hlt | heq
  · exact .inl hlt
  -- the same SN: the first ends before the second starts, and it is not empty
  have hsn : c.info.sn = d.info.sn := off_inj ha (ordered.sn c hc).1 (ordered.sn d hd).1 heq
  have hlast := hbefore hsn
  have hsize := h.size c hc (hsegments hsn).1
  unfold PduInfo.lastByte at hlast
  exact .inr ⟨heq, by omega⟩

theorem Apart.sublist {l' : List RxPdu} (h : Apart l) (hsub : l'.Sublist l) : Apart l' :=
  ⟨h.before.sublist hsub, fun c hc => h.size c (hsub.subset hc)⟩

theorem Apart.markSn (h : Apart l) (sn : Nat) : Apart (markSn sn l) := by
  refine ⟨pairwise_markSn (R := fun c d => c.sn = d.sn → c.lastByte < d.so) h.before sn, ?_⟩
  intro c hc
  obtain ⟨d, hd, hinfo, -⟩ := mem_markSn hc
  rw [hinfo]
  exact h.size d hd

/-- A segment starts before another one and reaches into it. -/
def PduInfo.Straddles (x c : PduInfo) : Prop := x.so < c.so ∧ (c.so : Int) ≤ x.lastByte

instance (x c : PduInfo) : Decidable (x.Straddles c) :=
  inferInstanceAs (Decidable (x.so < c.so ∧ (c.so : Int) ≤ x.lastByte))

/-! ## The neighbours of a new PDU -/

/-- The new PDU is apart from both its neighbours. -/
structure Fits (x : PduInfo) (pre post : List RxPdu) : Prop where
  left : ∀ p ∈ pre.getLast?, p.info.sn = x.sn → p.info.lastByte < x.so
  right : ∀ c ∈ post.head?, c.info.sn = x.sn → x.lastByte < c.info.so

theorem Fits.apart (fits : Fits x pre post) (placed : Placed a x l pre post) (ordered : Ordered a l)
    (ha : a < 1024) (sn : x.sn < 1024) (apart : Apart l) (info : y.info = x)
    (size : x.rf → 0 < x.payload_size) :
    Apart (pre ++ y :: post) := by
  obtain ⟨fpre, fpost⟩ := placed.front ordered ha sn
  have segments := placed.segments
  obtain ⟨split, -, -, -, -⟩ := placed
  subst split
  obtain ⟨bpre, bpost, -⟩ := pairwise_append.1 apart.before
  have same : ∀ {c : RxPdu}, sameSn x.sn c ↔ c.info.sn = x.sn := by
    intro c
    simp [sameSn]
  have left : ∀ p ∈ pre, p.info.sn = x.sn → p.info.lastByte < x.so := by
    intro p hp hsn
    obtain ⟨q, hq, hqsn⟩ := fpre.head (mem_reverse.2 hp) (same.2 hsn)
    rw [head?_reverse] at hq
    have hlast := fits.left q hq (same.1 hqsn)
    obtain ⟨init, hinit⟩ := getLast?_eq_some_iff.1 hq
    rw [hinit] at hp bpre
    rcases mem_append.1 hp with hp | hp
    · -- `p` ends before `q` starts
      have hpq := (pairwise_append.1 bpre).2.2 p hp q mem_cons_self (hsn.trans (same.1 hqsn).symm)
      have hqmem : q ∈ pre ++ post := mem_append_left post (mem_of_getLast? hq)
      have hsize := apart.size q hqmem (segments q hqmem (same.1 hqsn)).1
      unfold PduInfo.lastByte at *
      omega
    · rw [mem_singleton.1 hp]
      exact hlast
  have right : ∀ c ∈ post, c.info.sn = x.sn → x.lastByte < c.info.so := by
    intro c hc hsn
    obtain ⟨d, hd, hdsn⟩ := fpost.head hc (same.2 hsn)
    have hfirst := fits.right d hd (same.1 hdsn)
    obtain ⟨t, rfl⟩ := head?_eq_some_iff.1 hd
    rcases mem_cons.1 hc with rfl | hc
    · exact hfirst
    -- `c` starts after `d` ends
    have hdc := (pairwise_cons.1 bpost).1 c hc ((same.1 hdsn).trans hsn.symm)
    have hdmem : d ∈ pre ++ d :: t := mem_append_right pre mem_cons_self
    have hsize := apart.size d hdmem (segments d hdmem (same.1 hdsn)).1
    unfold PduInfo.lastByte at *
    omega
  refine ⟨pairwise_insert apart.before ?_ ?_, ?_⟩
  · intro p hp
    rw [RxPdu.Before, info]
    exact left p hp
  · intro c hc
    rw [RxPdu.Before, info]
    exact fun heq => right c hc heq.symm
  · intro c hc
    rcases mem_cons.1 (perm_middle.mem_iff.1 hc) with rfl | hc
    · rw [info]
      exact size
    · exact apart.size c hc

/-! ## Insertion -/

/-- What the code needs of a PDU with header `x` to keep the list in its order. In a wrapped window
it must not come before a list that lies below VR(R); a segment below VR(R) must not start before a
segment of its SN and reach into it; and one from VR(R) on must not start inside one. -/
structure ListReady (rx : Rx) (x : PduInfo) : Prop where
  first : rx.vr_mr < rx.vr_r → x.sn < rx.vr_r →
    ∀ c ∈ rx.receiver_buffer.head?, ¬ (x.sn < c.info.sn ∧ c.info.sn < rx.vr_r)
  low : rx.vr_mr < rx.vr_r → x.sn < rx.vr_r → ∀ c ∈ rx.receiver_buffer, c.info.sn = x.sn →
    ¬ x.Straddles c.info
  high : rx.vr_mr < rx.vr_r → rx.vr_r ≤ x.sn → ∀ c ∈ rx.receiver_buffer, c.info.sn = x.sn →
    ¬ c.info.Straddles x
  size : x.rf = true → 0 < x.payload_size

instance (rx : Rx) (x : PduInfo) : Decidable (ListReady rx x) :=
  decidable_of_iff (_ ∧ _ ∧ _ ∧ _) ⟨fun h => ⟨h.1, h.2.1, h.2.2.1, h.2.2.2⟩,
    fun h => ⟨h.first, h.low, h.high, h.size⟩⟩

variable {rx rx' : Rx} {tb : MacTbInd} {s : Entity} {e : Event}

theorem ListReady.rxReady (h : ListReady rx x) : RxReady rx x :=
  ⟨h.first, fun hrf => Int.le_of_lt (h.size hrf)⟩

theorem insertPdu_fits (placed : Placed rx.vr_r x rx.receiver_buffer pre post)
    (ready : ListReady rx x)
    (h : rlcAmRxListInsertPdu rx x = some (pre, post)) : Fits x pre post := by
  unfold rlcAmRxListInsertPdu at h
  split at h
  · next hwrap =>
    split at h
    · next hhigh =>
      obtain ⟨-, stops⟩ := insertHigh_stops (by simp) h
      refine ⟨fun p hp hsn => ?_, fun c hc hsn => ?_⟩
      · rcases stops.left with - | left
        · -- the way ended without a look at `p`, which starts before the new one
          have hso := ((stops.passed p (mem_of_getLast? hp)).2 hsn).2.2
          have hmem : p ∈ rx.receiver_buffer :=
            placed.split ▸ mem_append_left post (mem_of_getLast? hp)
          by_contra hlast
          exact ready.high hwrap hhigh p hmem hsn ⟨hso, by omega⟩
        · exact left p hp hsn
      · exact ((stops.right c hc).resolve_left (by omega)).2.2.2
    · next hlow =>
      have hx : x.sn < rx.vr_r := by omega
      obtain ⟨-, stops⟩ := insertLow_stops (by simp) (by simpa using ready.first hwrap hx) h
      refine ⟨fun p hp hsn => ((stops.left p hp).resolve_left (by omega)).2.2.2.1, ?_⟩
      intro c hc hsn
      rcases placed.fits c hc hsn with ⟨hend, -⟩ | ⟨hso, -⟩
      · exact hend
      · have hmem : c ∈ rx.receiver_buffer :=
          placed.split ▸ mem_append_right pre (mem_of_mem_head? hc)
        by_contra hlast
        exact ready.low hwrap hx c hmem hsn ⟨hso, by omega⟩
  · obtain ⟨-, stops⟩ := insertPlain_stops (by simp) h
    exact ⟨stops.left.resolve_left (by simp), fun c hc hsn =>
      ((stops.right c hc).resolve_left (by omega)).2.2.2⟩

/-! ## A data PDU -/

/-- What marks and shorter lists leave alone is so after a PDU is placed. -/
theorem rxPlaced_keeps {P : List RxPdu → Prop} (mark : ∀ l sn, P l → P (markSn sn l))
    (shorter : ∀ l l', l <+ l' → P l' → P l) (win : RxWin rx) (sn : x.sn < 1024)
    (placed : Placed rx.vr_r x rx.receiver_buffer pre post) (info : y.info = x)
    (hP : P (pre ++ y :: post))
    (h : rxPlaced rx pre y post = some rx') : P rx'.receiver_buffer := by
  obtain ⟨p, q, popped, hcheck, hsplit, -⟩ := rxPlaced_buffer h
  have checked : P (p ++ q) := by
    rcases placed.check_spec win.kept win.vr_r sn info with ⟨-, heval⟩ | ⟨-, heval⟩
    · obtain ⟨rfl, rfl⟩ := Prod.mk.inj (heval.symm.trans hcheck)
      rw [← markSn_append]
      exact mark _ x.sn hP
    · obtain ⟨rfl, rfl⟩ := Prod.mk.inj (heval.symm.trans hcheck)
      exact hP
  rw [hsplit] at checked
  exact shorter _ _ (sublist_append_right popped _) checked

theorem rxPlaced_apart (win : RxWin rx) (sn : x.sn < 1024)
    (placed : Placed rx.vr_r x rx.receiver_buffer pre post) (info : y.info = x)
    (apart : Apart (pre ++ y :: post)) (h : rxPlaced rx pre y post = some rx') :
    Apart rx'.receiver_buffer :=
  rxPlaced_keeps (fun _ sn h => h.markSn sn) (fun _ _ hsub h =>
    h.sublist hsub) win sn placed info apart h

theorem processDataPdu_buffer {ctxt : Ctxt} (h : rlcAmReceiveProcessDataPdu rx ctxt tb = some rx') :
    rx'.receiver_buffer = rx.receiver_buffer ∨ ∃ x pre post rx₁,
      rlcAmGetDataPduInfos tb.data (tb.size % 2 ^ 16 : Nat) = some x ∧ rlcAmInRxWindow rx x.sn ∧
        rlcAmRxListInsertPdu rx x = some (pre, post) ∧
        rxPlaced { rx with status_requested := rx.status_requested || x.p } pre
          { info := x, data := tb.data } post = some rx₁ ∧
        rx'.receiver_buffer = rx₁.receiver_buffer := by
  unfold rlcAmReceiveProcessDataPdu at h
  split at h
  · cases h
    exact .inl rfl
  next x hinfo =>
  split at h
  · next hin =>
    dsimp only at h
    split at h
    · cases h
      exact .inl rfl
    next pre post hins =>
    obtain ⟨rx₁, h₁, rfl⟩ := map_eq_some_iff.1 h
    refine .inr ⟨x, pre, post, rx₁, hinfo, hin, hins, h₁, ?_⟩
    unfold rxReordering
    extract_lets t
    split <;> rfl
  · cases h
    exact .inl rfl

theorem processDataPdu_apart {ctxt : Ctxt} (win : RxWin rx) (apart : Apart rx.receiver_buffer)
    (ready : ∀ x ∈ rlcAmGetDataPduInfos tb.data (tb.size % 2 ^ 16 : Nat), ListReady rx x)
    (h : rlcAmReceiveProcessDataPdu rx ctxt tb = some rx') : Apart rx'.receiver_buffer := by
  rcases processDataPdu_buffer h with heq | ⟨x, pre, post, rx₁, hinfo, hin, hins, h₁, heq⟩
  · rw [heq]
    exact apart
  rw [heq]
  obtain ⟨sn, window⟩ := (inRxWindow_iff win).1 hin
  have hready := ready x hinfo
  have placed := insertPdu_placed win.vr_r win.vr_mr win.kept.toOrdered sn window hready.first hins
  have inserted :=
    (insertPdu_fits placed hready hins).apart placed win.kept.toOrdered win.vr_r sn apart
    (y := { info := x, data := tb.data }) rfl hready.size
  have win' : RxWin { rx with status_requested := rx.status_requested || x.p } := win.of_eq rfl
  exact rxPlaced_apart win' sn placed rfl inserted h₁

/-! ## Runs -/

/-- A data PDU that arrives is one that the list is ready for. -/
def ListReadyFor (s : Entity) : Event → Prop
  | .macDataIndication _ tb => (tb.data 0).toNat / 128 = 1 →
    ∀ x ∈ rlcAmGetDataPduInfos tb.data (tb.size % 2 ^ 16 : Nat), ListReady s.rx x
  | _ => True

instance (s : Entity) (e : Event) : Decidable (ListReadyFor s e) := by
  rcases e with ⟨⟩ <;> dsimp only [ListReadyFor] <;> infer_instance

theorem ListReadyFor.readyFor (h : ListReadyFor s e) : ReadyFor s e := by
  cases e with
  | macDataIndication ctxt tb => exact fun hdata x hx => (h hdata x hx).rxReady
  | dataReq | macStatusIndication | macDataRequest => trivial

theorem checkTimers_buffer (s : Entity) (ctxt : Ctxt) :
    (checkTimers s ctxt).rx.receiver_buffer = s.rx.receiver_buffer := by
  have reordering : (rlcAmCheckTimerReordering s.rx ctxt).receiver_buffer =
      s.rx.receiver_buffer := by
    unfold rlcAmCheckTimerReordering
    split
    · dsimp only
      split <;> rfl
    · rfl
  unfold checkTimers rlcAmCheckTimerStatusProhibit
  split
  · split <;> exact reordering
  · rfl

theorem step_buffer {s' : Entity} (hs : step s e = some s') :
    s'.rx.receiver_buffer = s.rx.receiver_buffer ∨ ∃ ctxt tb, e = .macDataIndication ctxt tb ∧
      (tb.data 0).toNat / 128 = 1 ∧ rlcAmReceiveProcessDataPdu s.rx ctxt tb = some s'.rx := by
  rcases (step_rx hs).2 with hrx | ⟨ctxt, hrx⟩ | ⟨requested, t, hrx⟩ | hrx
  · exact .inl (hrx ▸ rfl)
  · exact .inl (hrx ▸ checkTimers_buffer s ctxt)
  · exact .inl (hrx ▸ rfl)
  · exact .inr hrx

/-- The receive window, with the segments of its list apart. -/
def RxTidy (s : Entity) : Prop := RxSide s ∧ Apart s.rx.receiver_buffer

theorem step_rxTidy {s' : Entity} (h : RxTidy s) (ready : ListReadyFor s e)
    (hs : step s e = some s') : RxTidy s' := by
  refine ⟨step_rxSide h.1 ready.readyFor hs, ?_⟩
  rcases step_buffer hs with heq | ⟨ctxt, tb, rfl, hdata, hrx⟩
  · rw [heq]
    exact h.2
  · exact processDataPdu_apart h.1.1 h.2 (ready hdata) hrx

theorem rxTidy_run {cfg : Config} {es : List Event}
    (meets : Meets step ListReadyFor (rlcAmConfigure cfg) es)
    (h : run step (rlcAmConfigure cfg) es = some s) : RxTidy s := by
  have keep : ∀ s e t, RxTidy s → ListReadyFor s e → step s e = some t → RxTidy t :=
    fun s e t tidy ready hs => step_rxTidy tidy ready hs
  have start : RxTidy (rlcAmConfigure cfg) :=
    ⟨⟨rxWin_configure cfg, (by decide : 0 < 1024)⟩, ⟨.nil, fun _ => nofun⟩⟩
  exact run_invariant keep start meets h

/-- In every run in which the list is ready for each data PDU, the list is in order, and so it is
with one more PDU of the window that it is ready for; a PDU that is not inserted leaves the list as
it was. -/
theorem the_receive_list_stays_in_order {cfg : Config} {es : List Event} {s : Entity}
    (meets : Meets step ListReadyFor (rlcAmConfigure cfg) es)
    (h : run step (rlcAmConfigure cfg) es = some s) : InOrder s.rx.vr_r s.rx.receiver_buffer ∧
      ∀ (ctxt : Ctxt) (tb : MacTbInd) (x : PduInfo),
        rlcAmGetDataPduInfos tb.data (tb.size % 2 ^ 16 : Nat) = some x →
        rlcAmInRxWindow s.rx x.sn = true →
        (∀ pre post, rlcAmRxListInsertPdu s.rx x = some (pre, post) → ListReady s.rx x →
          pre ++ post = s.rx.receiver_buffer ∧
          InOrder s.rx.vr_r (pre ++ { info := x, data := tb.data } :: post)) ∧
        (rlcAmRxListInsertPdu s.rx x = none → ∃ rx, rlcAmReceiveProcessDataPdu s.rx ctxt tb =
          some rx ∧ rx.receiver_buffer = s.rx.receiver_buffer) := by
  obtain ⟨⟨win, -⟩, apart⟩ := rxTidy_run meets h
  refine ⟨apart.inOrder win.kept.toOrdered win.vr_r, ?_⟩
  intro ctxt tb x hinfo hin
  obtain ⟨sn, window⟩ := (inRxWindow_iff win).1 hin
  constructor
  · intro pre post hins ready
    have placed := insertPdu_placed win.vr_r win.vr_mr win.kept.toOrdered sn window ready.first hins
    have fits := insertPdu_fits placed ready hins
    have inserted := fits.apart placed win.kept.toOrdered win.vr_r sn apart
      (y := { info := x, data := tb.data }) rfl ready.size
    exact ⟨placed.split,
      inserted.inOrder (placed.ordered win.kept.toOrdered rfl sn window) win.vr_r⟩
  · intro hins
    unfold rlcAmReceiveProcessDataPdu
    rw [hinfo]
    dsimp only
    rw [if_pos hin]
    have hins' : rlcAmRxListInsertPdu { s.rx with status_requested := s.rx.status_requested || x.p }
        x = none := hins
    rw [hins']
    exact ⟨_, rfl, rfl⟩

instance (a : Nat) (l : List RxPdu) : Decidable (InOrder a l) :=
  decidable_of_iff (_ ∧ _ ∧ _) ⟨fun h => ⟨h.1, h.2.1, h.2.2⟩,
    fun h => ⟨h.strict, h.disjoint, h.alone⟩⟩

def segmentTb (sn so size : Nat) : MacTbInd where
  data := fun
    | 0 => UInt8.ofNat (192 + sn / 256)
    | 1 => UInt8.ofNat sn
    | 2 => UInt8.ofNat (so / 256)
    | 3 => UInt8.ofNat so
    | _ => 7
  size := size + 4

def arrival (tb : MacTbInd) : Event := .macDataIndication ⟨1, 0⟩ tb

/-- SN 2, then two segments of SN 1, the second one first. -/
def segmentsRun : List Event :=
  [arrival (dataTb 2), arrival (segmentTb 1 5 3), arrival (segmentTb 1 0 5)]

theorem segmentsRun_in_order :
    Meets step ListReadyFor (rlcAmConfigure ⟨4, 4, 100, 20, 20, 20⟩) segmentsRun ∧
    ∃ s, run step (rlcAmConfigure ⟨4, 4, 100, 20, 20, 20⟩) segmentsRun = some s ∧
      s.rx.receiver_buffer.map (fun c => (c.info.sn, c.info.so)) = [(1, 0), (1, 5), (2, 0)] ∧
      InOrder s.rx.vr_r s.rx.receiver_buffer := by
  have meets : Meets step ListReadyFor (rlcAmConfigure ⟨4, 4, 100, 20, 20, 20⟩) segmentsRun := by
    decide +kernel
  obtain ⟨s, hs, list⟩ : ∃ s, run step (rlcAmConfigure ⟨4, 4, 100, 20, 20, 20⟩) segmentsRun =
      some s ∧
      s.rx.receiver_buffer.map (fun c => (c.info.sn, c.info.so)) = [(1, 0), (1, 5), (2, 0)] :=
        run_decided
      (by decide +kernel)
  exact ⟨meets, s, hs, list, (the_receive_list_stays_in_order meets hs).1⟩

/-- The run puts the list into its order, and one more PDU takes it out of it. -/
def Disorders (es : List Event) (tb : MacTbInd) : Prop :=
  ∃ s t, run step (rlcAmConfigure ⟨4, 4, 100, 20, 20, 20⟩) es = some s ∧
    InOrder s.rx.vr_r s.rx.receiver_buffer ∧
    step s (arrival tb) = some t ∧ ¬ InOrder t.rx.vr_r t.rx.receiver_buffer

theorem disorders_of {es : List Event}
    (h : (run step (rlcAmConfigure ⟨4, 4, 100, 20, 20, 20⟩) es).any (fun s : Entity =>
      decide (InOrder s.rx.vr_r s.rx.receiver_buffer) && (step s (arrival tb)).any fun t : Entity =>
        decide (¬ InOrder t.rx.vr_r t.rx.receiver_buffer)) = true) : Disorders es tb := by
  obtain ⟨s, hs, h⟩ := (Option.any_eq_true _ _).1 h
  obtain ⟨hbefore, h⟩ := Bool.and_eq_true_iff.1 h
  obtain ⟨t, ht, hafter⟩ := (Option.any_eq_true _ _).1 h
  exact ⟨s, t, hs, of_decide_eq_true hbefore, ht, of_decide_eq_true hafter⟩

/-- With VR(R) = 514: SN 0 is added to the tail, after SN 1; a segment of SN 0 is inserted before
one that it reaches into; and so is a segment of SN 600 that starts inside the one before it. -/
theorem the_receive_list_loses_its_order : Disorders (dataRun (List.range 514 ++ [1])) (dataTb 0) ∧
      Disorders (dataRun (List.range 514 ++ [600]) ++ [arrival (segmentTb 0 5 3)])
        (segmentTb 0 0 10) ∧
      Disorders (dataRun (List.range 514) ++ [arrival (segmentTb 600 0 5), arrival (dataTb 0)])
        (segmentTb 600 3 5) := by
  refine ⟨disorders_of ?_, disorders_of ?_, disorders_of ?_⟩
  all_goals decide +kernel

end MacRlcSplit.Am
