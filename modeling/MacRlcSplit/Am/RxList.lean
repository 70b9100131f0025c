-- The sorted list of received PDUs: where `rlc_am_rx_list_insert_pdu` puts a
-- new one, and what `rlc_am_rx_check_all_byte_segments` marks. SNs are
-- compared by their distance from VR(R).
import MacRlcSplit.Am.Receiver
import MacRlcSplit.Lib.Front
import MacRlcSplit.Lib.Window

namespace MacRlcSplit.Am

open Lib List

/-! ## Insertion -/

/-- How far the SN of an element is after `a`. -/
def RxPdu.off (a : Nat) (c : RxPdu) : Nat := Lib.off 1024 a c.info.sn

/-- A list that is in order: by SN from `a` on, with several elements of one SN only when all
of them are segments. -/
structure Ordered (a : Nat) (l : List RxPdu) : Prop where
  sn : ∀ c ∈ l, c.info.sn < 1024 ∧ c.off a < 512
  sorted : l.Pairwise fun c d => c.off a ≤ d.off a
  segments : l.Pairwise fun c d => c.info.sn = d.info.sn → c.info.rf = true ∧ d.info.rf = true

/-- A place for the new PDU `x` in the list: between smaller and greater SNs, and, inside the
segments of its own SN, without overlap. The last case is a place before all of them. -/
structure Placed (a : Nat) (x : PduInfo) (l pre post : List RxPdu) : Prop where
  split : pre ++ post = l
  before : ∀ c ∈ pre, c.off a ≤ Lib.off 1024 a x.sn
  after : ∀ c ∈ post, Lib.off 1024 a x.sn ≤ c.off a
  segments : ∀ c ∈ l, c.info.sn = x.sn → c.info.rf = true ∧ x.rf = true
  fits : ∀ c ∈ post.head?, c.info.sn = x.sn →
    (x.lastByte < c.info.so ∧ ∀ p ∈ pre.getLast?, p.info.sn = x.sn → p.info.lastByte < x.so) ∨
    (x.so < c.info.so ∧ ∀ p ∈ pre, p.info.sn ≠ x.sn)

variable {a : Nat} {x : PduInfo} {l pre post : List RxPdu}

variable {c : RxPdu} {prev : Option RxPdu} {pre' post' : List RxPdu}

/-- The test at a segment of the same SN, in either direction: what it says when the new PDU is not
dropped. -/
theorem same_spec {c : PduInfo} {ends stops : Prop} {past : RxPdu → Prop} [Decidable ends]
    [Decidable stops] [DecidablePred past] {w : Same}
    (h : (if c.rf = false then .drop
      else if x.rf then
        if ends then
          match prev with
          | none => .insert
          | some p => if past p then .drop else .insert
        else if stops then .drop else .next
      else .drop) = w) (hw : w ≠ .drop) :
    c.rf ∧ x.rf ∧ if w = .insert then ends ∧ ∀ p ∈ prev, ¬ past p else ¬ ends ∧ ¬ stops := by
  split_ifs at h with hc hx hend hstop
  · exact absurd h.symm hw
  · refine ⟨by simpa using hc, hx, ?_⟩
    cases prev with
    | none =>
      subst h
      exact ⟨hend, nofun⟩
    | some p =>
      dsimp only at h
      split_ifs at h with hover
      · exact absurd h.symm hw
      · subst h
        exact ⟨hend, by rintro _ ⟨⟩; exact hover⟩
  · exact absurd h.symm hw
  · subst h
    exact ⟨by simpa using hc, hx, hend, hstop⟩
  · exact absurd h.symm hw

/-! ## The way forward -/

/-- An element that the way forward passes. -/
def Passes (x : PduInfo) (stop : RxPdu → Prop) (c : RxPdu) : Prop :=
  ¬ stop c ∧ (c.info.sn = x.sn → c.info.rf = true ∧ x.rf = true ∧ c.info.so < x.so)

/-- Where the way forward ends: at the end of the list, at an element that stops it, or before a
segment of the same SN. At a `blind` element it stops without a look at the one before. -/
structure Stops (x : PduInfo) (stop blind : RxPdu → Prop) (pre post : List RxPdu) : Prop where
  passed : ∀ c ∈ pre, Passes x stop c
  left : (∃ c ∈ post.head?, blind c) ∨ ∀ p ∈ pre.getLast?, p.info.sn = x.sn → p.info.lastByte < x.so
  right : ∀ c ∈ post.head?, stop c ∨ c.info.sn = x.sn ∧ c.info.rf = true ∧ x.rf = true ∧
    x.lastByte < c.info.so

theorem stops_forward {stop blind : RxPdu → Prop} {next : Option (List RxPdu × List RxPdu)}
    (passed : ∀ d ∈ pre, Passes x stop d) (hc : x.sn < c.info.sn ↔ stop c)
    (goes_on : (∀ d ∈ c :: pre, Passes x stop d) → next = some (pre', post') →
      pre' ++ post' = pre.reverse ++ c :: l ∧ Stops x stop blind pre' post')
    (h : (if x.sn < c.info.sn then
        if dropBefore x pre.head? then none else some (pre.reverse, c :: l)
      else if x.sn = c.info.sn then
        match sameForward x pre.head? c.info with
        | .insert => some (pre.reverse, c :: l)
        | .drop => none
        | .next => next
      else next) = some (pre', post')) :
    pre' ++ post' = pre.reverse ++ c :: l ∧ Stops x stop blind pre' post' := by
  have passed' : ∀ d ∈ pre.reverse, Passes x stop d := fun d hd => passed d (mem_reverse.1 hd)
  split at h
  · next hlt =>
    split at h <;> cases h
    next hkeep =>
    refine ⟨rfl, passed', .inr ?_, ?_⟩
    · rw [getLast?_reverse]
      intro p hp hsn
      obtain ⟨hprf, hxrf, -⟩ := (passed p (mem_of_mem_head? hp)).2 hsn
      rw [Option.mem_def.1 hp] at hkeep
      simp only [dropBefore, hsn, hprf, hxrf, decide_eq_true_eq] at hkeep
      simpa using hkeep
    · rintro d ⟨⟩
      exact .inl (hc.1 hlt)
  next hge =>
  have hnot : ¬ stop c := mt hc.2 hge
  split at h
  · next heq =>
    split at h
    · next hsame =>
      cases h
      obtain ⟨hcrf, hxrf, hend, hprev⟩ := same_spec hsame nofun
      refine ⟨rfl, passed', .inr ?_, ?_⟩
      · rw [getLast?_reverse]
        exact fun p hp hsn => Int.lt_of_not_ge fun hover => hprev p hp ⟨hsn.trans heq, hover⟩
      · rintro d ⟨⟩
        exact .inr ⟨heq.symm, hcrf, hxrf, hend⟩
    · cases h
    · next hsame =>
      obtain ⟨hcrf, hxrf, -, hso⟩ := same_spec hsame nofun
      exact goes_on (forall_mem_cons.2 ⟨⟨hnot, fun _ => ⟨hcrf, hxrf, Nat.lt_of_not_le hso⟩⟩,
        passed⟩) h
  · next hne => exact goes_on (forall_mem_cons.2 ⟨⟨hnot, fun hsn => absurd hsn.symm hne⟩, passed⟩) h

theorem insertPlain_stops (passed : ∀ c ∈ pre, Passes x (x.sn < ·.info.sn) c)
    (h : insertPlain x pre l = some (pre', post')) :
    pre' ++ post' = pre.reverse ++ l ∧ Stops x (x.sn < ·.info.sn) (fun _ => False) pre' post' := by
  induction l generalizing pre with
  | nil =>
    unfold insertPlain at h
    split at h
    · cases h
      exact ⟨rfl, passed, .inr fun _ => nofun, fun _ => nofun⟩
    split at h <;> cases h
    next hkeep =>
    refine ⟨rfl, fun d hd => passed d (mem_reverse.1 hd), .inr ?_, fun _ => nofun⟩
    rw [getLast?_reverse]
    rintro p ⟨⟩ hsn
    by_contra hlast
    exact hkeep ⟨hsn.symm, by omega⟩
  | cons c l ih =>
    refine stops_forward passed Iff.rfl (fun passed' h' => ?_) h
    have := ih passed' h'
    simpa using this

theorem insertHigh_stops {vr_r : Nat}
    (passed : ∀ c ∈ pre, Passes x (fun c => c.info.sn < vr_r ∨ x.sn < c.info.sn) c)
    (h : insertHigh vr_r x pre l = some (pre', post')) : pre' ++ post' = pre.reverse ++ l ∧
      Stops x (fun c => c.info.sn < vr_r ∨ x.sn < c.info.sn) (·.info.sn < vr_r) pre' post' := by
  induction l generalizing pre with
  | nil =>
    unfold insertHigh at h
    split at h
    · cases h
      exact ⟨rfl, passed, .inr fun _ => nofun, fun _ => nofun⟩
    split at h <;> cases h
    next c pre htail =>
    refine ⟨rfl, fun d hd => passed d (mem_reverse.1 hd), .inr ?_, fun _ => nofun⟩
    rw [getLast?_reverse]
    rintro p ⟨⟩ hsn
    obtain ⟨hcrf, hxrf, -⟩ := (passed c mem_cons_self).2 hsn
    simpa [addsTail, hcrf, hxrf, hsn] using htail
  | cons c l ih =>
    unfold insertHigh at h
    split at h
    · next hlow =>
      cases h
      refine ⟨rfl, fun d hd => passed d (mem_reverse.1 hd), .inl ⟨c, rfl, hlow⟩, ?_⟩
      rintro d ⟨⟩
      exact .inl (.inl hlow)
    next hhigh =>
    refine stops_forward passed (or_iff_right hhigh).symm (fun passed' h' => ?_) h
    have := ih passed' h'
    simpa using this

theorem Stops.placed {stop blind : RxPdu → Prop} (h : Stops x stop blind pre post)
    (split : pre ++ post = l) (ordered : Ordered a l)
    (hstop : ∀ c ∈ l, stop c ↔ Lib.off 1024 a x.sn < c.off a)
    (hblind : ∀ c, blind c → stop c) : Placed a x l pre post := by
  subst split
  have hoff : ∀ {d : RxPdu}, d.info.sn = x.sn → d.off a = Lib.off 1024 a x.sn := by
    intro d hsn
    rw [RxPdu.off, hsn]
  have before : ∀ c ∈ pre, c.off a ≤ Lib.off 1024 a x.sn := by
    intro c hc
    have := mt (hstop c (mem_append_left post hc)).2 (h.passed c hc).1
    omega
  have passed : ∀ c ∈ pre, c.info.sn = x.sn → c.info.rf ∧ x.rf :=
    fun c hc hsn => ((h.passed c hc).2 hsn).imp_right And.left
  cases post with
  | nil =>
    rw [append_nil]
    exact ⟨append_nil pre, before, fun _ => nofun, passed, fun _ => nofun⟩
  | cons c post =>
    have hsort := (pairwise_cons.1 (pairwise_append.1 ordered.sorted).2.1).1
    have hsegs := (pairwise_cons.1 (pairwise_append.1 ordered.segments).2.1).1
    have hc := hstop c (mem_append_right pre mem_cons_self)
    rcases h.right c rfl with hs | ⟨hcsn, hcrf, hxrf, hend⟩
    · -- the SNs from here on are greater
      have greater : ∀ d ∈ c :: post, Lib.off 1024 a x.sn < d.off a :=
        forall_mem_cons.2 ⟨hc.1 hs, fun d hd => lt_of_lt_of_le (hc.1 hs) (hsort d hd)⟩
      have other : ∀ d ∈ c :: post, d.info.sn ≠ x.sn := fun d hd hsn =>
        lt_irrefl _ (hoff hsn ▸ greater d hd)
      refine ⟨rfl, before, fun d hd => le_of_lt (greater d hd), ?_, ?_⟩
      · intro d hd hsn
        rcases mem_append.1 hd with hd | hd
        · exact passed d hd hsn
        · exact absurd hsn (other d hd)
      · rintro d ⟨⟩ hsn
        exact absurd hsn (other c mem_cons_self)
    · have hnot : ¬ stop c := by
        rw [hc, hoff hcsn]
        exact lt_irrefl _
      refine ⟨rfl, before, ?_, ?_, ?_⟩
      · exact forall_mem_cons.2 ⟨(hoff hcsn).ge, fun d hd => hoff hcsn ▸ hsort d hd⟩
      · intro d hd hsn
        rcases mem_append.1 hd with hd | hd
        · exact passed d hd hsn
        rcases mem_cons.1 hd with rfl | hd
        · exact ⟨hcrf, hxrf⟩
        · exact ⟨(hsegs d hd (hcsn.trans hsn.symm)).2, hxrf⟩
      · rintro d ⟨⟩ -
        refine .inl ⟨hend, h.left.resolve_left ?_⟩
        rintro ⟨d, ⟨⟩, hb⟩
        exact hnot (hblind _ hb)

/-! ## The way backward -/

/-- An element that the way backward passes, through SNs below VR(R). -/
def PassesBack (a : Nat) (x : PduInfo) (c : RxPdu) : Prop := c.info.sn < a ∧ x.sn ≤ c.info.sn ∧
  (c.info.sn = x.sn → c.info.rf = true ∧ x.rf = true ∧ ¬ c.info.lastByte < x.so ∧ x.so < c.info.so)

/-- Where the way backward ends: after an element that stops it, or after a segment of the same
SN. -/
structure StopsBack (a : Nat) (x : PduInfo) (pre post : List RxPdu) : Prop where
  passed : ∀ c ∈ post, PassesBack a x c
  left : ∀ c ∈ pre.getLast?, (c.info.sn ≥ a ∨ x.sn > c.info.sn) ∨ c.info.sn = x.sn ∧
    c.info.rf = true ∧ x.rf = true ∧
    c.info.lastByte < x.so ∧ ∀ p ∈ post.head?, p.info.sn = x.sn → x.lastByte < p.info.so

theorem addsTail_overlap {c : PduInfo} (hsn : c.sn = x.sn) (hc : c.rf) (hx : x.rf)
    (hover : ¬ c.lastByte < x.so) : addsTail x c = false := by
  simp [addsTail, hc, hx, hsn]
  omega

theorem insertLow_stops (passed : ∀ c ∈ post, PassesBack a x c)
    (first : ∀ c ∈ (l.reverse ++ post).head?, ¬ (x.sn < c.info.sn ∧ c.info.sn < a))
    (h : insertLow a x post l = some (pre', post')) : pre' ++ post' = l.reverse ++ post ∧
    StopsBack a x pre' post' := by
  induction l generalizing post with
  | nil =>
    unfold insertLow at h
    split at h
    · cases h
      exact ⟨rfl, passed, fun _ => nofun⟩
    next c post =>
    -- the head is of the same SN, and overlaps the new segment
    obtain ⟨hlow, hle, hseg⟩ := passed c mem_cons_self
    have hfirst := first c rfl
    have hsn : c.info.sn = x.sn := by omega
    obtain ⟨hcrf, hxrf, hover, -⟩ := hseg hsn
    rw [addsTail_overlap hsn hcrf hxrf hover] at h
    cases h
  | cons c l ih =>
    have stop : (c.info.sn ≥ a ∨ x.sn > c.info.sn) →
        some ((c :: l).reverse, post) = some (pre', post') →
        pre' ++ post' = (c :: l).reverse ++ post ∧ StopsBack a x pre' post' := by
      rintro hstop ⟨⟩
      refine ⟨rfl, passed, ?_⟩
      rw [getLast?_reverse]
      rintro d ⟨⟩
      exact .inl hstop
    have goes_on : PassesBack a x c → insertLow a x (c :: post) l = some (pre', post') →
        pre' ++ post' = (c :: l).reverse ++ post ∧ StopsBack a x pre' post' := by
      intro hc h
      have := ih (forall_mem_cons.2 ⟨hc, passed⟩) (by simpa using first) h
      simpa using this
    unfold insertLow at h
    split at h
    · next hhigh => exact stop (.inl hhigh) h
    next hlow =>
    split at h
    · next hgt =>
      split at h
      · split at h
        · cases h
        · exact stop (.inr hgt) h
      · exact stop (.inr hgt) h
    next hle =>
    split at h
    · next heq =>
      split at h
      · next hsame =>
        cases h
        obtain ⟨hcrf, hxrf, hend, hnext⟩ := same_spec hsame nofun
        refine ⟨rfl, passed, ?_⟩
        rw [getLast?_reverse]
        rintro d ⟨⟩
        exact .inr ⟨heq.symm, hcrf, hxrf, hend, fun p hp hsn => by
          have := hnext p hp
          omega⟩
      · cases h
      · next hsame =>
        obtain ⟨hcrf, hxrf, hover, hso⟩ := same_spec hsame nofun
        exact goes_on ⟨by omega, by omega, fun _ => ⟨hcrf, hxrf, hover, Nat.lt_of_not_le hso⟩⟩ h
    · next hne => exact goes_on ⟨by omega, by omega, fun hsn => absurd hsn.symm hne⟩ h

theorem StopsBack.placed (h : StopsBack a x pre post) (split : pre ++ post = l)
    (ordered : Ordered a l)
    (hstop : ∀ c ∈ l, (c.info.sn ≥ a ∨ x.sn > c.info.sn) ↔ c.off a < Lib.off 1024 a x.sn) :
    Placed a x l pre post := by
  subst split
  have after : ∀ c ∈ post, Lib.off 1024 a x.sn ≤ c.off a := by
    intro c hc
    obtain ⟨hlow, hle, -⟩ := h.passed c hc
    have := hstop c (mem_append_right pre hc)
    omega
  have passed : ∀ c ∈ post, c.info.sn = x.sn → c.info.rf ∧ x.rf :=
    fun c hc hsn => ((h.passed c hc).2.2 hsn).imp_right And.left
  have starts : ∀ c ∈ post.head?, c.info.sn = x.sn → x.so < c.info.so :=
    fun c hc hsn => ((h.passed c (mem_of_mem_head? hc)).2.2 hsn).2.2.2
  cases hlast : pre.getLast? with
  | none =>
    obtain rfl := getLast?_eq_none_iff.1 hlast
    exact ⟨rfl, fun _ => nofun, after, passed, fun c hc hsn =>
      .inr ⟨starts c hc hsn, fun _ => nofun⟩⟩
  | some p =>
    obtain ⟨init, rfl⟩ := getLast?_eq_some_iff.1 hlast
    have hsort := (pairwise_append.1 (pairwise_append.1 ordered.sorted).1).2.2
    have hsegs := (pairwise_append.1 (pairwise_append.1 ordered.segments).1).2.2
    rcases h.left p hlast with hs | ⟨hpsn, hprf, hxrf, hend, hnext⟩
    · -- the SNs up to here are smaller
      have hlt := (hstop p (by simp)).1 hs
      have smaller : ∀ c ∈ init ++ [p], c.off a < Lib.off 1024 a x.sn := by
        intro c hc
        rcases mem_append.1 hc with hc | hc
        · exact lt_of_le_of_lt (hsort c hc p mem_cons_self) hlt
        · rwa [mem_singleton.1 hc]
      have other : ∀ c ∈ init ++ [p], c.info.sn ≠ x.sn := by
        intro c hc hsn
        have := smaller c hc
        rw [RxPdu.off, hsn] at this
        omega
      refine ⟨rfl, fun c hc => le_of_lt (smaller c hc), after, ?_,
        fun c hc hsn => .inr ⟨starts c hc hsn, other⟩⟩
      intro c hc hsn
      rcases mem_append.1 hc with hc | hc
      · exact absurd hsn (other c hc)
      · exact passed c hc hsn
    · have hp : p.off a = Lib.off 1024 a x.sn := by rw [RxPdu.off, hpsn]
      refine ⟨rfl, ?_, after, ?_, ?_⟩
      · intro c hc
        rcases mem_append.1 hc with hc | hc
        · exact hp ▸ hsort c hc p mem_cons_self
        · rw [mem_singleton.1 hc, hp]
      · intro c hc hsn
        rcases mem_append.1 hc with hc | hc
        · rcases mem_append.1 hc with hc | hc
          · exact ⟨(hsegs c hc p mem_cons_self (hsn.trans hpsn.symm)).1, hxrf⟩
          · rw [mem_singleton.1 hc]
            exact ⟨hprf, hxrf⟩
        · exact passed c hc hsn
      · intro c hc hsn
        refine .inl ⟨hnext c hc hsn, ?_⟩
        simpa using fun _ => hend

/-- The place that `rlc_am_rx_list_insert_pdu` finds. With VR(R) in the upper half of the SNs,
a PDU below it must not come before all the others, if those are below VR(R) too. -/
theorem insertPdu_placed {rx : Rx} (vr_r : rx.vr_r < 1024)
    (vr_mr : rx.vr_mr = (rx.vr_r + 512) % 1024) (ordered : Ordered rx.vr_r rx.receiver_buffer)
    (sn : x.sn < 1024) (window : Lib.off 1024 rx.vr_r x.sn < 512)
    (first : rx.vr_mr < rx.vr_r → x.sn < rx.vr_r →
      ∀ c ∈ rx.receiver_buffer.head?, ¬ (x.sn < c.info.sn ∧ c.info.sn < rx.vr_r))
    (h : rlcAmRxListInsertPdu rx x = some (pre, post)) :
    Placed rx.vr_r x rx.receiver_buffer pre post := by
  unfold rlcAmRxListInsertPdu at h
  split at h
  · next hwrap =>
    split at h
    · next hhigh =>
      obtain ⟨split, stops⟩ := insertHigh_stops (by simp) h
      refine stops.placed split ordered ?_ fun _ => .inl
      intro c hc
      have hsn := ordered.sn c hc
      unfold RxPdu.off Lib.off at *
      split at hsn <;> split at window <;> split <;> omega
    · next hlow =>
      obtain ⟨split, stops⟩ := insertLow_stops (by simp) (by simpa using first hwrap (by omega)) h
      refine stops.placed (by simpa using split) ordered ?_
      intro c hc
      have hsn := ordered.sn c hc
      unfold RxPdu.off Lib.off at *
      split at hsn <;> split at window <;> split <;> omega
  · next hplain =>
    obtain ⟨split, stops⟩ := insertPlain_stops (by simp) h
    refine stops.placed split ordered ?_ fun _ => False.elim
    intro c hc
    have hsn := ordered.sn c hc
    unfold RxPdu.off Lib.off at *
    split at hsn <;> split at window <;> split <;> omega

/-! ## Complete SNs -/

def sameSn (sn : Nat) (c : RxPdu) : Bool := c.info.sn = sn

def group (sn : Nat) (l : List RxPdu) : List RxPdu := l.filter (sameSn sn)

def RxPdu.marked (c : RxPdu) : RxPdu := { c with all_segments_received := true }

def markSn (sn : Nat) (l : List RxPdu) : List RxPdu :=
  l.map fun c => if c.info.sn = sn then c.marked else c

/-- All bytes of a PDU are there: it came as a whole, or in segments without a gap up to a
last one. -/
def Complete (sn : Nat) : List RxPdu → Prop
  | [] => False
  | c :: rest => (c.info.rf = false ∧ rest = []) ∨
    (c.info.rf = true ∧ c.info.so = 0 ∧ allContiguous sn c.info.payload_size rest = true)

variable {sn : Nat}

theorem markSn_of_none (h : ∀ c ∈ l, sameSn sn c = false) : markSn sn l = l := by
  conv_rhs => rw [← map_id l]
  apply map_congr_left
  intro c hc
  exact if_neg (by simpa [sameSn] using h c hc)

theorem markAll_eq (h : Front (sameSn sn) l) : markAll sn l = markSn sn l := by
  induction l with
  | nil => rfl
  | cons c l ih =>
    unfold markAll
    split
    · next heq =>
      rw [ih h.tail]
      simp [markSn, heq, RxPdu.marked]
    · next hne =>
      have hc : sameSn sn c = false := by simpa [sameSn] using hne
      rw [markSn_of_none]
      intro d hd
      rcases mem_cons.1 hd with rfl | hd
      · exact hc
      · exact h.none hc d hd

theorem allContiguous_group (h : Front (sameSn sn) l) (e : Int) :
    allContiguous sn e (group sn l) = allContiguous sn e l := by
  induction l generalizing e with
  | nil => rfl
  | cons c l ih =>
    cases hc : sameSn sn c with
    | true =>
      rw [group, filter_cons_of_pos hc]
      unfold allContiguous
      rw [← group, ih h.tail]
    | false =>
      have hsn : ¬ c.info.sn = sn := by simpa [sameSn] using hc
      rw [group, h.filter_nil hc]
      unfold allContiguous
      simp [hsn]

/-- A segment that fits between two others of a sequence without a gap is empty. -/
theorem allContiguous_insert {e : Int} {g₁ g₂ : List RxPdu} {y : RxPdu}
    (h : allContiguous sn e (g₁ ++ g₂)) (hsn : y.info.sn = sn) (hrf : y.info.rf)
    (size : 0 ≤ y.info.payload_size)
    (fits : ∀ c ∈ g₂.head?, y.info.so + y.info.payload_size ≤ c.info.so ∧
      (g₁ = [] → e ≤ y.info.so) ∧ ∀ p ∈ g₁.getLast?, p.info.so + p.info.payload_size ≤ y.info.so) :
    allContiguous sn e (g₁ ++ y :: g₂) := by
  induction g₁ generalizing e with
  | nil =>
    cases g₂ with
    | nil => cases h
    | cons c g₂ =>
      obtain ⟨hend, hstart, -⟩ := fits c rfl
      have hstart := hstart rfl
      rw [nil_append] at h ⊢
      unfold allContiguous at h
      simp only [Bool.and_eq_true, decide_eq_true_eq] at h
      obtain ⟨⟨⟨hcsn, hcrf⟩, hcso⟩, hrest⟩ := h
      unfold allContiguous
      unfold allContiguous
      simp only [hsn, hrf, hcsn, hcrf, hrest, decide_true, Bool.true_and, Bool.and_eq_true,
        decide_eq_true_eq, Bool.or_eq_true, Bool.and_true]
      omega
  | cons d g₁ ih =>
    rw [cons_append] at h ⊢
    unfold allContiguous at h ⊢
    rw [Bool.and_eq_true, Bool.or_eq_true] at h ⊢
    refine ⟨h.1, h.2.imp_right fun hrest => ih hrest ?_⟩
    intro c hc
    obtain ⟨hend, -, hlast⟩ := fits c hc
    refine ⟨hend, ?_, ?_⟩
    · rintro rfl
      exact hlast d rfl
    · intro p hp
      apply hlast p
      rw [getLast?_cons, Option.mem_def.1 hp]
      rfl

theorem Complete.insert {g₁ g₂ : List RxPdu} {y : RxPdu} (h : Complete sn (g₁ ++ g₂))
    (segments : ∀ c ∈ g₁ ++ g₂, c.info.sn = sn ∧ c.info.rf) (hsn : y.info.sn = sn) (hrf : y.info.rf)
    (size : 0 ≤ y.info.payload_size)
    (fits : ∀ c ∈ g₂.head?, (y.info.lastByte < c.info.so ∧ ∀ p ∈ g₁.getLast?,
      p.info.lastByte < y.info.so) ∨
      (y.info.so < c.info.so ∧ g₁ = [])) : Complete sn (g₁ ++ y :: g₂) := by
  unfold PduInfo.lastByte at fits
  cases g₁ with
  | nil =>
    cases g₂ with
    | nil => cases h
    | cons c g₂ =>
      obtain ⟨hcsn, hcrf⟩ := segments c mem_cons_self
      rcases h with ⟨hplain, -⟩ | ⟨-, hso, hrest⟩
      · rw [hcrf] at hplain
        cases hplain
      -- the new segment ends before byte 0: it is empty
      have hempty : y.info.so = 0 ∧ y.info.payload_size = 0 := by
        rcases fits c rfl with ⟨hend, -⟩ | ⟨hlt, -⟩ <;> omega
      refine .inr ⟨hrf, hempty.1, ?_⟩
      rw [hempty.2]
      unfold allContiguous
      simp [hcsn, hcrf, hso, hrest]
  | cons c g₁ =>
    obtain ⟨hcsn, hcrf⟩ := segments c mem_cons_self
    rcases h with ⟨hplain, -⟩ | ⟨-, hso, hrest⟩
    · rw [hcrf] at hplain
      cases hplain
    refine .inr ⟨hcrf, hso, allContiguous_insert hrest hsn hrf size ?_⟩
    intro d hd
    rcases fits d hd with ⟨hend, hlast⟩ | ⟨-, hnil⟩
    swap
    · cases hnil
    refine ⟨by omega, ?_, ?_⟩
    · rintro rfl
      have := hlast c rfl
      omega
    · intro p hp
      have := hlast p (by rw [getLast?_cons, Option.mem_def.1 hp]; rfl)
      omega

theorem group_append (sn : Nat) (l l' : List RxPdu) :
    group sn (l ++ l') = group sn l ++ group sn l' :=
  filter_append l l'

theorem group_cons_self (h : c.info.sn = sn) (l : List RxPdu) :
    group sn (c :: l) = c :: group sn l :=
  filter_cons_of_pos (by simp [sameSn, h])

theorem mem_group : c ∈ group sn l ↔ c ∈ l ∧ c.info.sn = sn := by
  simp [group, sameSn]

/-- The test that `rlc_am_rx_check_all_byte_segments` makes, on a list that starts with the
first segment. -/
theorem complete_iff (h : Front (sameSn sn) (c :: l)) (hsn : c.info.sn = sn) (hrf : c.info.rf) :
    Complete sn (group sn (c :: l)) ↔ c.info.so = 0 ∧ allContiguous sn c.info.payload_size l := by
  rw [group_cons_self hsn, Complete, allContiguous_group h.tail, hrf]
  simp

theorem markSn_append (sn : Nat) (l l' : List RxPdu) :
    markSn sn (l ++ l') = markSn sn l ++ markSn sn l' := map_append

theorem group_of_way_back (h : Front (sameSn sn) pre.reverse) :
    (pre.reverse.takeWhile (sameSn sn)).reverse = group sn pre ∧
      pre = (pre.reverse.dropWhile (sameSn sn)).reverse ++ group sn pre ∧
      markSn sn pre = (pre.reverse.dropWhile (sameSn sn)).reverse ++ markSn sn (group sn pre) := by
  have htake : (pre.reverse.takeWhile (sameSn sn)).reverse = group sn pre := by
    rw [h.takeWhile_eq, filter_reverse, reverse_reverse]
    rfl
  have hsplit : pre = (pre.reverse.dropWhile (sameSn sn)).reverse ++ group sn pre := by
    rw [← htake, ← reverse_append, takeWhile_append_dropWhile, reverse_reverse]
  refine ⟨htake, hsplit, ?_⟩
  have hnone : markSn sn (pre.reverse.dropWhile (sameSn sn)).reverse =
      (pre.reverse.dropWhile (sameSn sn)).reverse := markSn_of_none ?_
  · conv_lhs => rw [hsplit, markSn_append, hnone]
  · intro c hc
    exact h.dropWhile_none c (mem_reverse.1 hc)

theorem check_plain {tb : RxPdu} (hsn : tb.info.sn = sn) (hplain : tb.info.rf = false)
    (alone : ∀ c ∈ pre ++ post, c.info.sn ≠ sn) :
    Complete sn (group sn (pre ++ tb :: post)) ∧
      rlcAmRxCheckAllByteSegments pre tb post = (markSn sn pre, markSn sn (tb :: post)) := by
  have none : ∀ l : List RxPdu, (∀ c ∈ l, c ∈ pre ++ post) → group sn l = [] ∧ markSn sn l = l := by
    intro l hl
    refine ⟨?_, markSn_of_none fun c hc => ?_⟩
    · rw [eq_nil_iff_forall_not_mem]
      intro c hc
      exact alone c (hl c (mem_group.1 hc).1) (mem_group.1 hc).2
    · simpa [sameSn] using alone c (hl c hc)
  obtain ⟨hgpre, hmpre⟩ := none pre fun c hc => mem_append_left post hc
  obtain ⟨hgpost, hmpost⟩ := none post fun c hc => mem_append_right pre hc
  constructor
  · rw [group_append, group_cons_self hsn, hgpre, hgpost]
    exact .inl ⟨hplain, rfl⟩
  have htb : markSn sn (tb :: post) = tb.marked :: post := by
    have : markSn sn (tb :: post) = tb.marked :: markSn sn post := by
      simp [markSn, hsn]
    rw [this, hmpost]
  unfold rlcAmRxCheckAllByteSegments
  rw [if_pos hplain, hmpre, htb]
  rfl

theorem check_segment {tb : RxPdu} (hsn : tb.info.sn = sn) (hrf : tb.info.rf)
    (hpre : Front (sameSn sn) pre.reverse) (hpost : Front (sameSn sn) post)
    (segments : ∀ c ∈ pre, c.info.sn = sn → c.info.rf) :
    (Complete sn (group sn (pre ++ tb :: post)) ∧
      rlcAmRxCheckAllByteSegments pre tb post = (markSn sn pre, markSn sn (tb :: post))) ∨
    (¬ Complete sn (group sn (pre ++ tb :: post)) ∧ rlcAmRxCheckAllByteSegments pre tb post =
      (pre, tb :: post)) := by
  obtain ⟨htake, -, hmark⟩ := group_of_way_back hpre
  have hfront : Front (sameSn sn) (group sn pre ++ tb :: post) := by
    refine pairwise_append.2 ⟨?_, pairwise_cons.2 ⟨?_, hpost⟩, ?_⟩
    · refine List.Pairwise.imp_of_mem ?_ (pairwise_of_forall (R := fun _ _ => True) (by simp))
      intro c d hc _ _ _
      simpa [sameSn] using (mem_group.1 hc).2
    · intro c _ _
      simp [sameSn, hsn]
    · intro c hc d _ _
      simpa [sameSn] using (mem_group.1 hc).2
  have hgroup : group sn (group sn pre ++ tb :: post) = group sn (pre ++ tb :: post) := by
    simp [group]
  -- the first segment: of `pre`, or the new one
  obtain ⟨first, rest, hlist, hhead, hfirst⟩ : ∃ first rest,
      group sn pre ++ tb :: post = first :: rest ∧
      (group sn pre ++ [tb]).headD tb = first ∧ first.info.sn = sn ∧ first.info.rf := by
    cases hg : group sn pre with
    | nil => exact ⟨tb, post, rfl, rfl, hsn, hrf⟩
    | cons c g =>
      have hc : c ∈ group sn pre := hg ▸ mem_cons_self
      obtain ⟨hmem, hcsn⟩ := mem_group.1 hc
      exact ⟨c, g ++ tb :: post, rfl, rfl, hcsn, segments c hmem hcsn⟩
  have hcomplete : Complete sn (group sn (pre ++ tb :: post)) ↔
      first.info.so = 0 ∧ allContiguous sn first.info.payload_size rest := by
    rw [← hgroup, hlist]
    exact complete_iff (hlist ▸ hfront) hfirst.1 hfirst.2
  have hmarked : markAll sn (group sn pre ++ tb :: post) =
      markSn sn (group sn pre) ++ markSn sn (tb :: post) := by
    rw [markAll_eq hfront, markSn_append]
  have hlen : (group sn pre).length = (markSn sn (group sn pre)).length := by
    simp [markSn]
  have heval : rlcAmRxCheckAllByteSegments pre tb post =
      if first.info.so = 0 ∧ allContiguous sn first.info.payload_size rest = true then
        (markSn sn pre, markSn sn (tb :: post))
      else (pre, tb :: post) := by
    unfold rlcAmRxCheckAllByteSegments
    have hfun : (fun c : RxPdu => decide (c.info.sn = sn)) = sameSn sn := rfl
    rw [if_neg (by simp [hrf]), hsn]
    dsimp only
    rw [hfun, htake, hhead, hlist, tail_cons, ← hlist, hmarked, hlen, take_left, drop_left, hmark]
  rw [heval]
  by_cases hc : first.info.so = 0 ∧ allContiguous sn first.info.payload_size rest
  · exact .inl ⟨hcomplete.2 hc, if_pos hc⟩
  · exact .inr ⟨fun h => hc (hcomplete.1 h), if_neg hc⟩

/-! ## What the list keeps -/

/-- All elements of an SN are marked, and rightly so. -/
def Whole (l : List RxPdu) (sn : Nat) : Prop :=
  (∀ d ∈ l, d.info.sn = sn → d.all_segments_received = true) ∧ Complete sn (group sn l)

/-- A list in order, in which an SN is marked as a whole or not at all. -/
structure Kept (a : Nat) (l : List RxPdu) : Prop extends Ordered a l where
  whole : ∀ c ∈ l, c.all_segments_received = true → Whole l c.info.sn

theorem mem_markSn {d : RxPdu} (h : d ∈ markSn sn l) :
    ∃ c ∈ l, d.info = c.info ∧ (c.info.sn = sn → d.all_segments_received) ∧
    (c.info.sn ≠ sn → d = c) := by
  obtain ⟨c, hc, rfl⟩ := mem_map.1 h
  refine ⟨c, hc, ?_⟩
  split
  · next heq => exact ⟨rfl, fun _ => rfl, fun hne => absurd heq hne⟩
  · next hne => exact ⟨rfl, fun heq => absurd heq hne, fun _ => rfl⟩

theorem pairwise_markSn {R : PduInfo → PduInfo → Prop} (h : l.Pairwise fun c d => R c.info d.info)
    (sn : Nat) : (markSn sn l).Pairwise fun c d => R c.info d.info := by
  have info : ∀ c : RxPdu, (if c.info.sn = sn then c.marked else c).info = c.info := by
    intro c
    split <;> rfl
  refine pairwise_map.2 (h.imp ?_)
  intro c d hcd
  rwa [info, info]

theorem Ordered.markSn (h : Ordered a l) (sn : Nat) : Ordered a (markSn sn l) := by
  refine ⟨?_, pairwise_markSn (R := fun c d => Lib.off 1024 a c.sn ≤ Lib.off 1024 a d.sn) h.sorted
    sn, pairwise_markSn (R := fun c d => c.sn = d.sn → c.rf ∧ d.rf) h.segments sn⟩
  intro d hd
  obtain ⟨c, hc, hinfo, -⟩ := mem_markSn hd
  rw [RxPdu.off, hinfo]
  exact h.sn c hc

theorem allContiguous_marked (sn : Nat) (e : Int) (l : List RxPdu) :
    allContiguous sn e (l.map RxPdu.marked) = allContiguous sn e l := by
  induction l generalizing e with
  | nil => rfl
  | cons c l ih =>
    rw [map_cons]
    unfold allContiguous
    rw [ih]
    rfl

theorem complete_marked (sn : Nat) (l : List RxPdu) : Complete sn (l.map RxPdu.marked) ↔
    Complete sn l := by
  cases l with
  | nil => exact Iff.rfl
  | cons c l =>
    rw [map_cons, Complete, allContiguous_marked, map_eq_nil_iff]
    exact Iff.rfl

theorem group_markSn (sn sn' : Nat) (l : List RxPdu) : group sn' (markSn sn l) =
      if sn' = sn then (group sn' l).map RxPdu.marked else group sn' l := by
  induction l with
  | nil => split <;> rfl
  | cons c l ih =>
    have hcons : markSn sn (c :: l) = (if c.info.sn = sn then c.marked else c) :: markSn sn l := rfl
    have hinfo : sameSn sn' (if c.info.sn = sn then c.marked else c) = sameSn sn' c := by
      split <;> rfl
    unfold group at ih ⊢
    rw [hcons, filter_cons, hinfo, ih]
    by_cases hc : sameSn sn' c
    · have hsn : c.info.sn = sn' := by simpa [sameSn] using hc
      by_cases heq : sn' = sn
      · subst heq
        simp [hc, hsn]
      · simp [hc, heq, hsn]
    · simp [hc]

theorem Whole.of_other {l' : List RxPdu} {s : Nat} (h : Whole l s)
    (mem : ∀ d ∈ l', d.info.sn = s → d ∈ l) (same : group s l' = group s l) : Whole l' s :=
  ⟨fun d hd hs => h.1 d (mem d hd hs) hs, same ▸ h.2⟩

variable {y : RxPdu}

theorem Placed.mem (h : Placed a x l pre post) (hc : c ∈ pre ++ y :: post) : c = y ∨ c ∈ l :=
  h.split ▸ mem_cons.1 (perm_middle.mem_iff.1 hc)

theorem Placed.ordered (h : Placed a x l pre post) (ordered : Ordered a l) (info : y.info = x)
    (sn : x.sn < 1024) (window : Lib.off 1024 a x.sn < 512) : Ordered a (pre ++ y :: post) := by
  have hy : y.off a = Lib.off 1024 a x.sn := by rw [RxPdu.off, info]
  refine ⟨?_, pairwise_insert (h.split ▸ ordered.sorted) ?_ ?_,
    pairwise_insert (h.split ▸ ordered.segments) ?_ ?_⟩
  · intro c hc
    rcases h.mem hc with rfl | hc
    · rw [hy, info]
      exact ⟨sn, window⟩
    · exact ordered.sn c hc
  · rw [hy]
    exact h.before
  · rw [hy]
    exact h.after
  · intro c hc heq
    rw [info] at heq ⊢
    exact h.segments c (h.split ▸ mem_append_left post hc) heq
  · intro c hc heq
    rw [info] at heq ⊢
    exact (h.segments c (h.split ▸ mem_append_right pre hc) heq.symm).symm

theorem Placed.front (h : Placed a x l pre post) (ordered : Ordered a l) (ha : a < 1024)
    (sn : x.sn < 1024) : Front (sameSn x.sn) pre.reverse ∧ Front (sameSn x.sn) post := by
  obtain ⟨split, before, after, -, -⟩ := h
  subst split
  obtain ⟨spre, spost, -⟩ := pairwise_append.1 ordered.sorted
  have same : ∀ c ∈ pre ++ post, c.off a = Lib.off 1024 a x.sn → sameSn x.sn c := by
    intro c hc heq
    have := off_inj ha (ordered.sn c hc).1 sn heq
    simpa [sameSn] using this
  have off_of_same : ∀ c : RxPdu, sameSn x.sn c → c.off a = Lib.off 1024 a x.sn := by
    intro c hc
    have hsn : c.info.sn = x.sn := by simpa [sameSn] using hc
    rw [RxPdu.off, hsn]
  constructor
  · refine pairwise_reverse.2 (spre.imp_of_mem ?_)
    intro c d hc hd hcd hsame
    apply same d (mem_append_left post hd)
    have := off_of_same c hsame
    have := before d hd
    omega
  · refine spost.imp_of_mem ?_
    intro c d hc hd hcd hsame
    apply same c (mem_append_right pre hc)
    have := off_of_same d hsame
    have := after c hc
    omega

theorem Placed.complete (h : Placed a x l pre post) (ordered : Ordered a l) (ha : a < 1024)
    (sn : x.sn < 1024) (size : x.rf → 0 ≤ x.payload_size) (info : y.info = x)
    (whole : Complete x.sn (group x.sn l)) : Complete x.sn (group x.sn (pre ++ y :: post)) := by
  obtain ⟨fpre, fpost⟩ := h.front ordered ha sn
  obtain ⟨split, before, after, segments, fits⟩ := h
  subst split
  rw [group_append] at whole
  rw [group_append, group_cons_self (by rw [info])]
  have hseg : ∀ c ∈ group x.sn pre ++ group x.sn post, c.info.sn = x.sn ∧ c.info.rf := by
    intro c hc
    rw [← group_append] at hc
    obtain ⟨hmem, hsn⟩ := mem_group.1 hc
    exact ⟨hsn, (segments c hmem hsn).1⟩
  have hrf : x.rf := by
    cases hg : group x.sn pre ++ group x.sn post with
    | nil =>
      rw [hg] at whole
      cases whole
    | cons c g =>
      have hc : c ∈ group x.sn (pre ++ post) := by
        rw [group_append, hg]
        exact mem_cons_self
      obtain ⟨hmem, hsn⟩ := mem_group.1 hc
      exact (segments c hmem hsn).2
  refine whole.insert hseg (by rw [info]) (by rw [info]; exact hrf) (by rw [info]; exact size hrf)
    ?_
  rw [info]
  intro c hc
  obtain ⟨g, hg⟩ := head?_eq_some_iff.1 hc
  have hhead : post.head? = some c := fpost.head_of_filter hg
  have hcsn : c.info.sn = x.sn := (mem_group.1 (hg ▸ mem_cons_self)).2
  rcases fits c hhead hcsn with ⟨hend, hlast⟩ | ⟨hlt, hnone⟩
  · refine .inl ⟨hend, ?_⟩
    intro p hp
    have hrev : (pre.reverse).head? = some p := by
      have hfilter : pre.reverse.filter (sameSn x.sn) = (group x.sn pre).reverse := filter_reverse
      obtain ⟨g', hg'⟩ := head?_eq_some_iff.1 (head?_reverse.trans hp)
      exact fpre.head_of_filter (hfilter.trans hg')
    rw [head?_reverse] at hrev
    have hpsn : p.info.sn = x.sn := (mem_group.1 (mem_of_getLast? hp)).2
    exact hlast p hrev hpsn
  · refine .inr ⟨hlt, ?_⟩
    rw [eq_nil_iff_forall_not_mem]
    intro p hp
    exact hnone p (mem_group.1 hp).1 (mem_group.1 hp).2

theorem Placed.group_other (h : Placed a x l pre post) (hysn : y.info.sn = x.sn) {s : Nat}
    (hne : s ≠ x.sn) : group s (pre ++ y :: post) = group s l := by
  have hy : sameSn s y = false := by
    simp [sameSn, hysn, Ne.symm hne]
  rw [← h.split, group_append, group_append]
  congr 1
  exact filter_cons_of_neg (by simp [hy])

theorem Placed.whole_other (h : Placed a x l pre post) (hysn : y.info.sn = x.sn) {s : Nat}
    (hne : s ≠ x.sn) (hwhole : Whole l s) : Whole (pre ++ y :: post) s := by
  refine hwhole.of_other ?_ (h.group_other hysn hne)
  intro d hd hds
  rcases h.mem hd with rfl | hd
  · exact absurd (hds.symm.trans hysn) hne
  · exact hd

theorem Placed.check_spec (h : Placed a x l pre post) (kept : Kept a l) (ha : a < 1024)
    (sn : x.sn < 1024) (info : y.info = x) :
    (Complete x.sn (group x.sn (pre ++ y :: post)) ∧
        rlcAmRxCheckAllByteSegments pre y post = (markSn x.sn pre, markSn x.sn (y :: post))) ∨
      (¬ Complete x.sn (group x.sn (pre ++ y :: post)) ∧
        rlcAmRxCheckAllByteSegments pre y post = (pre, y :: post)) := by
  obtain ⟨fpre, fpost⟩ := h.front kept.toOrdered ha sn
  have hysn : y.info.sn = x.sn := by rw [info]
  cases hrf : y.info.rf with
  | false =>
    refine .inl (check_plain hysn hrf ?_)
    intro c hc hcsn
    have := (h.segments c (h.split ▸ hc) hcsn).2
    rw [← info, hrf] at this
    cases this
  | true =>
    refine check_segment hysn hrf fpre fpost ?_
    intro c hc hcsn
    exact (h.segments c (h.split ▸ mem_append_left post hc) hcsn).1

theorem Placed.old (h : Placed a x l pre post) (hysn : y.info.sn = x.sn)
    (unmarked : y.all_segments_received = false) (hc : c ∈ pre ++ y :: post)
    (hold : c.info.sn ≠ x.sn ∨ c.all_segments_received) : c ∈ l := by
  rcases h.mem hc with rfl | hc
  · rcases hold with hne | hmark
    · exact absurd hysn hne
    · rw [unmarked] at hmark
      cases hmark
  · exact hc

/-- Insertion and completeness check together: the list keeps its form, and the elements of
the new PDU's SN are marked, all or none. -/
theorem Placed.check (h : Placed a x l pre post) (kept : Kept a l) (ha : a < 1024)
    (sn : x.sn < 1024) (window : Lib.off 1024 a x.sn < 512) (size : x.rf → 0 ≤ x.payload_size)
    (info : y.info = x) (unmarked : y.all_segments_received = false) :
    (rlcAmRxCheckAllByteSegments pre y post = (markSn x.sn pre, markSn x.sn (y :: post)) ∧
      Kept a (markSn x.sn (pre ++ y :: post))) ∨
    (rlcAmRxCheckAllByteSegments pre y post = (pre, y :: post) ∧ Kept a (pre ++ y :: post) ∧
      ∀ c ∈ pre ++ y :: post, c.info.sn = x.sn → c.all_segments_received = false) := by
  have ordered := h.ordered kept.toOrdered info sn window
  have hysn : y.info.sn = x.sn := by rw [info]
  rcases h.check_spec kept ha sn info with ⟨complete, heval⟩ | ⟨incomplete, heval⟩
  · refine .inl ⟨heval, ordered.markSn x.sn, ?_⟩
    intro d hd hmark
    obtain ⟨c, hc, hinfo, -, hsame⟩ := mem_markSn hd
    rw [hinfo]
    by_cases heq : c.info.sn = x.sn
    · rw [heq]
      refine ⟨?_, ?_⟩
      · intro e he hesn
        obtain ⟨c', -, hinfo', hmark', -⟩ := mem_markSn he
        exact hmark' (hinfo' ▸ hesn)
      · rw [group_markSn, if_pos rfl, complete_marked]
        exact complete
    · rw [hsame heq] at hmark
      have hwhole := h.whole_other hysn heq (kept.whole c (h.old hysn unmarked hc (.inl heq)) hmark)
      refine hwhole.of_other ?_ ?_
      · intro e he hesn
        obtain ⟨c', hc', hinfo', -, hsame'⟩ := mem_markSn he
        rw [hsame' (by rw [← hinfo', hesn]; exact heq)]
        exact hc'
      · rw [group_markSn, if_neg heq]
  · have none : ∀ c ∈ pre ++ y :: post, c.info.sn = x.sn → c.all_segments_received = false := by
      intro c hc hcsn
      rw [← Bool.not_eq_true]
      intro hmark
      have hwhole := kept.whole c (h.old hysn unmarked hc (.inr hmark)) hmark
      rw [hcsn] at hwhole
      exact incomplete (h.complete kept.toOrdered ha sn size info hwhole.2)
    refine .inr ⟨heval, ⟨ordered, ?_⟩, none⟩
    intro c hc hmark
    have hne : c.info.sn ≠ x.sn := by
      intro heq
      rw [none c hc heq] at hmark
      cases hmark
    exact h.whole_other hysn hne (kept.whole c (h.old hysn unmarked hc (.inl hne)) hmark)

end MacRlcSplit.Am
