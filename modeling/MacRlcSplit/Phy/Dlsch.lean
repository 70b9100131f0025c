-- The encoding of a transport block in `dlsch_encoding`: all code blocks are
-- interleaved into the rows of one array before the first of them is rate
-- matched, and the rows are shorter than the longest block.
import MacRlcSplit.Phy.Segmentation
import MacRlcSplit.Phy.RateMatching

namespace MacRlcSplit.Phy

open Lib List Option

/-! ## The source -/

def W_ROW : Nat := 3 * 6144

/-- The bytes that are allocated for a row of `d`. -/
def D_ROW : Nat := 96 + 12 + 3 + 3 * 6144

/-- `LTE_DL_eNB_HARQ_t`: the rows of `d` are seen from their 96th byte on; those of `w` are one
after the other. -/
structure DlHarq where
  seg : Segments
  d : Nat → Int → UInt8
  w : Nat → UInt8
  RTC : Nat → Nat

/-- The pointer `w[r]`. -/
def DlHarq.row (h : DlHarq) (r : Nat) : Nat → UInt8 := fun j => h.w (W_ROW * r + j)

/-- The first argument of the interleaver for block `r`. -/
def Segments.D (seg : Segments) (r : Nat) : Nat := 4 + seg.Kr r / 8 * 8

/-- The turn of block `r` for a new transport block. None where -1 is returned, and for a write
behind `w`. -/
def encodeBlock (pi : Nat → Nat → Nat) (c : Nat → Nat → UInt8) (h : DlHarq)
    (r : Nat) : Option DlHarq :=
  let Kr_bytes := h.seg.Kr r / 8
  if 768 < Kr_bytes ∨ W_ROW * MAX_NUM_DLSCH_SEGMENTS < W_ROW * r + 3 * Kpi (h.seg.D r) then none
  else
    let d := codeRow (threegpplteTurboEncoder (c r) (Kr_bytes * 8) (pi Kr_bytes)) (h.d r)
    let (RTC, d, row) := subBlockInterleavingTurbo (h.seg.D r) d (h.row r)
    some { h with
      d := Function.update h.d r d
      w := fun i => if i < W_ROW * r then h.w i else row (i - W_ROW * r)
      RTC := Function.update h.RTC r RTC }

/-- The transport block with its check. -/
def addCrc24a (a : Nat → UInt8) (A : Nat) : Nat → UInt8 :=
  let crc := crc24a a A >>> 8
  store a [(A / 8, crcOctet crc 2), (1 + A / 8, crcOctet crc 1), (2 + A / 8, crcOctet crc 0)]

/-- The part of `dlsch_encoding` for a new transport block; the bytes of `a` are copied to `b`. -/
def encodeNew (pi : Nat → Nat → Nat) (a : Nat → UInt8) (A : Nat) (c : Nat → Nat → UInt8)
    (h : DlHarq) : Option DlHarq :=
  (lteSegmentation (addCrc24a a A) c (A + 24)).bind fun (seg, c) =>
    (List.range seg.C).foldlM (encodeBlock pi c) { h with seg }

def DlHarq.matched (h : DlHarq) (m : Matching) (r : Nat) : Option (List UInt8 × Nat) :=
  lteRateMatchingTurbo (h.RTC r) { m with C := h.seg.C } (h.row r) r

/-- `dlsch_encoding`: the process and the sequence `e`. -/
def dlschEncoding (pi : Nat → Nat → Nat) (a : Nat → UInt8) (A : Nat) (c : Nat → Nat → UInt8)
    (m : Matching) (round : Nat) (h : DlHarq) : Option (DlHarq × List UInt8) :=
  (if round = 0 then encodeNew pi a A c h else some h).bind fun h =>
    ((List.range h.seg.C).mapM (h.matched m)).map fun es => (h, (es.map (·.1)).flatten)

/-! ## Rows -/

/-- The buffer of a block that has `w` for itself. -/
def ownBuffer (D : Nat) (d : Int → UInt8) : Nat → UInt8 :=
  (subBlockInterleavingTurbo D d fun _ => 0).2.2

/-- The row of block `r` holds its coded bits. -/
structure DlHarq.Own (h : DlHarq) (r : Nat) : Prop where
  RTC : h.RTC r = Phy.RTC (h.seg.D r)
  row : ∀ j < 3 * Kpi (h.seg.D r), h.row r j = ownBuffer (h.seg.D r) (h.d r) j

variable {pi : Nat → Nat → Nat} {c : Nat → Nat → UInt8} {h h' : DlHarq} {r : Nat}

theorem Segments.ND_pos (seg : Segments) (r : Nat) : 0 < ND (seg.D r) := by
  unfold ND Kpi RTC D
  split <;> omega

theorem Segments.row_le {seg : Segments} (hK : seg.Kr r / 8 < 768) : 3 * Kpi (seg.D r) ≤ W_ROW := by
  unfold Kpi RTC D W_ROW
  split <;> omega

/-- The coded bits of block `r`; the interleaver adds a copy of the third one. -/
def codedBits (pi : Nat → Nat → Nat) (c : Nat → Nat → UInt8) (h : DlHarq) (r : Nat) : Int → UInt8 :=
  let d := codeRow (threegpplteTurboEncoder (c r) (h.seg.Kr r / 8 * 8) (pi (h.seg.Kr r / 8)))
    (h.d r)
  Function.update d (3 * h.seg.D r + 2) (d 2)

theorem encodeBlock_some (hrun : encodeBlock pi c h r = some h') :
    h'.seg = h.seg ∧ h.seg.Kr r / 8 ≤ 768 ∧ (∀ i < W_ROW * r, h'.w i = h.w i) ∧
      (∀ r' ≠ r, h'.d r' = h.d r' ∧ h'.RTC r' = h.RTC r') ∧ h'.d r = codedBits pi c h r ∧
      h'.Own r := by
  unfold encodeBlock at hrun
  dsimp only at hrun
  split at hrun
  · cases hrun
  next hfits =>
  cases hrun
  refine ⟨rfl, by omega, fun i hi => if_pos hi, fun r' hne => ?_, ?_⟩
  · exact ⟨Function.update_of_ne hne _ _, Function.update_of_ne hne _ _⟩
  refine ⟨Function.update_self r _ h.d, Function.update_self r _ h.RTC, fun j hj => ?_⟩
  have hrow : ¬ W_ROW * r + j < W_ROW * r := by omega
  change j < 3 * Kpi (h.seg.D r) at hj
  obtain ⟨s, k, hk, rfl⟩ := Stream.exists_place hj
  unfold DlHarq.row ownBuffer
  dsimp only
  rw [if_neg hrow, Nat.add_sub_cancel_left, Function.update_self,
    interleaved (h.seg.ND_pos r) _ _ hk, interleaved (h.seg.ND_pos r) _ _ hk]
  split
  · rfl
  · next hlast =>
    have hbound := (Stream.origin_bounds hk hlast).2
    exact (Function.update_of_ne (by omega) _ _).symm

theorem DlHarq.Own.later (own : h.Own r) (hK : h.seg.Kr r / 8 < 768) {r' : Nat} (hr : r < r')
    (hrun : encodeBlock pi c h r' = some h') : h'.Own r := by
  obtain ⟨hseg, -, hbefore, hothers, -, -⟩ := encodeBlock_some hrun
  obtain ⟨hd, hRTC⟩ := hothers r (by omega)
  have hle := Segments.row_le hK
  have hnext : W_ROW * (r + 1) ≤ W_ROW * r' := Nat.mul_le_mul_left W_ROW hr
  refine ⟨by rw [hRTC, hseg, own.RTC], fun j hj => ?_⟩
  rw [hseg] at hj ⊢
  rw [hd, ← own.row j hj]
  exact hbefore _ (by rw [mul_add] at hnext; omega)

theorem encode_run {n : Nat} (hrun : (List.range n).foldlM (encodeBlock pi c) h = some h') :
    h'.seg = h.seg ∧ (∀ r < n, h.seg.Kr r / 8 ≤ 768) ∧
    ((∀ r < n, h.seg.Kr r / 8 ≠ 768) → ∀ r < n, h'.Own r) := by
  induction n generalizing h' with
  | zero =>
    cases hrun
    exact ⟨rfl, nofun, fun _ => nofun⟩
  | succ n ih =>
    rw [range_succ, foldlM_append] at hrun
    obtain ⟨mid, hmid, hlast⟩ := bind_eq_some_iff.1 hrun
    simp only [foldlM_cons, foldlM_nil, bind_pure] at hlast
    obtain ⟨hseg, hsizes, hown⟩ := ih hmid
    obtain ⟨hseg', hsize', -, -, -, hlastOwn⟩ := encodeBlock_some hlast
    rw [hseg] at hsize'
    refine ⟨hseg'.trans hseg, fun r hr => ?_, fun hne r hr => ?_⟩
    · obtain rfl | hlt : r = n ∨ r < n := by omega
      · exact hsize'
      · exact hsizes r hlt
    · obtain rfl | hlt : r = n ∨ r < n := by omega
      · exact hlastOwn
      have hK : mid.seg.Kr r / 8 < 768 := by
        have := hsizes r hlt
        have := hne r hr
        rw [hseg]
        omega
      exact (hown (fun r hr => hne r (by omega)) r hlt).later hK hlt hlast

theorem lteRateMatchingTurbo_congr {D : Nat} {m : Matching} {w w' : Nat → UInt8}
    (hw : ∀ i < 3 * Kpi D, w i = w' i) (r : Nat) :
    lteRateMatchingTurbo (RTC D) m w r = lteRateMatchingTurbo (RTC D) m w' r := by
  have hsame : ∀ i < m.Ncb (RTC D), w i = w' i := fun i hi => hw i (lt_of_lt_of_le hi (Ncb_le m D))
  unfold lteRateMatchingTurbo
  rw [ringLoop_congr (fun i hi => by rw [hsame i hi]) fun i hi k e => by rw [hsame i hi]]

theorem Stream.origin_le {s : Stream} {D k : Nat}
    (hk : k < Kpi D) : -96 ≤ s.origin D k ∧ s.origin D k ≤ 3 * D + 2 := by
  have hindex := (turnOf_index hk).1
  have hle := le_Kpi D
  cases s <;> simp only [origin, ND] <;> omega

/-- Every index that is used for block `r` is in its rows, and its bits of every transmission are
those of a block that has `w` for itself. -/
structure DlHarq.Apart (h : DlHarq) (r : Nat) : Prop where
  w : ∀ k < Kpi (h.seg.D r), ∀ s : Stream, s.place (h.seg.D r) k < W_ROW
  d : ∀ k < Kpi (h.seg.D r), ∀ s : Stream,
    0 ≤ 96 + s.origin (h.seg.D r) k ∧ 96 + s.origin (h.seg.D r) k < D_ROW
  copied : 96 + (3 * h.seg.D r + 2) < D_ROW
  matched : ∀ m : Matching, m.Ncb (h.RTC r) ≤ W_ROW ∧ h.matched m r =
    lteRateMatchingTurbo (Phy.RTC (h.seg.D r)) { m with C := h.seg.C }
      (ownBuffer (h.seg.D r) (h.d r)) r

theorem DlHarq.Own.apart (own : h.Own r) (hK : h.seg.Kr r / 8 < 768) : h.Apart r := by
  have hrow := Segments.row_le hK
  have hD : 96 + (3 * h.seg.D r + 2) < D_ROW := by
    unfold Segments.D D_ROW
    omega
  refine ⟨fun k hk s => lt_of_lt_of_le (Stream.place_lt hk) hrow, fun k hk s => ?_, hD,
    fun m => ⟨?_, ?_⟩⟩
  · obtain ⟨hlow, hhigh⟩ := Stream.origin_le (s := s) hk
    omega
  · rw [own.RTC]
    exact le_trans (Ncb_le m _) hrow
  · rw [DlHarq.matched, own.RTC]
    exact lteRateMatchingTurbo_congr own.row r

theorem DlHarq.Apart.short (apart : h.Apart r) : h.seg.Kr r / 8 ≠ 768 := by
  intro hK
  have hD : h.seg.D r = 6148 := by rw [Segments.D, hK]
  have hplace := apart.w 6175 (by rw [hD]; decide) .parity2
  rw [hD] at hplace
  exact absurd hplace (by decide)

/-- The code blocks of a transport block of `A` bits are kept apart if and only if none of them has
6144 bits. -/
theorem code_blocks_are_kept_apart {a : Nat → UInt8} {A : Nat} {m₀ : Matching} {e : List UInt8}
    {seg : Segments} (hseg : segments (A + 24) = some seg)
    (hrun : dlschEncoding pi a A c m₀ 0 h = some (h', e)) :
    (∀ r < seg.C, h'.Apart r) ↔ ∀ r < seg.C, seg.Kr r / 8 ≠ 768 := by
  rw [dlschEncoding, if_pos rfl] at hrun
  obtain ⟨_, hnew, hmatch⟩ := bind_eq_some_iff.1 hrun
  obtain ⟨es, -, heq⟩ := map_eq_some_iff.1 hmatch
  cases heq
  rw [encodeNew, lteSegmentation, hseg] at hnew
  obtain ⟨hsame, hsizes, hown⟩ := encode_run hnew
  change h'.seg = seg at hsame
  constructor
  · intro hapart r hr
    rw [← hsame]
    exact (hapart r hr).short
  · intro hshort r hr
    refine (hown hshort r hr).apart ?_
    rw [hsame]
    exact Nat.lt_of_le_of_ne (hsizes r hr) (hshort r hr)

def freshHarq : DlHarq where
  seg := ⟨0, 0, 0, 0, 0, 0⟩
  d := fun _ _ => LTE_NULL
  w := fun _ => 0
  RTC := fun _ => 0

def lastVersion : Matching where
  G := 27600
  C := 2
  Nsoft := 1827072
  Mdlharq := 8
  Kmimo := 1
  rvidx := 3
  Qm := 4
  Nl := 1

theorem encodeBlock_exists (hK : h.seg.Kr r / 8 ≤ 768)
    (hw : W_ROW * r + 3 * Kpi (h.seg.D r) ≤ W_ROW * MAX_NUM_DLSCH_SEGMENTS) :
    ∃ h', encodeBlock pi c h r = some h' := by
  unfold encodeBlock
  rw [if_neg (by omega)]
  exact ⟨_, rfl⟩

/-- The two turns of a transport block in two code blocks. -/
theorem encodeNew_two {a : Nat → UInt8} {A : Nat} {seg : Segments} {out : Nat → Nat → UInt8}
    (pi : Nat → Nat → Nat) (h : DlHarq)
    (hcut : lteSegmentation (addCrc24a a A) c (A + 24) = some (seg, out)) (hC : seg.C = 2)
    (hfits : ∀ r < 2, seg.Kr r / 8 ≤ 768 ∧ W_ROW * r + 3 * Kpi (seg.D r) ≤
      W_ROW * MAX_NUM_DLSCH_SEGMENTS) :
    ∃ h₁ h₂, encodeBlock pi out { h with seg } 0 = some h₁ ∧ h₁.seg = seg ∧
      encodeBlock pi out h₁ 1 = some h₂ ∧ h₂.seg = seg ∧ encodeNew pi a A c h = some h₂ := by
  obtain ⟨h₁, hrun₁⟩ :=
    @encodeBlock_exists pi out { h with seg } 0 (hfits 0 (by decide)).1 (hfits 0 (by decide)).2
  have hseg₁ : h₁.seg = seg := (encodeBlock_some hrun₁).1
  obtain ⟨h₂, hrun₂⟩ : ∃ h₂, encodeBlock pi out h₁ 1 = some h₂ := by
    apply encodeBlock_exists <;> rw [hseg₁]
    · exact (hfits 1 (by decide)).1
    · exact (hfits 1 (by decide)).2
  refine ⟨h₁, h₂, hrun₁, hseg₁, hrun₂, (encodeBlock_some hrun₂).1.trans hseg₁, ?_⟩
  have hrange : List.range seg.C = [0, 1] := by rw [hC]; rfl
  rw [encodeNew, hcut, bind_some]
  dsimp only
  rw [hrange]
  simp only [foldlM_cons, foldlM_nil, hrun₁, hrun₂, bind_eq_bind, bind_some, Option.pure_def]

theorem codedBits_zero (c : Nat → Nat → UInt8) (h : DlHarq)
    (r : Nat) : codedBits pi c h r 0 ≠ LTE_NULL := by
  obtain ⟨t, ht, hne, -⟩ :=
    turboEncoder_spec (c r) (pi (h.seg.Kr r / 8)) (show 0 < h.seg.Kr r / 8 * 8 + 4 by omega)
  rw [codedBits, Function.update_of_ne (by omega)]
  exact (codeRow_at ht _).1.trans_ne hne.1

theorem DlHarq.Own.matched_exists (own : h.Own r) (hcoded : h.d r 0 ≠ LTE_NULL) {m : Matching}
    (hdefined : ¬ (h.seg.C = 0 ∨ m.Qm = 0 ∨ m.Nl = 0 ∨ (m.Mdlharq > 0 ∧ m.Kmimo = 0)))
    (hNcb : Kpi (h.seg.D r) ≤ ({ m with C := h.seg.C } : Matching).Ncb (Phy.RTC (h.seg.D r))) :
    ∃ e, h.matched m r = some e := by
  have hD : 4 ≤ h.seg.D r := Nat.le_add_right 4 _
  have hle := le_Kpi (h.seg.D r)
  -- the turn that moves the first coded bit
  obtain ⟨hk, hindex⟩ := index_turnOf (D := h.seg.D r) (i := ND (h.seg.D r)) (by unfold ND; omega)
  generalize turnOf (h.seg.D r) (ND (h.seg.D r)) = k at hk hindex
  have hbit := interleaved (s := .systematic) (h.seg.ND_pos r) (h.d r) (fun _ => 0) hk
  have horigin : Stream.systematic.origin (h.seg.D r) k = 0 := by
    rw [Stream.origin, hindex]
    omega
  rw [horigin, Stream.place, if_neg (by omega)] at hbit
  have hkeep : (h.row r k != LTE_NULL) := by
    rw [own.row k (by omega), bne_iff_ne]
    exact fun hnull => hcoded (hbit.symm.trans hnull)
  rw [DlHarq.matched, own.RTC]
  exact ⟨_, lteRateMatchingTurbo_eq hdefined ⟨k, lt_of_lt_of_le hk hNcb, hkeep⟩⟩

/-- 6232 bits are sent in a block of 3136 and one of 3200 bits. -/
theorem two_blocks_are_kept_apart :
    ∃ h e, dlschEncoding (fun _ => id) (fun _ => 0) 6232 (fun _ _ => 0) lastVersion 0 freshHarq =
      some (h, e) ∧ ∀ r < 2, h.Apart r := by
  have hseg : segments (6232 + 24) = some ⟨2, 1, 1, 3200, 3136, 32⟩ := by decide +kernel
  obtain ⟨out, hout⟩ : ∃ out,
      lteSegmentation (addCrc24a (fun _ => 0) 6232) (fun _ _ => 0) (6232 + 24) =
      some (⟨2, 1, 1, 3200, 3136, 32⟩, out) := by
    rw [lteSegmentation, hseg, map_some]
    exact ⟨_, rfl⟩
  obtain ⟨h₁, h₂, hrun₁, hseg₁, hrun₂, hseg₂, hnew⟩ :=
    encodeNew_two (fun _ => id) freshHarq hout rfl (by decide +kernel)
  obtain ⟨-, -, -, -, hd₁, own₁⟩ := encodeBlock_some hrun₁
  obtain ⟨-, -, -, hothers, hd₂, own₂⟩ := encodeBlock_some hrun₂
  have own₁ := own₁.later (by rw [hseg₁]; decide) (by decide) hrun₂
  have hcoded₁ : h₂.d 0 0 ≠ LTE_NULL := by
    rw [(hothers 0 (by decide)).1, hd₁]
    exact codedBits_zero _ _ _
  have hcoded₂ : h₂.d 1 0 ≠ LTE_NULL := by
    rw [hd₂]
    exact codedBits_zero _ _ _
  obtain ⟨e₁, he₁⟩ := own₁.matched_exists (m := lastVersion) hcoded₁ (by rw [hseg₂]; decide)
    (by rw [hseg₂]; decide +kernel)
  obtain ⟨e₂, he₂⟩ := own₂.matched_exists (m := lastVersion) hcoded₂ (by rw [hseg₂]; decide)
    (by rw [hseg₂]; decide +kernel)
  have hrun : dlschEncoding (fun _ => id) (fun _ => 0) 6232 (fun _ _ => 0) lastVersion 0 freshHarq =
      some (h₂, e₁.1 ++ e₂.1) := by
    rw [dlschEncoding, if_pos rfl, hnew, bind_some, hseg₂, show List.range 2 = [0, 1] from rfl]
    simp [he₁, he₂]
  exact ⟨h₂, _, hrun, (code_blocks_are_kept_apart hseg hrun).2 (by decide)⟩

/-! ## Blocks of 6144 bits -/

def longBlocks : Segments := ⟨2, 2, 0, 6144, 6080, 0⟩

/-- A transport block of 12216 bits; its 765th byte is the first one of the second code block. -/
def oneByte (x : UInt8) : Nat → UInt8 := fun i => if i = 765 then x else 0

theorem Marked.update {D F : Nat} {d : Int → UInt8} (marked : Marked D F d) (x : UInt8) :
    Marked D F (Function.update d (3 * D + 2) x) := by
  refine ⟨fun p hlow hhigh => ?_, fun i hi => ?_, fun i hi => ?_, fun i hi => ?_⟩
  · rw [Function.update_of_ne (by omega)]
    exact marked.before p hlow hhigh
  · rw [Function.update_of_ne (by omega)]
    exact marked.systematic i hi
  · rw [Function.update_of_ne (by omega)]
    exact marked.parity1 i hi
  · rw [Function.update_of_ne (by omega)]
    exact marked.parity2 i hi

theorem oneByte_cut (x : UInt8) :
    ∃ out, lteSegmentation (addCrc24a (oneByte x) 12216) (fun _ _ => 0) (12216 + 24) =
      some (longBlocks, out) ∧
      out 0 = cutRow (fun _ => 0) longBlocks 24 0 0 0 (fun _ => 0) ∧ out 1 0 = x := by
  have hseg : segments (12216 + 24) = some longBlocks := by decide +kernel
  have hkept {i : Nat} (hi : i < 1527) : addCrc24a (oneByte x) 12216 i = oneByte x i := by
    refine store_of_not_mem fun p hp => ?_
    simp only [mem_cons, not_mem_nil, or_false] at hp
    obtain rfl | rfl | rfl := hp <;> dsimp only <;> omega
  rw [lteSegmentation, hseg, map_some]
  refine ⟨_, rfl, ?_, ?_⟩
  · refine ((cut_run _ 2).2.2 0).trans ((if_pos (by decide)).trans ?_)
    refine cutRow_congr (k := 0) (s := 0) (L := 24) (fun i hi => ?_) fun _ => 0
    have hi : i < 765 := hi
    exact (hkept (by omega)).trans (if_neg (by omega))
  · refine (congrFun (((cut_run _ 2).2.2 1).trans (if_pos (by decide))) 0).trans ?_
    exact (cutRow_data (k := 0) (i := 0) (s := 765) (L := 24) _ (fun _ => rfl) (by decide)).trans
      (hkept (by decide))

/-- What is left of such a block after both code blocks are interleaved. -/
theorem oneByte_encoded (x : UInt8) : ∃ h,
    encodeNew (fun _ => id) (oneByte x) 12216 (fun _ _ => 0) freshHarq = some h ∧
    h.seg = longBlocks ∧ h.RTC 0 = 193 ∧
    h.d 0 = codedBits (fun _ => id) (fun _ => cutRow (fun _ => 0) longBlocks 24 0 0 0 fun _ => 0)
      { freshHarq with seg := longBlocks } 0 ∧
    (∀ j < W_ROW, h.row 0 j = ownBuffer 6148 (h.d 0) j) ∧
    (∀ j < 96, h.row 0 (W_ROW + j) = ownBuffer 6148 (h.d 1) j) ∧ Marked 6148 0 (h.d 1) ∧
    h.d 1 12 = (x >>> 3) &&& 1 := by
  obtain ⟨out, hcut, hfirst, hsecond⟩ := oneByte_cut x
  obtain ⟨h₁, h₂, hrun₁, hseg₁, hrun₂, hseg₂, hnew⟩ :=
    encodeNew_two (fun _ => id) freshHarq hcut rfl (by decide +kernel)
  obtain ⟨-, -, -, hothers₁, hd₁, own₁⟩ := encodeBlock_some hrun₁
  obtain ⟨-, -, hbefore, hothers₂, hd₂, own₂⟩ := encodeBlock_some hrun₂
  have hsize : 3 * Kpi 6148 = W_ROW + 96 := by decide
  have hrow₁ : ∀ j < 3 * Kpi 6148, h₁.row 0 j = ownBuffer 6148 (h₁.d 0) j := by
    have hrow := own₁.row
    rw [hseg₁] at hrow
    exact hrow
  have hrow₂ : ∀ j < 3 * Kpi 6148, h₂.row 1 j = ownBuffer 6148 (h₂.d 1) j := by
    have hrow := own₂.row
    rw [hseg₂] at hrow
    exact hrow
  have hnull : h₁.d 1 = fun _ => LTE_NULL := by
    rw [(hothers₁ 1 (by decide)).1]
    rfl
  have hsecondRow : h₂.d 1 =
      Function.update (codeRow (threegpplteTurboEncoder (out 1) 6144 id) fun _ => LTE_NULL)
      (3 * (6148 : Nat) + 2) (codeRow (threegpplteTurboEncoder (out 1) 6144 id) (fun _ => LTE_NULL)
        2) := by
    rw [hd₂, codedBits, hseg₁, hnull]
    rfl
  obtain ⟨hd0, hRTC⟩ := hothers₂ 0 (by decide)
  refine ⟨h₂, hnew, hseg₂, ?_, ?_, fun j hj => ?_, fun j hj => ?_, ?_, ?_⟩
  · rw [hRTC, own₁.RTC, hseg₁]
    decide
  · rw [hd0, hd₁, codedBits, codedBits, hfirst]
  · rw [hd0, ← hrow₁ j (by omega)]
    exact hbefore _ (by omega)
  · rw [← hrow₂ j (by omega)]
    exact congrArg h₂.w (by omega)
  · rw [hsecondRow]
    exact (codeRow_marked (K := 6144) fun _ _ _ => rfl).update _
  · obtain ⟨t, ht, -, hbit⟩ :=
      turboEncoder_spec (K := 6144) (out 1) id (show 4 < 6144 + 4 by decide)
    rw [hsecondRow, Function.update_of_ne (by decide)]
    refine ((codeRow_at ht _).1).trans ((hbit (by decide)).trans ?_)
    rw [inputBit]
    change (out 1 0 >>> 3) &&& 1 = _
    rw [hsecond]

/-- A block of 6144 bits is longer than its row, and the next block shows in its bits: two transport
blocks with the same first code block, of which not the same bits are sent. -/
theorem a_code_block_shows_in_the_one_before :
    (Stream.systematic.place (longBlocks.D 0) 0 < W_ROW ∧
      W_ROW ≤ Stream.parity2.place (longBlocks.D 0) 6175) ∧
    ∃ h h', encodeNew (fun _ => id) (oneByte 0) 12216 (fun _ _ => 0) freshHarq = some h ∧
      encodeNew (fun _ => id) (oneByte 8) 12216 (fun _ _ => 0) freshHarq = some h' ∧
      h.seg = longBlocks ∧ h'.seg = longBlocks ∧ h.d 0 = h'.d 0 ∧
      h.matched lastVersion 0 ≠ h'.matched lastVersion 0 := by
  refine ⟨by decide, ?_⟩
  obtain ⟨h, hrun, hseg, hRTC, hd, hin, hbehind, marked, hbit⟩ := oneByte_encoded 0
  obtain ⟨h', hrun', hseg', hRTC', hd', hin', hbehind', marked', hbit'⟩ := oneByte_encoded 8
  refine ⟨h, h', hrun, hrun', hseg, hseg', hd.trans hd'.symm, fun heq => ?_⟩
  have hND : 0 < ND 6148 := by decide
  have hNcb : lastVersion.Ncb 193 = W_ROW + 96 := by decide
  have hsame : ∀ i < lastVersion.Ncb 193, (h.row 0 i != LTE_NULL) = (h'.row 0 i != LTE_NULL) := by
    intro i hi
    rcases lt_or_ge i W_ROW with hlt | hge
    · rw [hin i hlt, hin' i hlt, hd, hd']
    obtain ⟨j, rfl⟩ := Nat.exists_eq_add_of_le hge
    have hj : j < 96 := by omega
    have hnull := marked.interleaved (s := .systematic) (k := j) hND (fun _ => 0)
      (lt_of_lt_of_le hj (by decide))
    have hnull' := marked'.interleaved (s := .systematic) (k := j) hND (fun _ => 0)
      (lt_of_lt_of_le hj (by decide))
    rw [hbehind j hj, hbehind' j hj, Bool.eq_iff_iff, bne_iff_ne, bne_iff_ne]
    exact not_congr (hnull.trans hnull'.symm)
  -- the second place of the next row holds the fifth bit of the next block
  have hplace (d : Int → UInt8) : ownBuffer 6148 d 1 = d 12 :=
    interleaved (s := .systematic) (k := 1) hND d _ (by decide)
  have hrow : h.row 0 (W_ROW + 1) = 0 := by
    rw [hbehind 1 (by decide), hplace, hbit]
    decide
  have hrow' : h'.row 0 (W_ROW + 1) = 1 := by
    rw [hbehind' 1 (by decide), hplace, hbit']
    decide
  have hkeep : (h.row 0 (W_ROW + 1) != LTE_NULL) := by
    rw [hrow]
    decide
  have hlt : W_ROW + 1 < lastVersion.Ncb 193 := by omega
  rw [DlHarq.matched, DlHarq.matched, hseg, hseg', hRTC, hRTC'] at heq
  change lteRateMatchingTurbo 193 lastVersion (h.row 0) 0 =
    lteRateMatchingTurbo 193 lastVersion (h'.row 0) 0 at heq
  rw [lteRateMatchingTurbo_eq (by decide) ⟨_, hlt, hkeep⟩,
    lteRateMatchingTurbo_eq (by decide) ⟨_, hlt, (hsame _ hlt).symm.trans hkeep⟩,
    ← visits_congr hsame] at heq
  have hmap := congrArg Prod.fst (some.inj heq)
  have hvisit : W_ROW + 1 ∈ visits (fun i => h.row 0 i != LTE_NULL) (lastVersion.E 0)
      (lastVersion.Ncb 193) (lastVersion.ind 193) := mem_visits (by decide) hlt hkeep (by decide)
  have := map_inj_left.1 hmap _ hvisit
  rw [hrow, hrow'] at this
  exact absurd this (by decide)

end MacRlcSplit.Phy
