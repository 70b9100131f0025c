-- Rate matching of turbo coded blocks, sender and receiver
-- (`lte_rate_matching.c`): both go round the buffer in the same order, and so
-- each soft value is added where the bit that it stands for was taken.
import MacRlcSplit.Phy.TurboEncoder
import MacRlcSplit.Lib.Ring

namespace MacRlcSplit.Phy

open Lib Function List

/-! ## The source -/

/-- What both functions are called with, the block number `r` apart. -/
structure Matching where
  G : Nat
  C : Nat
  Nsoft : Nat
  Mdlharq : Nat
  Kmimo : Nat
  rvidx : Nat
  Qm : Nat
  Nl : Nat
deriving DecidableEq, Repr

namespace Matching

/-- The size of the circular buffer: downlink, or uplink. -/
def Ncb (m : Matching) (RTC : Nat) : Nat :=
  if m.Mdlharq > 0 then min (m.Nsoft / m.Kmimo / min 8 m.Mdlharq / m.C) (3 * (32 * RTC)) else 3 *
    (32 * RTC)

def E (m : Matching) (r : Nat) : Nat :=
  let Gp := m.G / m.Nl / m.Qm
  let GpmodC := Gp % m.C
  if r < m.C - GpmodC then m.Nl * m.Qm * (Gp / m.C) else m.Nl * m.Qm *
    ((if GpmodC = 0 then 0 else 1) + Gp / m.C)

def ind (m : Matching) (RTC : Nat) : Nat :=
  RTC * (2 + m.rvidx * ((if m.Ncb RTC % (8 * RTC) = 0 then 0 else 1) + m.Ncb RTC / (8 * RTC)) * 2)

end Matching

/-- `lte_rate_matching_turbo`: the bits `e` and their number. None for a division by zero, or
without an end. -/
def lteRateMatchingTurbo (RTC : Nat) (m : Matching) (w : Nat → UInt8)
    (r : Nat) : Option (List UInt8 × Nat) :=
  if m.C = 0 ∨ m.Qm = 0 ∨ m.Nl = 0 ∨ (m.Mdlharq > 0 ∧ m.Kmimo = 0) then none
  else
    (ringLoop (fun i => w i != LTE_NULL) (fun _ i e => e ++ [w i]) (m.E r) (m.Ncb RTC) (m.ind RTC)
      []).map fun e => (e, m.E r)

/-- `lte_rate_matching_turbo_rx`: the buffer `w`, and `E` unless -1 is returned. None without an
end. -/
def lteRateMatchingTurboRx (RTC : Nat) (m : Matching) (w : Nat → Int16) (dummy_w : Nat → UInt8)
    (soft_input : Nat → Int16) (clear : Bool) (r : Nat) : Option ((Nat → Int16) × Option Nat) :=
  if m.Kmimo = 0 ∨ m.C = 0 ∨ m.Qm = 0 ∨ m.Nl = 0 then some (w, none)
  else
    let w := if clear then fun j => if j < m.Ncb RTC then 0 else w j else w
    (ringLoop (fun i => dummy_w i != LTE_NULL) (fun k i w =>
      update w i (w i + soft_input k)) (m.E r) (m.Ncb RTC)
      (m.ind RTC) w).map fun w => (w, some (m.E r))

/-- A transmission of a block: the parameters, and the soft values that the receiver gets. -/
structure Round where
  matching : Matching
  soft_input : Nat → Int16

/-- The transmissions of a block, as the decoders make them: only the first one clears `w`. -/
def combine (RTC : Nat) (dummy_w : Nat → UInt8)
    (r : Nat) : Bool → List Round → (Nat → Int16) → Option (Nat → Int16)
  | _, [], w => some w
  | clear, round :: rest, w =>
    (lteRateMatchingTurboRx RTC round.matching w dummy_w round.soft_input clear r).bind
      fun (w, _) =>
      combine RTC dummy_w r false rest w

/-! ## The bits of the blocks -/

variable {m : Matching} {j : Nat} {d : Int → UInt8}

theorem sum_E (hC : m.C ≠ 0) : ((List.range m.C).map m.E).sum =
    m.Nl * m.Qm * (m.G / (m.Nl * m.Qm)) := by
  rw [← Nat.div_div_eq_div_mul]
  generalize hGp : m.G / m.Nl / m.Qm = Gp
  have hE : m.E = fun r => if r < m.C - Gp % m.C then m.Nl * m.Qm * (Gp / m.C)
      else m.Nl * m.Qm * ((if Gp % m.C = 0 then 0 else 1) + Gp / m.C) := by
    funext r
    rw [Matching.E, hGp]
  have hmod : Gp % m.C < m.C := Nat.mod_lt Gp (pos_of_ne_zero hC)
  have hmin : min m.C (m.C - Gp % m.C) = m.C - Gp % m.C := by omega
  have hrest : m.C - (m.C - Gp % m.C) = Gp % m.C := by omega
  rw [hE, sum_range_ite, hmin, hrest]
  obtain ⟨a, ha⟩ : ∃ a, m.C - Gp % m.C = a := ⟨_, rfl⟩
  have hsplit : m.C = a + Gp % m.C := by omega
  have hGp : Gp = (a + Gp % m.C) * (Gp / m.C) + Gp % m.C := by
    rw [← hsplit]
    exact (Nat.div_add_mod Gp m.C).symm
  rw [ha]
  conv_rhs => rw [hGp]
  split
  · next hzero => rw [hzero]; ring
  · ring

/-! ## Where the bits come from -/

variable {D F : Nat}

/-- The place in `d` of a place in `w`. -/
def source (D j : Nat) : Int :=
  if j < Kpi D then Stream.origin D j .systematic
  else if (j - Kpi D) % 2 = 0 then Stream.origin D ((j - Kpi D) / 2) .parity1
  else Stream.origin D ((j - Kpi D) / 2) .parity2

theorem source_place {s : Stream} {k : Nat} (hk : k < Kpi D) :
    source D (s.place D k) = s.origin D k := by
  cases s with
  | systematic => rw [Stream.place, source, if_pos hk]
  | parity1 =>
    have hhalf : (Kpi D + 2 * k - Kpi D) / 2 = k := by omega
    rw [Stream.place, source, if_neg (by omega), if_pos (by omega), hhalf]
  | parity2 =>
    have hhalf : (Kpi D + 1 + 2 * k - Kpi D) / 2 = k := by omega
    rw [Stream.place, source, if_neg (by omega), if_neg (by omega), hhalf]

theorem source_inj {i : Nat} (hi : i < 3 * Kpi D) (hj : j < 3 * Kpi D)
    (h : source D i = source D j) : i = j := by
  obtain ⟨s, k, hk, rfl⟩ := Stream.exists_place hi
  obtain ⟨s', k', hk', rfl⟩ := Stream.exists_place hj
  rw [source_place hk, source_place hk'] at h
  obtain ⟨rfl, rfl⟩ := Stream.origin_inj hk hk' h
  rfl

/-- What the receiver expects of a block with `F` filler bits. -/
def expected (D F : Nat) : Nat → UInt8 := (generateDummyW D (fun _ => 0) F).2

/-- The places of the bits of block `r`, in the order of the bits. -/
def taken (D F : Nat) (m : Matching) (r : Nat) : List Int :=
  (visits (fun i => expected D F i != LTE_NULL) (m.E r) (m.Ncb (RTC D)) (m.ind (RTC D))).map
    (source D)

theorem Ncb_le (m : Matching) (D : Nat) : m.Ncb (RTC D) ≤ 3 * Kpi D := by
  unfold Matching.Ncb Kpi
  split
  · exact min_le_right _ _
  · exact le_rfl

/-! ## Soft values -/

section Soft

variable {ι : Type} [DecidableEq ι]

/-- The sum of the soft values of the turns, from `k` on, that are at `p`. -/
def ownSum (soft : Nat → Int16) (p : ι) : Nat → List ι → Int
  | _, [] => 0
  | k, i :: l => (if i = p then (soft k).toInt else 0) + ownSum soft p (k + 1) l

theorem ownSum_map {soft : Nat → Int16} {κ : Type} [DecidableEq κ] {f : ι → κ} {p : ι} {l : List ι}
    (h : ∀ i ∈ l, f i = f p → i = p) (k : Nat) : ownSum soft (f p) k (l.map f) =
      ownSum soft p k l := by
  induction l generalizing k with
  | nil => rfl
  | cons i l ih =>
    have hiff : f i = f p ↔ i = p := ⟨h i mem_cons_self, fun heq => by rw [heq]⟩
    rw [map_cons, ownSum, ownSum, ih fun j hj => h j (mem_cons_of_mem i hj)]
    simp only [hiff]

end Soft

theorem bmod_toInt (x : Int16) : x.toInt.bmod (2 ^ 16) = x.toInt :=
  Int.bmod_eq_of_le (by have := Int16.le_toInt x; omega) (by have := Int16.toInt_lt x; omega)

theorem eachPlace_add (soft : Nat → Int16) (k : Nat) (l : List Nat) (w : Nat → Int16) (j : Nat) :
    (eachPlace (fun k i w => update w i (w i + soft k)) k l w j).toInt =
      ((w j).toInt + ownSum soft j k l).bmod (2 ^ 16) := by
  induction l generalizing k w with
  | nil => rw [eachPlace, ownSum, add_zero, bmod_toInt]
  | cons i l ih =>
    rw [eachPlace, ih, ownSum]
    by_cases hij : i = j
    · subst hij
      rw [update_self, if_pos rfl, Int16.toInt_add, Int.bmod_add_bmod, add_assoc]
    · rw [update_of_ne (Ne.symm hij), if_neg hij, zero_add]

/-! ## Both sides -/

/-- A code block of `K` bits, of which the first `F` are filler bits. -/
structure CodeBlock (K F : Nat) : Prop where
  eight : 8 ∣ K
  low : 40 ≤ K
  high : K ≤ 6144
  filler : F < 64
  fits : F ≤ K

variable {K : Nat}

theorem CodeBlock.ND_pos (block : CodeBlock K F) : 0 < ND (K + 4) ∧ ND (K + 4) ≤ 28 := by
  have := block.eight
  unfold ND Kpi RTC
  split <;> omega

theorem CodeBlock.null_rows (block : CodeBlock K F) :
    ND (K + 4) + F ≤ 96 ∧ ND (K + 4) + F ≤ Kpi (K + 4) := by
  have := block.ND_pos
  have := block.filler
  have := block.fits
  have := le_Kpi (K + 4)
  constructor
  · omega
  · unfold ND
    omega

theorem CodeBlock.null_iff (block : CodeBlock K F) (marked : Marked (K + 4) F d) (w : Nat → UInt8)
    (hj : j < 3 * Kpi (K + 4)) :
    (subBlockInterleavingTurbo (K + 4) d w).2.2 j = LTE_NULL ↔ expected (K + 4) F j = LTE_NULL := by
  obtain ⟨s, k, hk, rfl⟩ := Stream.exists_place hj
  obtain ⟨hrows, hfits⟩ := block.null_rows
  rw [marked.interleaved block.ND_pos.1 w hk, expected,
    generateDummyW_null block.ND_pos.1 hrows hfits (fun _ =>
      (by decide : (0 : UInt8) ≠ LTE_NULL)) hk]

/-- Parameters for which there is a circular buffer with something in it. -/
structure Usable (D F : Nat) (m : Matching) : Prop where
  C : m.C ≠ 0
  Qm : m.Qm ≠ 0
  Nl : m.Nl ≠ 0
  Kmimo : m.Kmimo ≠ 0
  bit : ∃ j < m.Ncb (RTC D), expected D F j ≠ LTE_NULL

theorem Usable.kept (usable : Usable D F m) : ∃ i < m.Ncb (RTC D),
    (expected D F i != LTE_NULL) := by
  obtain ⟨j, hj, hne⟩ := usable.bit
  exact ⟨j, hj, bne_iff_ne.2 hne⟩

theorem Usable.length_taken (usable : Usable D F m) (r : Nat) : (taken D F m r).length = m.E r := by
  rw [taken, length_map, length_visits usable.kept]

theorem CodeBlock.visited (block : CodeBlock K F) (marked : Marked (K + 4) F d) (w : Nat → UInt8)
    (hj : j < 3 * Kpi (K + 4)) (hne : expected (K + 4) F j ≠ LTE_NULL) :
    (subBlockInterleavingTurbo (K + 4) d w).2.2 j = d (source (K + 4) j) ∧
      0 ≤ source (K + 4) j ∧ source (K + 4) j < 3 * (K + 4 : Nat) := by
  have hbit : (subBlockInterleavingTurbo (K + 4) d w).2.2 j ≠ LTE_NULL :=
    fun h => hne ((block.null_iff marked w hj).1 h)
  obtain ⟨s, k, hk, rfl⟩ := Stream.exists_place hj
  rw [interleaved block.ND_pos.1 d w hk] at hbit ⊢
  split at hbit
  · exact absurd rfl hbit
  next hlast =>
  obtain ⟨hlow, hhigh⟩ := Stream.origin_bounds hk hlast
  rw [if_neg hlast, source_place hk]
  refine ⟨rfl, ?_, hhigh⟩
  by_contra hneg
  exact hbit (marked.before _ hlow (by omega))

theorem CodeBlock.mem_taken (block : CodeBlock K F) (marked : Marked (K + 4) F d) {r : Nat}
    {q : Int} (h : q ∈ taken (K + 4) F m r) : 0 ≤ q ∧ q < 3 * (K + 4 : Nat) ∧ d q ≠ LTE_NULL := by
  obtain ⟨j, hj, rfl⟩ := mem_map.1 h
  obtain ⟨hlt, hne⟩ := of_mem_visits hj
  have hj := lt_of_lt_of_le hlt (Ncb_le m (K + 4))
  have hne := bne_iff_ne.1 hne
  obtain ⟨hbit, hlow, hhigh⟩ := block.visited marked (fun _ => 0) hj hne
  refine ⟨hlow, hhigh, ?_⟩
  rw [← hbit]
  exact fun hnull => hne ((block.null_iff marked _ hj).1 hnull)

theorem lteRateMatchingTurbo_eq {RTC r : Nat} {w : Nat → UInt8}
    (hdefined : ¬ (m.C = 0 ∨ m.Qm = 0 ∨ m.Nl = 0 ∨ (m.Mdlharq > 0 ∧ m.Kmimo = 0)))
    (hkept : ∃ i < m.Ncb RTC, (w i != LTE_NULL)) :
    lteRateMatchingTurbo RTC m w r =
      some ((visits (fun i => w i != LTE_NULL) (m.E r) (m.Ncb RTC) (m.ind RTC)).map w, m.E r) := by
  rw [lteRateMatchingTurbo, if_neg hdefined, ringLoop_eq hkept, Option.map_some, eachPlace_collect,
    nil_append]

theorem CodeBlock.sends (block : CodeBlock K F) (marked : Marked (K + 4) F d) (w : Nat → UInt8)
    (usable : Usable (K + 4) F m) (r : Nat) :
    lteRateMatchingTurbo (RTC (K + 4)) m (subBlockInterleavingTurbo (K + 4) d w).2.2 r =
      some ((taken (K + 4) F m r).map d, m.E r) := by
  have same : ∀ i < m.Ncb (RTC (K + 4)),
      ((subBlockInterleavingTurbo (K + 4) d w).2.2 i != LTE_NULL) =
      (expected (K + 4) F i != LTE_NULL) := by
    intro i hi
    have hiff := block.null_iff marked w (lt_of_lt_of_le hi (Ncb_le m (K + 4)))
    rw [Bool.eq_iff_iff, bne_iff_ne, bne_iff_ne]
    exact not_congr hiff
  have hkept : ∃ i < m.Ncb (RTC (K + 4)),
      ((subBlockInterleavingTurbo (K + 4) d w).2.2 i != LTE_NULL) := by
    obtain ⟨i, hi, hkeep⟩ := usable.kept
    exact ⟨i, hi, (same i hi).trans hkeep⟩
  have hdefined : ¬ (m.C = 0 ∨ m.Qm = 0 ∨ m.Nl = 0 ∨ (m.Mdlharq > 0 ∧ m.Kmimo = 0)) := by
    rintro (h | h | h | ⟨-, h⟩)
    · exact usable.C h
    · exact usable.Qm h
    · exact usable.Nl h
    · exact usable.Kmimo h
  rw [lteRateMatchingTurbo_eq hdefined hkept, visits_congr same, taken, map_map]
  congr 2
  refine map_congr_left fun i hi => ?_
  obtain ⟨hlt, hne⟩ := of_mem_visits hi
  exact (block.visited marked w (lt_of_lt_of_le hlt (Ncb_le m (K + 4))) (bne_iff_ne.1 hne)).1

def cleared (D : Nat) (m : Matching) (clear : Bool) (w : Nat → Int16) : Nat → Int16 :=
  if clear then fun j => if j < m.Ncb (RTC D) then 0 else w j else w

theorem Usable.receives (usable : Usable D F m) (w soft_input : Nat → Int16) (clear : Bool)
    (r : Nat) :
    ∃ w', lteRateMatchingTurboRx (RTC D) m w (expected D F) soft_input clear r =
      some (w', some (m.E r)) ∧ ∀ j < 3 * Kpi D, (w' j).toInt =
        ((cleared D m clear w j).toInt + ownSum soft_input (source D j) 0 (taken D F m r)).bmod
          (2 ^ 16) := by
  have hdefined : ¬ (m.Kmimo = 0 ∨ m.C = 0 ∨ m.Qm = 0 ∨ m.Nl = 0) := by
    rintro (h | h | h | h)
    · exact usable.Kmimo h
    · exact usable.C h
    · exact usable.Qm h
    · exact usable.Nl h
  have hrx : lteRateMatchingTurboRx (RTC D) m w (expected D F) soft_input clear r =
      some (eachPlace (fun k i w => update w i (w i + soft_input k)) 0
        (visits (fun i => expected D F i != LTE_NULL) (m.E r) (m.Ncb (RTC D)) (m.ind (RTC D)))
          (cleared D m clear w),
        some (m.E r)) := by
    rw [lteRateMatchingTurboRx, if_neg hdefined]
    dsimp only
    rw [ringLoop_eq usable.kept]
    rfl
  refine ⟨_, hrx, fun j hj => ?_⟩
  rw [eachPlace_add, taken, ownSum_map]
  intro i hi heq
  exact source_inj (lt_of_lt_of_le (of_mem_visits hi).1 (Ncb_le m D)) hj heq

/-- The soft values of all transmissions for a place. -/
def totalSum (D F r : Nat) (rounds : List Round) (q : Int) : Int :=
  (rounds.map fun round => ownSum round.soft_input q 0 (taken D F round.matching r)).sum

theorem totalSum_cons (D F r : Nat) (round : Round) (rounds : List Round) (q : Int) :
    totalSum D F r (round :: rounds) q =
      ownSum round.soft_input q 0 (taken D F round.matching r) + totalSum D F r rounds q := by
  rfl

theorem combine_adds {rounds : List Round} (usable : ∀ round ∈ rounds, Usable D F round.matching)
    (r : Nat) (w : Nat → Int16) : ∃ w', combine (RTC D) (expected D F) r false rounds w = some w' ∧
      ∀ j < 3 * Kpi D, (w' j).toInt =
        ((w j).toInt + totalSum D F r rounds (source D j)).bmod (2 ^ 16) := by
  induction rounds generalizing w with
  | nil =>
    refine ⟨w, rfl, fun j _ => ?_⟩
    rw [totalSum, map_nil, sum_nil, add_zero, bmod_toInt]
  | cons round rounds ih =>
    obtain ⟨w₁, hrx, hsum⟩ := (usable round mem_cons_self).receives w round.soft_input false r
    obtain ⟨w₂, hrest, hsum₂⟩ := ih (fun round hround => usable round (mem_cons_of_mem _ hround)) w₁
    refine ⟨w₂, ?_, fun j hj => ?_⟩
    · rw [combine, hrx]
      exact hrest
    · have hclear : cleared D round.matching false w = w := rfl
      rw [hsum₂ j hj, hsum j hj, hclear, Int.bmod_add_bmod, totalSum_cons, add_assoc]

/-- From a first transmission on: what is left in the buffer behind `Ncb`, and the soft values. -/
theorem Usable.combines {first : Round} {rounds : List Round}
    (usable : ∀ round ∈ first :: rounds, Usable D F round.matching) (r : Nat) (w : Nat → Int16)
    (d : Int → Int16) :
    ∃ w', combine (RTC D) (expected D F) r true (first :: rounds) w = some w' ∧
      ∀ (s : Stream) (k : Nat), k < Kpi D →
      (subBlockDeinterleavingTurbo D d w' (s.origin D k)).toInt =
        ((cleared D first.matching true w (s.place D k)).toInt +
          totalSum D F r (first :: rounds) (s.origin D k)).bmod (2 ^ 16) := by
  obtain ⟨w₁, hrx, hsum⟩ := (usable first mem_cons_self).receives w first.soft_input true r
  obtain ⟨w₂, hrest, hsum₂⟩ :=
    combine_adds (fun round hround => usable round (mem_cons_of_mem _ hround)) r w₁
  refine ⟨w₂, ?_, fun s k hk => ?_⟩
  · rw [combine, hrx]
    exact hrest
  have hj := Stream.place_lt (s := s) hk
  rw [deinterleaved d w₂ hk, hsum₂ _ hj, hsum _ hj, Int.bmod_add_bmod, source_place hk,
    totalSum_cons, add_assoc]

theorem bmod_add_eq_iff (x : Int16) (n : Int) :
    (x.toInt + n).bmod (2 ^ 16) = n ↔ x = 0 ∧ -2 ^ 15 ≤ n ∧ n < 2 ^ 15 := by
  have hlow := Int16.le_toInt x
  have hhigh := Int16.toInt_lt x
  have hzero : x = 0 ↔ x.toInt = 0 := Int16.toInt_inj.symm
  rw [hzero, Int.bmod]
  split <;> omega

/-- Only without filler bits is what the encoder leaves NULL what the receiver expects to be
NULL. -/
theorem CodeBlock.filler_eq_zero (block : CodeBlock K F) (marked : Marked (K + 4) 0 d)
    (w : Nat → UInt8)
    (h : ∀ j < 3 * Kpi (K + 4), (subBlockInterleavingTurbo (K + 4) d w).2.2 j = LTE_NULL ↔
      expected (K + 4) F j = LTE_NULL) : F = 0 := by
  obtain ⟨hrows, hfits⟩ := block.null_rows
  have hle := le_Kpi (K + 4)
  -- the turn that moves the first bit of the block
  obtain ⟨hk, hindex⟩ := index_turnOf (D := K + 4) (i := ND (K + 4)) (by unfold ND; omega)
  have hfirst := h _ (Stream.place_lt (s := .systematic) hk)
  rw [marked.interleaved block.ND_pos.1 w hk, expected,
    generateDummyW_null block.ND_pos.1 hrows hfits (fun _ =>
      (by decide : (0 : UInt8) ≠ LTE_NULL)) hk] at hfirst
  simp only [Stream.Null, hindex] at hfirst
  omega

/-- Sender and receiver agree on the NULLs and on the place of every bit if and only if the block
has no filler bits. A coded bit is received as the sum of its soft values if and only if nothing of
an earlier block is in its place behind `Ncb` and the sum is that of an `int16_t`. -/
theorem rate_matching_agrees (block : CodeBlock K F) (input : Nat → UInt8) (pi : Nat → Nat)
    {row : Int → UInt8} (before : ∀ p : Int, -96 ≤ p → p < 0 → row p = LTE_NULL) :
    let d := codeRow (threegpplteTurboEncoder input K pi) row
    let w := (subBlockInterleavingTurbo (K + 4) d fun _ => 0).2.2
    ((∀ j < 3 * Kpi (K + 4), w j = LTE_NULL ↔ expected (K + 4) F j = LTE_NULL) ∧
      (∀ m, Usable (K + 4) F m → ∀ r, (taken (K + 4) F m r).length = m.E r ∧
        (∀ q ∈ taken (K + 4) F m r, 0 ≤ q ∧ q < 3 * (K + 4 : Nat) ∧ d q ≠ LTE_NULL) ∧
        lteRateMatchingTurbo (RTC (K + 4)) m w r = some ((taken (K + 4) F m r).map d, m.E r)) ↔
        F = 0) ∧
    (∀ m, Usable (K + 4) F m → ((List.range m.C).map m.E).sum =
      m.Nl * m.Qm * (m.G / (m.Nl * m.Qm))) ∧
    ∀ q : Int, 0 ≤ q → q < 3 * (K + 4 : Nat) → ∃ j < 3 * Kpi (K + 4), source (K + 4) j = q ∧
      ∀ first rounds, (∀ round ∈ first :: rounds, Usable (K + 4) F round.matching) →
        ∀ (r : Nat) (buffer : Nat → Int16) (llr : Int → Int16), ∃ buffer',
          combine (RTC (K + 4)) (expected (K + 4) F) r true (first :: rounds) buffer =
            some buffer' ∧
          ((subBlockDeinterleavingTurbo (K + 4) llr buffer' q).toInt =
            totalSum (K + 4) F r (first :: rounds) q ↔
            (first.matching.Ncb (RTC (K + 4)) ≤ j → buffer j = 0) ∧
              -2 ^ 15 ≤ totalSum (K + 4) F r (first :: rounds) q ∧
              totalSum (K + 4) F r (first :: rounds) q < 2 ^ 15) := by
  intro d w
  have marked : Marked (K + 4) 0 d := codeRow_marked before
  refine ⟨⟨fun h => block.filler_eq_zero marked _ h.1, ?_⟩, fun m usable => sum_E usable.C, ?_⟩
  · rintro rfl
    refine ⟨fun j hj => block.null_iff marked _ hj, fun m usable r =>
      ⟨usable.length_taken r, ?_, ?_⟩⟩
    · exact fun q hq => block.mem_taken marked hq
    · exact block.sends marked _ usable r
  · intro q hlow hhigh
    obtain ⟨s, k, hk, rfl, -⟩ := Stream.exists_origin block.ND_pos.1 hlow hhigh
    refine ⟨s.place (K + 4) k, Stream.place_lt hk, source_place hk,
      fun first rounds usable r buffer llr => ?_⟩
    obtain ⟨buffer', hrun, hsum⟩ := Usable.combines usable r buffer llr
    have hleft : cleared (K + 4) first.matching true buffer (s.place (K + 4) k) = 0 ↔
        (first.matching.Ncb (RTC (K + 4)) ≤ s.place (K + 4) k →
          buffer (s.place (K + 4) k) = 0) := by
      rw [cleared, if_pos rfl]
      split
      · next hlt => exact iff_of_true rfl fun hge => absurd hlt (by omega)
      · next hge => exact ⟨fun h _ => h, fun h => h (by omega)⟩
    exact ⟨buffer', hrun, by rw [hsum s k hk, bmod_add_eq_iff, hleft]⟩

def wholeBlock : Matching where
  G := 132
  C := 1
  Nsoft := 1536
  Mdlharq := 8
  Kmimo := 1
  rvidx := 0
  Qm := 1
  Nl := 1

def limitedBlock : Matching := { wholeBlock with G := 40, Nsoft := 800 }

theorem wholeBlock_usable : Usable 44 0 wholeBlock where
  C := by decide
  Qm := by decide
  Nl := by decide
  Kmimo := by decide
  bit := ⟨1, by decide +kernel⟩

theorem short_block_agrees : lteRateMatchingTurbo 2 wholeBlock
        (subBlockInterleavingTurbo 44 (codeRow (threegpplteTurboEncoder (fun _ => 0) 40 id)
          fun _ => LTE_NULL) fun _ => 0).2.2 0 =
      some ((taken 44 0 wholeBlock 0).map (codeRow (threegpplteTurboEncoder (fun _ => 0) 40 id)
        fun _ => LTE_NULL), 132) ∧
    ∃ w, combine 2 (expected 44 0) 0 true [⟨wholeBlock, fun _ => 1⟩,
      ⟨wholeBlock, fun _ => 2⟩] (fun _ => 0) = some w ∧
      (subBlockDeinterleavingTurbo 44 (fun _ => 0) w 24).toInt = 3 := by
  have block : CodeBlock 40 0 := ⟨by decide, by decide, by decide, by decide, by decide⟩
  obtain ⟨hagree, -, hreceives⟩ :=
    @rate_matching_agrees 0 40 block (fun _ => 0) id (fun _ => LTE_NULL) fun _ _ _ => rfl
  refine ⟨((hagree.2 rfl).2 wholeBlock wholeBlock_usable 0).2.2, ?_⟩
  have usable : ∀ round ∈ [(⟨wholeBlock, fun _ => 1⟩ : Round), ⟨wholeBlock, fun _ => 2⟩],
      Usable 44 0 round.matching := by
    intro round hround
    simp only [mem_cons, not_mem_nil, or_false] at hround
    obtain rfl | rfl := hround
    all_goals exact wholeBlock_usable
  obtain ⟨j, -, -, hbit⟩ := hreceives 24 (by decide) (by decide)
  obtain ⟨w, hrun, hsum⟩ := hbit _ _ usable 0 (fun _ => 0) fun _ => 0
  have htotal : totalSum 44 0 0 [⟨wholeBlock, fun _ => 1⟩, ⟨wholeBlock, fun _ => 2⟩] 24 = 3 := by
    decide +kernel
  rw [htotal] at hsum
  exact ⟨w, hrun, hsum.2 ⟨fun _ => rfl, by decide⟩⟩

/-- The encoder has no NULLs for filler bits, a soft value of an earlier block stays behind a
smaller buffer, and a sum can be too large for an `int16_t`. -/
theorem rate_matching_disagrees :
    ((subBlockInterleavingTurbo 44 (codeRow (threegpplteTurboEncoder (fun _ => 0) 40 id)
      fun _ => LTE_NULL)
        fun _ => 0).2.2 10 ≠ LTE_NULL ∧ expected 44 8 10 = LTE_NULL) ∧
    (∃ w, (combine 2 (expected 44 0) 0 true [⟨wholeBlock, fun _ => 1⟩] (fun _ => 0)).bind
        (combine 2 (expected 44 0) 0 true [⟨limitedBlock, fun _ => 1⟩]) = some w ∧
      (subBlockDeinterleavingTurbo 44 (fun _ => 0) w 100).toInt = 1 ∧
      totalSum 44 0 0 [⟨limitedBlock, fun _ => 1⟩] 100 = 0) ∧
    (∃ w, combine 2 (expected 44 0) 0 true [⟨wholeBlock, fun _ => 20000⟩,
      ⟨wholeBlock, fun _ => 20000⟩] (fun _ => 0) = some w ∧
      (subBlockDeinterleavingTurbo 44 (fun _ => 0) w 100).toInt = -25536 ∧
      totalSum 44 0 0 [⟨wholeBlock, fun _ => 20000⟩, ⟨wholeBlock, fun _ => 20000⟩] 100 =
        40000) := by
  refine ⟨by decide +kernel, ?_, ?_⟩
  · have h : ((combine 2 (expected 44 0) 0 true [⟨wholeBlock, fun _ => 1⟩] (fun _ => 0)).bind
        (combine 2 (expected 44 0) 0 true [⟨limitedBlock, fun _ => 1⟩])).any (fun w =>
        decide ((subBlockDeinterleavingTurbo 44 (fun _ => 0) w 100).toInt = 1 ∧
          totalSum 44 0 0 [⟨limitedBlock, fun _ => 1⟩] 100 = 0)) := by decide +kernel
    obtain ⟨w, hrun, hw⟩ := (Option.any_eq_true _ _).1 h
    exact ⟨w, hrun, of_decide_eq_true hw⟩
  · have h : (combine 2 (expected 44 0) 0 true [⟨wholeBlock, fun _ => 20000⟩,
        ⟨wholeBlock, fun _ => 20000⟩] (fun _ => 0)).any
        (fun w => decide ((subBlockDeinterleavingTurbo 44 (fun _ => 0) w 100).toInt = -25536 ∧
          totalSum 44 0 0 [⟨wholeBlock, fun _ => 20000⟩, ⟨wholeBlock, fun _ => 20000⟩] 100 =
            40000)) := by decide +kernel
    obtain ⟨w, hrun, hw⟩ := (Option.any_eq_true _ _).1 h
    exact ⟨w, hrun, of_decide_eq_true hw⟩

end MacRlcSplit.Phy
