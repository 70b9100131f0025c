-- The sub-block interleaver of turbo coded blocks (`lte_rate_matching.c`):
-- into the circular buffer, back from it, and the places that the receiver
-- expects to be NULL. Here `d` is the pointer that the functions get; the
-- 96 bytes before it are in the same row.
import MacRlcSplit.Lib.Store

namespace MacRlcSplit.Phy

open Lib Function List

/-! ## The source -/

def LTE_NULL : UInt8 := 2

def bitrev : List Nat :=
  [0, 16, 8, 24, 4, 20, 12, 28, 2, 18, 10, 26, 6, 22, 14, 30, 1, 17, 9, 25, 5, 21, 13, 29, 3, 19,
    11, 27, 7, 23, 15, 31]

def bitrev_x3 : List Nat :=
  [0, 48, 24, 72, 12, 60, 36, 84, 6, 54, 30, 78, 18, 66, 42, 90, 3, 51, 27, 75, 15, 63, 39, 87, 9,
    57, 33, 81, 21, 69, 45, 93]

def RTC (D : Nat) : Nat := if D % 32 > 0 then D / 32 + 1 else D / 32

def Kpi (D : Nat) : Nat := 32 * RTC D

/-- The NULLs in front, to fill up the rows. -/
def ND (D : Nat) : Nat := Kpi D - D

/-- The turns of the loop over `col` and `row`: `index3`, and `k` which counts them. The source
keeps `2 * k` in `k2`. -/
def turns (D : Nat) : List (Nat × Nat) :=
  ((List.range 32).flatMap fun col => (List.range (RTC D)).map fun row =>
    bitrev_x3.getD col 0 + 96 * row).zipIdx

/-- What `sub_block_interleaving_turbo` writes to `w`; its `d1`, `d2` and `d3` are `d` from `-3 *
ND` on. -/
def interleaverWrites (D : Nat) (d : Int → UInt8) : List (Nat × UInt8) :=
  (turns D).flatMap fun (index3, k) =>
    [(k, d (index3 - 3 * ND D)), (Kpi D + 2 * k, d (index3 - 3 * ND D + 1)),
      (Kpi D + 1 + 2 * k, d (index3 - 3 * ND D + 5))]

/-- `sub_block_interleaving_turbo`: the rows, `d` with its first parity bit copied behind the last,
and `w`. -/
def subBlockInterleavingTurbo (D : Nat) (d : Int → UInt8)
    (w : Nat → UInt8) : Nat × (Int → UInt8) × (Nat → UInt8) :=
  let d := update d (3 * D + 2) (d 2)
  let w := store w (interleaverWrites D d)
  (RTC D, d, if ND D > 0 then update w (3 * Kpi D - 1) LTE_NULL else w)

/-- What `sub_block_deinterleaving_turbo` writes to `d`. -/
def deinterleaverWrites (D : Nat) (w : Nat → Int16) : List (Int × Int16) :=
  (turns D).flatMap fun (index3, k) =>
    [(index3 - 3 * ND D, w k), (index3 - 3 * ND D + 1, w (Kpi D + 2 * k)),
      (index3 - 3 * ND D + 5, w (Kpi D + 1 + 2 * k))]

def subBlockDeinterleavingTurbo (D : Nat) (d : Int → Int16) (w : Nat → Int16) : Int → Int16 :=
  store d (deinterleaverWrites D w)

/-- The places that `generate_dummy_w` writes, column by column. -/
def dummyPlaces (D F : Nat) : List Nat := (List.range 32).flatMap fun col =>
    let index := bitrev.getD col 0
    let k := col * RTC D
    (if index < ND D + F then [k, Kpi D + 2 * k] else []) ++
      (if index + 32 < ND D + F then [k + 1, Kpi D + 2 + 2 * k] else []) ++
      (if index + 64 < ND D + F then [k + 2, Kpi D + 4 + 2 * k] else []) ++
      (if index + 1 < ND D then [Kpi D + 1 + 2 * k] else [])

def generateDummyW (D : Nat) (w : Nat → UInt8) (F : Nat) : Nat × (Nat → UInt8) :=
  let w := store w ((dummyPlaces D F).map (·, LTE_NULL))
  (RTC D, if ND D > 0 then update w (3 * Kpi D - 1) LTE_NULL else w)

/-! ## Columns and rows -/

/-- The index that the `k`-th turn reads. -/
def index (D k : Nat) : Nat := bitrev.getD (k / RTC D) 0 + 32 * (k % RTC D)

def turnOf (D i : Nat) : Nat := bitrev.getD (i % 32) 0 * RTC D + i / 32

theorem bitrev_spec : ∀ c < 32, bitrev.getD c 0 < 32 ∧ bitrev.getD (bitrev.getD c 0) 0 = c ∧
    bitrev_x3.getD c 0 = 3 * bitrev.getD c 0 := by
  decide

variable {D F : Nat}

theorem le_Kpi (D : Nat) : D ≤ Kpi D ∧ Kpi D < D + 32 := by
  unfold Kpi RTC
  split <;> omega

theorem ND_lt (D : Nat) : ND D < 32 := by
  have := le_Kpi D
  unfold ND
  omega

theorem turns_eq (D : Nat) : turns D = (List.range (Kpi D)).map fun k => (3 * index D k, k) := by
  unfold turns
  rw [flatMap_range_map, ← Kpi]
  refine ext_getElem (by simp) fun k hk hk' => ?_
  have hlt : k / RTC D < 32 := by
    have : k < 32 * RTC D := by simpa [Kpi] using hk'
    exact Nat.div_lt_of_lt_mul (by omega)
  have hx3 := (bitrev_spec _ hlt).2.2
  simp only [getElem_zipIdx, getElem_map, getElem_range, hx3, index, zero_add, Prod.mk.injEq,
    and_true]
  omega

theorem index_turnOf {i : Nat} (hi : i < Kpi D) : turnOf D i < Kpi D ∧
    index D (turnOf D i) = i := by
  obtain ⟨hlt, hinv, -⟩ := bitrev_spec (i % 32) (Nat.mod_lt i (by decide))
  have hrow : i / 32 < RTC D := Nat.div_lt_of_lt_mul hi
  have hdiv : turnOf D i / RTC D = bitrev.getD (i % 32) 0 := by
    rw [turnOf, mul_comm, Nat.mul_add_div (by omega), Nat.div_eq_of_lt hrow, add_zero]
  have hmod : turnOf D i % RTC D = i / 32 := by
    rw [turnOf, mul_comm, Nat.mul_add_mod, Nat.mod_eq_of_lt hrow]
  constructor
  · have hle : bitrev.getD (i % 32) 0 * RTC D ≤ 31 * RTC D := Nat.mul_le_mul_right _ (by omega)
    unfold turnOf Kpi
    omega
  · rw [index, hdiv]
    omega

theorem turnOf_index {k : Nat} (hk : k < Kpi D) : index D k < Kpi D ∧ turnOf D (index D k) = k := by
  have hpos : 0 < RTC D := by
    unfold Kpi at hk
    omega
  have hcol : k / RTC D < 32 := Nat.div_lt_of_lt_mul (by rw [mul_comm]; exact hk)
  have hrow : k % RTC D < RTC D := Nat.mod_lt k hpos
  obtain ⟨hlt, hinv, -⟩ := bitrev_spec _ hcol
  have hmod : index D k % 32 = bitrev.getD (k / RTC D) 0 := by
    unfold index
    omega
  have hdiv : index D k / 32 = k % RTC D := by
    unfold index
    omega
  constructor
  · unfold Kpi
    omega
  · rw [turnOf, hmod, hdiv, hinv]
    exact Nat.div_add_mod' k (RTC D)

/-! ## The three streams -/

/-- What a turn of the loop moves: a systematic bit, and a bit of each parity. -/
inductive Stream where
  | systematic
  | parity1
  | parity2
deriving DecidableEq, Repr

/-- The place in `w` of the `k`-th turn. -/
def Stream.place (D k : Nat) : Stream → Nat
  | .systematic => k
  | .parity1 => Kpi D + 2 * k
  | .parity2 => Kpi D + 1 + 2 * k

/-- The place in `d`, which the second parity is one index ahead of. -/
def Stream.origin (D k : Nat) : Stream → Int
  | .systematic => 3 * index D k - 3 * ND D
  | .parity1 => 3 * index D k - 3 * ND D + 1
  | .parity2 => 3 * index D k - 3 * ND D + 5

variable {s s' : Stream} {k k' : Nat}

theorem Stream.place_lt (hk : k < Kpi D) : s.place D k < 3 * Kpi D := by
  cases s <;> simp only [place] <;> omega

theorem Stream.place_inj (hk : k < Kpi D) (hk' : k' < Kpi D)
    (h : s.place D k = s'.place D k') : s = s' ∧ k = k' := by
  cases s <;> cases s' <;> simp only [place] at h <;> first | exact ⟨rfl, by omega⟩ | omega

theorem Stream.exists_place {j : Nat} (hj : j < 3 * Kpi D) :
    ∃ s k, k < Kpi D ∧ Stream.place D k s = j := by
  by_cases hlow : j < Kpi D
  · exact ⟨.systematic, j, hlow, rfl⟩
  by_cases heven : (j - Kpi D) % 2 = 0
  · exact ⟨.parity1, (j - Kpi D) / 2, by omega, by simp only [place]; omega⟩
  · exact ⟨.parity2, (j - Kpi D) / 2, by omega, by simp only [place]; omega⟩

/-- Only the last place, which is written over, comes from behind the coded bits. -/
theorem Stream.place_last (hk : k < Kpi D) : s.place D k = 3 * Kpi D - 1 ↔
    s = .parity2 ∧ k = Kpi D - 1 := by
  cases s <;> simp only [place, reduceCtorEq, false_and, true_and, iff_false] <;> omega

theorem Stream.origin_inj (hk : k < Kpi D) (hk' : k' < Kpi D) (h : s.origin D k = s'.origin D k') :
    s = s' ∧ k = k' := by
  have turn : index D k = index D k' → k = k' := by
    intro heq
    rw [← (turnOf_index hk).2, heq, (turnOf_index hk').2]
  cases s <;> cases s' <;> simp only [origin] at h <;> first | exact ⟨rfl, turn (by omega)⟩ | omega

theorem index_last (hk : k < Kpi D) : index D k = Kpi D - 1 ↔ k = Kpi D - 1 := by
  have hlast : turnOf D (Kpi D - 1) = Kpi D - 1 := by
    have hcol : (Kpi D - 1) % 32 = 31 := by
      unfold Kpi at *
      omega
    have h31 : bitrev.getD 31 0 = 31 := rfl
    rw [turnOf, hcol, h31]
    unfold Kpi at *
    omega
  constructor
  · intro hindex
    rw [← (turnOf_index hk).2, hindex, hlast]
  · intro hturn
    have hmax := (index_turnOf (D := D) (i := Kpi D - 1) (by omega)).2
    rw [hlast] at hmax
    rw [hturn, hmax]

theorem Stream.origin_bounds (hk : k < Kpi D) (hlast : s.place D k ≠ 3 * Kpi D - 1) :
    -96 ≤ s.origin D k ∧ s.origin D k < 3 * D := by
  have hlt := (turnOf_index hk).1
  obtain ⟨hle, hbound⟩ := le_Kpi D
  have hbefore : s = .parity2 → index D k + 1 < Kpi D := by
    rintro rfl
    have hne : index D k ≠ Kpi D - 1 := by
      intro heq
      exact hlast ((Stream.place_last hk).2 ⟨rfl, (index_last hk).1 heq⟩)
    omega
  cases s with
  | systematic | parity1 =>
    simp only [origin, ND]
    omega
  | parity2 =>
    have := hbefore rfl
    simp only [origin, ND]
    omega

theorem Stream.exists_origin (hND : 0 < ND D) {p : Int} (low : 0 ≤ p) (high : p < 3 * D) :
    ∃ s k, k < Kpi D ∧ Stream.origin D k s = p ∧ Stream.place D k s ≠ 3 * Kpi D - 1 := by
  obtain ⟨hle, -⟩ := le_Kpi D
  have found : ∀ s i, i < Kpi D → (s = .parity2 → i + 1 < Kpi D) →
      (∀ k, index D k = i → Stream.origin D k s = p) →
      ∃ s k, k < Kpi D ∧ Stream.origin D k s = p ∧ Stream.place D k s ≠ 3 * Kpi D - 1 := by
    intro s i hi hbefore horigin
    obtain ⟨hk, hindex⟩ := index_turnOf hi
    refine ⟨s, turnOf D i, hk, horigin _ hindex, ?_⟩
    intro hlast
    obtain ⟨hs, hturn⟩ := (Stream.place_last hk).1 hlast
    have := hbefore hs
    have := (index_last hk).2 hturn
    omega
  have hND' : ND D + D = Kpi D := by
    unfold ND
    omega
  rcases (by omega : p % 3 = 0 ∨ p % 3 = 1 ∨ p % 3 = 2) with hmod | hmod | hmod
  · refine found .systematic ((p / 3).toNat + ND D) (by omega) nofun ?_
    intro k hk
    simp only [origin, hk]
    omega
  · refine found .parity1 ((p / 3).toNat + ND D) (by omega) nofun ?_
    intro k hk
    simp only [origin, hk]
    omega
  · refine found .parity2 ((p / 3).toNat + ND D - 1) (by omega) (by omega) ?_
    intro k hk
    simp only [origin, hk]
    omega

/-! ## What the loops write -/

theorem mem_turns_flatMap {β : Type} {f : Nat × Nat → List β} {g : Nat → Stream → β} {b : β}
    (h : ∀ k, f (3 * index D k, k) = [g k .systematic, g k .parity1, g k .parity2]) :
    b ∈ (turns D).flatMap f ↔ ∃ k < Kpi D, ∃ s, b = g k s := by
  have streams : ∀ k, b ∈ f (3 * index D k, k) ↔ ∃ s, b = g k s := by
    intro k
    rw [h]
    constructor
    · intro hb
      simp only [mem_cons, not_mem_nil, or_false] at hb
      rcases hb with hb | hb | hb
      all_goals exact ⟨_, hb⟩
    · rintro ⟨s, rfl⟩
      cases s <;> simp
  rw [turns_eq]
  simp [streams]

theorem mem_interleaverWrites {d : Int → UInt8} {p : Nat × UInt8} :
    p ∈ interleaverWrites D d ↔ ∃ k < Kpi D, ∃ s : Stream, p = (s.place D k, d (s.origin D k)) :=
  mem_turns_flatMap fun k => by simp [Stream.place, Stream.origin]

theorem mem_deinterleaverWrites {w : Nat → Int16} {p : Int × Int16} :
    p ∈ deinterleaverWrites D w ↔ ∃ k < Kpi D, ∃ s : Stream, p = (s.origin D k, w (s.place D k)) :=
  mem_turns_flatMap fun k => by simp [Stream.place, Stream.origin]

theorem interleaved (hND : 0 < ND D) (d : Int → UInt8) (w : Nat → UInt8) (hk : k < Kpi D) :
    (subBlockInterleavingTurbo D d w).2.2 (s.place D k) =
      if s.place D k = 3 * Kpi D - 1 then LTE_NULL else d (s.origin D k) := by
  unfold subBlockInterleavingTurbo
  dsimp only
  rw [if_pos hND]
  split
  · next hlast => rw [hlast, update_self]
  next hlast =>
  have hne : s.origin D k ≠ 3 * D + 2 := by
    have := (Stream.origin_bounds hk hlast).2
    omega
  rw [update_of_ne hlast, ← update_of_ne hne (d 2) d]
  refine store_of_mem (mem_interleaverWrites.2 ⟨k, hk, s, rfl⟩) ?_
  intro p hp heq
  obtain ⟨k', hk', s', rfl⟩ := mem_interleaverWrites.1 hp
  obtain ⟨rfl, rfl⟩ := Stream.place_inj hk' hk heq
  rfl

theorem deinterleaved (d : Int → Int16) (w : Nat → Int16) (hk : k < Kpi D) :
    subBlockDeinterleavingTurbo D d w (s.origin D k) = w (s.place D k) := by
  refine store_of_mem (mem_deinterleaverWrites.2 ⟨k, hk, s, rfl⟩) ?_
  intro p hp heq
  obtain ⟨k', hk', s', rfl⟩ := mem_deinterleaverWrites.1 hp
  obtain ⟨rfl, rfl⟩ := Stream.origin_inj hk' hk heq
  rfl

/-- What is received for a bit in the buffer comes back to the place of the bit. -/
theorem the_interleaver_is_undone (n : Nat) (d : Int → UInt8) (w : Nat → UInt8) (d' : Int → Int16)
    (soft : UInt8 → Int16) (p : Fin (3 * (8 * n + 4))) :
    subBlockDeinterleavingTurbo (8 * n + 4) d'
      (soft ∘ (subBlockInterleavingTurbo (8 * n + 4) d w).2.2) p = soft (d p) := by
  have hND : 0 < ND (8 * n + 4) := by
    unfold ND Kpi RTC
    split <;> omega
  obtain ⟨s, k, hk, horigin, hlast⟩ := Stream.exists_origin hND (Int.natCast_nonneg p) (by omega)
  rw [← horigin, deinterleaved d' _ hk, comp_apply, interleaved hND d w hk, if_neg hlast]

/-! ## NULLs -/

/-- Where the bits of a block with `F` filler bits are NULL: before the first one, and, except for
the second parity, at the filler bits. -/
structure Marked (D F : Nat) (d : Int → UInt8) : Prop where
  before : ∀ p : Int, -96 ≤ p → p < 0 → d p = LTE_NULL
  systematic : ∀ i < D, d (3 * i) = LTE_NULL ↔ i < F
  parity1 : ∀ i < D, d (3 * i + 1) = LTE_NULL ↔ i < F
  parity2 : ∀ i < D, d (3 * i + 2) ≠ LTE_NULL

/-- The same in the buffer. -/
def Stream.Null (D F k : Nat) : Stream → Prop
  | .parity2 => index D k + 1 < ND D ∨ k = Kpi D - 1
  | _ => index D k < ND D + F

theorem Marked.interleaved {d : Int → UInt8} (marked : Marked D F d) (hND : 0 < ND D)
    (w : Nat → UInt8)
    (hk : k < Kpi D) : (subBlockInterleavingTurbo D d w).2.2 (s.place D k) = LTE_NULL ↔
    s.Null D F k := by
  rw [Phy.interleaved hND d w hk]
  split
  · next hlast =>
    obtain ⟨rfl, hturn⟩ := (Stream.place_last hk).1 hlast
    exact iff_of_true rfl (.inr hturn)
  next hlast =>
  obtain ⟨hlow, hhigh⟩ := Stream.origin_bounds hk hlast
  cases s with
  | systematic =>
    simp only [Stream.origin, Stream.Null] at hlow hhigh ⊢
    rcases lt_or_ge (index D k) (ND D) with hbefore | hcoded
    · exact iff_of_true (marked.before _ hlow (by omega)) (by omega)
    · have hi : 3 * (index D k : Int) - 3 * ND D = 3 * (index D k - ND D : Nat) := by omega
      rw [hi, marked.systematic _ (by omega)]
      omega
  | parity1 =>
    simp only [Stream.origin, Stream.Null] at hlow hhigh ⊢
    rcases lt_or_ge (index D k) (ND D) with hbefore | hcoded
    · exact iff_of_true (marked.before _ hlow (by omega)) (by omega)
    · have hi : 3 * (index D k : Int) - 3 * ND D + 1 = 3 * (index D k - ND D : Nat) + 1 := by omega
      rw [hi, marked.parity1 _ (by omega)]
      omega
  | parity2 =>
    have hturn : k ≠ Kpi D - 1 := fun hturn => hlast ((Stream.place_last hk).2 ⟨rfl, hturn⟩)
    simp only [Stream.origin, Stream.Null] at hlow hhigh ⊢
    rcases lt_or_ge (index D k + 1) (ND D) with hbefore | hcoded
    · exact iff_of_true (marked.before _ hlow (by omega)) (.inl hbefore)
    · have hi : 3 * (index D k : Int) - 3 * ND D + 5 = 3 * (index D k + 1 - ND D : Nat) + 2 := by
        omega
      rw [hi]
      exact iff_of_false (marked.parity2 _ (by omega)) (by omega)

theorem index_column {col r : Nat} (hcol : col < 32) (hrow : r < RTC D) :
    col * RTC D + r < Kpi D ∧ index D (col * RTC D + r) = bitrev.getD col 0 + 32 * r := by
  have hdiv : (col * RTC D + r) / RTC D = col := by
    rw [mul_comm, Nat.mul_add_div (by omega), Nat.div_eq_of_lt hrow, add_zero]
  have hmod : (col * RTC D + r) % RTC D = r := by
    rw [mul_comm, Nat.mul_add_mod, Nat.mod_eq_of_lt hrow]
  constructor
  · have hle : col * RTC D ≤ 31 * RTC D := Nat.mul_le_mul_right _ (by omega)
    unfold Kpi
    omega
  · rw [index, hdiv, hmod]

theorem mem_ite_pair {c : Prop} [Decidable c] {j a b : Nat} : j ∈ (if c then [a, b] else []) ↔
    c ∧ (j = a ∨ j = b) := by
  split <;> simp [*]

theorem mem_dummyPlaces (hrows : ND D + F ≤ 96) (hfits : ND D + F ≤ Kpi D) {j : Nat} :
    j ∈ dummyPlaces D F ↔ ∃ k < Kpi D,
      (index D k < ND D + F ∧ (j = Stream.place D k .systematic ∨ j = Stream.place D k .parity1)) ∨
        (index D k + 1 < ND D ∧ j = Stream.place D k .parity2) := by
  have row_lt : ∀ {col row : Nat}, bitrev.getD col 0 + 32 * row < ND D + F → row < RTC D := by
    intro col row h
    unfold Kpi at hfits
    omega
  simp only [dummyPlaces, mem_flatMap, mem_range, mem_append, mem_ite_pair, Stream.place]
  constructor
  · rintro ⟨col, hcol, ((⟨hnull, hj⟩ | ⟨hnull, hj⟩) | ⟨hnull, hj⟩) | hj⟩
    · obtain ⟨hk, hindex⟩ := index_column (r := 0) hcol (row_lt hnull)
      exact ⟨_, hk, .inl ⟨by omega, by omega⟩⟩
    · obtain ⟨hk, hindex⟩ := index_column (r := 1) hcol (row_lt hnull)
      exact ⟨_, hk, .inl ⟨by omega, by omega⟩⟩
    · obtain ⟨hk, hindex⟩ := index_column (r := 2) hcol (row_lt hnull)
      exact ⟨_, hk, .inl ⟨by omega, by omega⟩⟩
    split at hj
    · next hnull =>
      have hj := mem_singleton.1 hj
      obtain ⟨hk, hindex⟩ := index_column (D := D) (r := 0) hcol (by unfold Kpi at hfits; omega)
      exact ⟨_, hk, .inr ⟨by omega, by omega⟩⟩
    · cases hj
  · rintro ⟨k, hk, hnull⟩
    have hcol : k / RTC D < 32 := Nat.div_lt_of_lt_mul (by rw [mul_comm]; exact hk)
    have hsplit : k / RTC D * RTC D + k % RTC D = k := Nat.div_add_mod' k (RTC D)
    have hindex : index D k = bitrev.getD (k / RTC D) 0 + 32 * (k % RTC D) := rfl
    refine ⟨k / RTC D, hcol, ?_⟩
    rcases hnull with ⟨hnull, hj⟩ | ⟨hnull, hj⟩
    · left
      rcases (by omega : k % RTC D = 0 ∨ k % RTC D = 1 ∨ k % RTC D = 2) with hrow | hrow | hrow
      · exact .inl (.inl ⟨by omega, by omega⟩)
      · exact .inl (.inr ⟨by omega, by omega⟩)
      · exact .inr ⟨by omega, by omega⟩
    · -- fewer than 32 NULLs in front: they are in the first row
      have hrow : k % RTC D = 0 := by
        have := ND_lt D
        omega
      right
      rw [if_pos (by omega), mem_singleton]
      omega

theorem generateDummyW_null (hND : 0 < ND D) (hrows : ND D + F ≤ 96) (hfits : ND D + F ≤ Kpi D)
    {w : Nat → UInt8} (hw : ∀ j, w j ≠ LTE_NULL)
    (hk : k < Kpi D) : (generateDummyW D w F).2 (s.place D k) =
      LTE_NULL ↔ s.Null D F k := by
  unfold generateDummyW
  dsimp only
  rw [if_pos hND]
  by_cases hlast : s.place D k = 3 * Kpi D - 1
  · obtain ⟨rfl, hturn⟩ := (Stream.place_last hk).1 hlast
    rw [hlast, update_self]
    exact iff_of_true rfl (.inr hturn)
  · rw [update_of_ne hlast, store_const_iff (hw _), mem_dummyPlaces hrows hfits]
    constructor
    · rintro ⟨k', hk', ⟨hnull, hj | hj⟩ | ⟨hnull, hj⟩⟩
      all_goals obtain ⟨rfl, rfl⟩ := Stream.place_inj hk hk' hj
      · exact hnull
      · exact hnull
      · exact .inl hnull
    · intro hnull
      refine ⟨k, hk, ?_⟩
      cases s with
      | systematic => exact .inl ⟨hnull, .inl rfl⟩
      | parity1 => exact .inl ⟨hnull, .inr rfl⟩
      | parity2 =>
        rcases hnull with hnull | hturn
        · exact .inr ⟨hnull, rfl⟩
        · exact absurd ((Stream.place_last hk).2 ⟨rfl, hturn⟩) hlast

end MacRlcSplit.Phy
