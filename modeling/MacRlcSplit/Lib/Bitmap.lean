-- An allocator of numbers that keeps the ones in use in the bits of an array
-- of words.
import Mathlib.Algebra.Group.Int.Defs
import Mathlib.Algebra.GroupWithZero.Nat
import Mathlib.Data.List.Nodup
import Mathlib.Data.List.Perm.Subperm

open List

namespace MacRlcSplit.Lib.Bitmap

open Function

variable {w : Nat}

def bit (words : Nat → BitVec w) (u : Nat) : Bool := (words (u / w)).getLsbD (u % w)

/-- The lowest bit that is not set in the first word that is not full, and the array with it. -/
def new (n : Nat) (words : Nat → BitVec w) : Option Nat × (Nat → BitVec w) :=
  match (List.range n).find? fun i => words i != BitVec.allOnes w with
  | none => (none, words)
  | some i =>
    match (List.range w).find? fun k => !(words i).getLsbD k with
    | none => (none, words)
    | some k => (some (k + i * w), update words i (words i ||| 1#w <<< k))

def free (n : Nat) (words : Nat → BitVec w) (u : Nat) : Nat → BitVec w :=
  if u / w < n then update words (u / w) (words (u / w) &&& ~~~(1#w <<< (u % w))) else words

theorem bit_update (words : Nat → BitVec w) (i : Nat) (x : BitVec w) (u : Nat) :
    bit (update words i x) u = if u / w = i then x.getLsbD (u % w) else bit words u := by
  unfold bit
  by_cases h : u / w = i
  · rw [if_pos h, h, update_self]
  · rw [if_neg h, update_of_ne h]

theorem getLsbD_one_shiftLeft {k j : Nat} (hj : j < w) :
    (1#w <<< k).getLsbD j = decide (j = k) := by
  by_cases h : j = k
  · subst h
    have hw : 0 < w := by omega
    simp [hj]
  · by_cases hlt : j < k
    · simp [hlt, h]
    · have : j - k ≠ 0 := by omega
      simp [hj, hlt, h, this]

theorem new_some {n u : Nat} {words words' : Nat → BitVec w} (h : new n words = (some u, words')) :
    u < n * w ∧ bit words u = false ∧ ∀ v, bit words' v = (bit words v || decide (v = u)) := by
  unfold new at h
  split at h
  · cases h
  rename_i i hi
  split at h
  · cases h
  rename_i k hk
  cases h
  have hin : i < n := mem_range.1 (mem_of_find?_eq_some hi)
  have hkw : k < w := mem_range.1 (mem_of_find?_eq_some hk)
  have hw : 0 < w := by omega
  have hdiv : (k + i * w) / w = i := by
    rw [Nat.add_mul_div_right _ _ hw, Nat.div_eq_of_lt hkw, zero_add]
  have hmod : (k + i * w) % w = k := by
    rw [Nat.add_mul_mod_self_right, Nat.mod_eq_of_lt hkw]
  refine ⟨?_, ?_, fun v => ?_⟩
  · calc k + i * w < w + i * w := by omega
      _ = (i + 1) * w := by rw [Nat.succ_mul, add_comm]
      _ ≤ n * w := Nat.mul_le_mul_right w hin
  · rw [bit, hdiv, hmod]
    simpa using find?_some hk
  · rw [bit_update]
    have hvw : v % w < w := Nat.mod_lt v hw
    by_cases hv : v / w = i
    · have heq : v % w = k ↔ v = k + i * w := by
        have := Nat.div_add_mod v w
        rw [hv, mul_comm] at this
        omega
      rw [if_pos hv, BitVec.getLsbD_or, getLsbD_one_shiftLeft hvw, bit, hv]
      simp only [heq]
    · have hne : v ≠ k + i * w := by
        rintro rfl
        exact hv hdiv
      simp [hv, hne]

theorem bit_free {n u : Nat} (words : Nat → BitVec w) (hu : u < n * w) (v : Nat) :
    bit (free n words u) v = (bit words v && decide (v ≠ u)) := by
  have hw : 0 < w := Nat.pos_of_ne_zero fun h => by simp [h] at hu
  have hin : u / w < n := (Nat.div_lt_iff_lt_mul hw).2 hu
  rw [free, if_pos hin, bit_update]
  have hvw : v % w < w := Nat.mod_lt v hw
  have hdu := Nat.div_add_mod u w
  have hdv := Nat.div_add_mod v w
  by_cases hv : v / w = u / w
  · have heq : v % w = u % w ↔ v = u := by
      rw [hv] at hdv
      omega
    rw [BitVec.getLsbD_and, BitVec.getLsbD_not, getLsbD_one_shiftLeft hvw, bit, hv]
    simp [hvw, heq]
  · have hne : v ≠ u := fun h => hv (by rw [h])
    simp [hv, hne]

theorem new_isSome {n : Nat} {words : Nat → BitVec w} {used : List Nat}
    (hused : ∀ u < n * w, bit words u → u ∈ used) (hlt : used.length < n * w) :
    ∃ u words', new n words = (some u, words') := by
  have hw : 0 < w := Nat.pos_of_ne_zero fun h => by simp [h] at hlt
  -- some word is not full, or every number would be in use
  have hword : ∃ i < n, words i ≠ BitVec.allOnes w := by
    by_contra hfull
    push Not at hfull
    have hall : List.range (n * w) ⊆ used := by
      intro u hu
      rw [mem_range] at hu
      refine hused u hu ?_
      rw [bit, hfull _ ((Nat.div_lt_iff_lt_mul hw).2 hu), BitVec.getLsbD_allOnes]
      exact decide_eq_true (Nat.mod_lt u hw)
    have hle := (nodup_range.subperm hall).length_le
    rw [length_range] at hle
    omega
  obtain ⟨i, hi, hne⟩ := hword
  unfold new
  cases hfind : (List.range n).find? fun i => words i != BitVec.allOnes w with
  | none =>
    have hone := find?_eq_none.1 hfind i (mem_range.2 hi)
    exact absurd (by simpa using hone) hne
  | some i' =>
    have hne' : words i' ≠ BitVec.allOnes w := by simpa using find?_some hfind
    cases hbit : (List.range w).find? fun k => !(words i').getLsbD k with
    | none =>
      refine absurd (BitVec.eq_of_getLsbD_eq fun k hk => ?_) hne'
      have hset := find?_eq_none.1 hbit k (mem_range.2 hk)
      simpa [hk] using hset
    | some k =>
      simp only [hbit]
      exact ⟨_, _, rfl⟩

end MacRlcSplit.Lib.Bitmap
