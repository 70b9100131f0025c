-- Sequence numbers on a circle of `m` numbers: how far one is after
-- another, and how that changes when either of them moves on.
import Mathlib.Algebra.Group.Int.Defs
import Mathlib.Algebra.GroupWithZero.Nat
import Mathlib.Tactic.Common

namespace MacRlcSplit.Lib

/-- How many steps lead from `a` to `x` on the circle of the numbers below `m`. -/
def off (m a x : Nat) : Nat := if a ≤ x then x - a else x + m - a

theorem succ_mod {m x : Nat} (h : x < m) : (x + 1) % m = if x + 1 = m then 0 else x + 1 := by
  split
  · next heq => rw [heq, Nat.mod_self]
  · exact Nat.mod_eq_of_lt (by omega)

theorem succ_mod_lt {m x : Nat} (h : x < m) : (x + 1) % m < m := Nat.mod_lt _ (by omega)

@[simp] theorem off_self (m a : Nat) : off m a a = 0 := by simp [off]

variable {m a b x y : Nat}

theorem off_lt (hx : x < m) : off m a x < m := by
  unfold off
  split <;> omega

theorem off_eq_zero (ha : a < m) : off m a x = 0 ↔ x = a := by
  unfold off
  split <;> omega

theorem off_inj (ha : a < m) (hx : x < m) (hy : y < m) (h : off m a x = off m a y) : x = y := by
  unfold off at h
  split at h <;> split at h <;> omega

theorem off_succ (ha : a < m) (hx : x < m) (h : off m a x + 1 < m) :
    off m a ((x + 1) % m) = off m a x + 1 := by
  rw [succ_mod hx]
  unfold off at *
  split at h <;> split <;> split <;> omega

theorem off_base_succ (ha : a < m) (hx : x < m)
    (h : x ≠ a) : off m ((a + 1) % m) x + 1 = off m a x := by
  rw [succ_mod ha]
  unfold off
  split <;> split <;> split <;> omega

theorem off_succ_self (ha : a < m) : off m ((a + 1) % m) a + 1 = m := by
  rw [succ_mod ha]
  unfold off
  split <;> split <;> omega

theorem off_add (ha : a < m) {d : Nat} (hd : d < m) : off m a ((a + d) % m) = d := by
  rcases Nat.lt_or_ge (a + d) m with h | h
  · rw [Nat.mod_eq_of_lt h]
    unfold off
    split <;> omega
  · rw [Nat.mod_eq_sub_mod h, Nat.mod_eq_of_lt (by omega)]
    unfold off
    split <;> omega

theorem add_off (ha : a < m) (hx : x < m) : (a + off m a x) % m = x := by
  unfold off
  split
  · rw [Nat.add_sub_cancel' (by assumption)]
    exact Nat.mod_eq_of_lt hx
  · rw [Nat.add_sub_cancel' (by omega), Nat.add_mod_right]
    exact Nat.mod_eq_of_lt hx

theorem off_rebase (ha : a < m) (hb : b < m) (hx : x < m) (h : off m a b ≤ off m a x) :
    off m b x = off m a x - off m a b := by
  unfold off at *
  split at h <;> split at h <;> split <;> omega

/-! ## Numbers that share a residue -/

theorem residue_inj {m a i j : Nat} (hi : a ≤ i) (hi' : i < a + m) (hj : a ≤ j) (hj' : j < a + m)
    (h : i % m = j % m) : i = j := by
  have hij : (i - j) % m = 0 := Nat.sub_mod_eq_zero_of_mod_eq h
  have hji : (j - i) % m = 0 := Nat.sub_mod_eq_zero_of_mod_eq h.symm
  rw [Nat.mod_eq_of_lt (by omega)] at hij hji
  omega

theorem residue_ne {m i j : Nat} (hij : i < j) (hj : j < i + m) : i % m ≠ j % m := by
  intro heq
  have := residue_inj (Nat.le_refl i) (by omega) (Nat.le_of_lt hij) hj heq
  omega

theorem exists_residue {m sn : Nat} (a : Nat)
    (h : sn < m) : ∃ i, a ≤ i ∧ i < a + m ∧ i % m = sn := by
  refine ⟨a + off m (a % m) sn, Nat.le_add_right a _, ?_, ?_⟩
  · have := off_lt (a := a % m) h
    omega
  · rw [← Nat.mod_add_mod, add_off (Nat.mod_lt a (by omega)) h]

theorem off_residue {m a i : Nat} (low : a ≤ i)
    (high : i < a + m) : off m (a % m) (i % m) = i - a := by
  obtain ⟨d, rfl⟩ := Nat.exists_eq_add_of_le low
  rw [← Nat.mod_add_mod, off_add (Nat.mod_lt a (by omega)) (by omega), Nat.add_sub_cancel_left]

/-! ## The remainder of C -/

theorem residue_sub (m u i : Nat) :
    ((i % m : Nat) : Int) - (u % m : Nat) = (i : Int) - u +
      m * ((u / m : Nat) - (i / m : Nat)) := by
  have hi : (m * (i / m) : Nat) + ((i % m : Nat) : Int) = i := by
    rw [← Int.natCast_add, Nat.div_add_mod]
  have hu : (m * (u / m) : Nat) + ((u % m : Nat) : Int) = u := by
    rw [← Int.natCast_add, Nat.div_add_mod]
  rw [Int.mul_sub]
  omega

theorem tmod_within {m w u i : Nat} (hw : w < m) (low : u ≤ i + w) (high : i ≤ u) :
    (((i % m : Nat) : Int) - ((u % m : Nat) - (w : Int))).tmod m = (i + w : Nat) - (u : Int) := by
  obtain ⟨k, hk⟩ := Nat.exists_eq_add_of_le (Nat.div_le_div_right (c := m) high)
  have hval : ((i % m : Nat) : Int) - ((u % m : Nat) - (w : Int)) =
      ((i + w - u + m * k : Nat) : Int) := by
    have hsub := residue_sub m u i
    have hturns : ((u / m : Nat) : Int) - (i / m : Nat) = k := by omega
    rw [hturns] at hsub
    omega
  rw [hval, Int.tmod_eq_emod_of_nonneg (Int.natCast_nonneg _), ← Int.natCast_emod,
    Nat.add_mul_mod_self_left, Nat.mod_eq_of_lt (by omega)]
  omega

theorem tmod_ahead {m w u i : Nat} (low : u < i) (high : i + w < u + m) :
    (((i % m : Nat) : Int) - ((u % m : Nat) - (w : Int))).tmod m = (i + w : Nat) - (u : Int) ∨
      (((i % m : Nat) : Int) - ((u % m : Nat) - (w : Int))).tmod m =
        (i + w : Nat) - (u : Int) - m := by
  have hle : u / m ≤ i / m := Nat.div_le_div_right (Nat.le_of_lt low)
  have hge : i / m ≤ u / m + 1 := by
    rw [← Nat.add_div_right u (by omega)]
    exact Nat.div_le_div_right (by omega)
  have hsub := residue_sub m u i
  rcases Nat.lt_or_ge (u / m) (i / m) with hlt | hge'
  · right
    have hone : ((u / m : Nat) : Int) - (i / m : Nat) = -1 := by omega
    rw [hone] at hsub
    have hval : ((i % m : Nat) : Int) - ((u % m : Nat) - (w : Int)) =
        -((u + m - (i + w) : Nat) : Int) := by omega
    rw [hval, Int.neg_tmod, Int.tmod_eq_emod_of_nonneg (Int.natCast_nonneg _), ← Int.natCast_emod,
      Nat.mod_eq_of_lt (by omega)]
    omega
  · left
    have hzero : ((u / m : Nat) : Int) - (i / m : Nat) = 0 := by omega
    rw [hzero] at hsub
    have hval : ((i % m : Nat) : Int) - ((u % m : Nat) - (w : Int)) =
        ((i + w - u : Nat) : Int) := by
      omega
    rw [hval, Int.tmod_eq_emod_of_nonneg (Int.natCast_nonneg _), ← Int.natCast_emod,
      Nat.mod_eq_of_lt (by omega)]
    omega
end MacRlcSplit.Lib
