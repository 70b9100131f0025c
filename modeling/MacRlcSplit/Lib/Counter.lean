-- A running number that is kept in two parts, a low part below `n` and the
-- count of its overflows, and the labels that are made of the two.
import Mathlib.Algebra.Group.Int.Defs
import Mathlib.Algebra.GroupWithZero.Nat
import Mathlib.Data.Nat.Basic
import Mathlib.Tactic.Common

namespace MacRlcSplit.Lib.Counter

variable {n j k : Nat}

/-! ## The two parts -/

theorem succ_of_last (h : k % n + 1 = n) : (k + 1) / n = k / n + 1 ∧ (k + 1) % n = 0 := by
  have hn : 0 < n := by omega
  apply (Nat.div_mod_unique hn).2
  constructor
  · calc 0 + n * (k / n + 1) = n * (k / n) + n := by rw [zero_add, Nat.mul_succ]
      _ = n * (k / n) + k % n + 1 := by omega
      _ = k + 1 := by rw [Nat.div_add_mod]
  · exact hn

theorem succ_of_not_last (hn : 0 < n) (h : k % n + 1 ≠ n) :
    (k + 1) / n = k / n ∧ (k + 1) % n = k % n + 1 := by
  have hlt := Nat.mod_lt k hn
  apply (Nat.div_mod_unique hn).2
  constructor
  · have hk := Nat.div_add_mod k n
    omega
  · omega

/-- Whoever is less than `n` ahead has overflowed once more if its low part is smaller, and as
often if it is not. -/
theorem div_of_ahead (h : j ≤ k) (hlt : k < j + n) :
    k / n = if k % n < j % n then j / n + 1 else j / n := by
  have hn : 0 < n := by omega
  have hj := Nat.div_add_mod j n
  have hk := Nat.div_add_mod k n
  have upper : k / n ≤ j / n + 1 := by
    rw [← Nat.add_div_right j hn]
    exact Nat.div_le_div_right (by omega)
  have lower : j / n ≤ k / n := Nat.div_le_div_right h
  rcases lt_or_ge (j / n) (k / n) with hup | hup
  · have heq : k / n = j / n + 1 := by omega
    have hmul : n * (k / n) = n * (j / n) + n := by rw [heq, Nat.mul_succ]
    rw [if_pos (by omega), heq]
  · have heq : k / n = j / n := by omega
    have hmul : n * (k / n) = n * (j / n) := by rw [heq]
    rw [if_neg (by omega), heq]

/-! ## Labels -/

/-- The label of the number `k`: its low part, in front of which stands the count of overflows
that the number after `k` has. -/
def label (base n k : Nat) : Nat := (k + 1) / n * base + k % n

theorem label_of_lt {base : Nat} (h : k + 1 < n) : label base n k = k := by
  rw [label, Nat.div_eq_of_lt h, Nat.mod_eq_of_lt (by omega), zero_mul, zero_add]

theorem eq_of_succ_div_eq (hn : 0 < n) (hdiv : (j + 1) / n = (k + 1) / n)
    (hmod : j % n = k % n) : j = k := by
  have hj := Nat.div_add_mod j n
  have hk := Nat.div_add_mod k n
  have hquot : j / n = k / n := by
    by_cases h : j % n + 1 = n
    · have hj' := (succ_of_last h).1
      have hk' := (succ_of_last (hmod ▸ h)).1
      omega
    · have hj' := (succ_of_not_last hn h).1
      have hk' := (succ_of_not_last hn (hmod ▸ h)).1
      omega
  rw [hquot] at hj
  omega

theorem label_injective {base : Nat} (hn : 0 < n)
    (h : n ≤ base) : Function.Injective (label base n) := by
  intro j k heq
  have hbase : 0 < base := by omega
  have hj := Nat.mod_lt j hn
  have hk := Nat.mod_lt k hn
  have hdiv : ∀ i, i % n < n → label base n i / base = (i + 1) / n := fun i hi => by
    rw [label, add_comm, Nat.add_mul_div_right _ _ hbase, Nat.div_eq_of_lt (by omega), zero_add]
  have hmod : ∀ i, i % n < n → label base n i % base = i % n := fun i hi => by
    rw [label, add_comm, Nat.add_mul_mod_self_right, Nat.mod_eq_of_lt (by omega)]
  apply eq_of_succ_div_eq hn
  · rw [← hdiv j hj, ← hdiv k hk, heq]
  · rw [← hmod j hj, ← hmod k hk, heq]

end MacRlcSplit.Lib.Counter
