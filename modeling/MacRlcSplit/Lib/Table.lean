-- Tables given as functions of the index: sums over the first `n` entries,
-- how they follow a change of one entry, and loops over entries in a row.
import Mathlib.Algebra.BigOperators.Group.Finset.Piecewise
import Mathlib.Algebra.GroupWithZero.Nat
import Mathlib.Algebra.Order.BigOperators.Group.Finset
import Mathlib.Algebra.Order.Group.Int

namespace MacRlcSplit.Lib

open Finset Function

variable {α : Type}

def total (n : Nat) (g : α → Int) (t : Nat → α) : Int := ∑ i ∈ range n, g (t i)

variable {n : Nat} {g : α → Int}

theorem total_congr {g' : α → Int} {t t' : Nat → α}
    (h : ∀ i < n, g (t i) = g' (t' i)) : total n g t = total n g' t' :=
  sum_congr rfl fun i hi => h i (mem_range.1 hi)

theorem total_eq_zero {t : Nat → α} (h : ∀ i < n, g (t i) = 0) : total n g t = 0 :=
  sum_eq_zero fun i hi => h i (mem_range.1 hi)

theorem total_nonneg (t : Nat → α) (h : ∀ x, 0 ≤ g x) : 0 ≤ total n g t :=
  sum_nonneg fun i _ => h (t i)

theorem le_total {i : Nat} (t : Nat → α) (h : ∀ x, 0 ≤ g x) (hi : i < n) : g (t i) ≤ total n g t :=
  single_le_sum (fun j _ => h (t j)) (mem_range.2 hi)

theorem total_le (t : Nat → α) (h : ∀ x, g x ≤ 1) : total n g t ≤ n := by
  calc total n g t ≤ (range n).card • (1 : Int) := sum_le_card_nsmul _ _ _ fun i _ => h (t i)
    _ = n := by simp

/-- A changed entry changes the sum by what it weighs more. Past the end of the table it may
not weigh more. -/
theorem total_update {j : Nat} (g : α → Int) (t : Nat → α) (x : α) (hj : j < n ∨ g x = g (t j)) :
    total n g (update t j x) = total n g t + (g x - g (t j)) := by
  unfold total
  by_cases hlt : j < n
  · rw [← add_sum_erase _ _ (mem_range.2 hlt), ← add_sum_erase _ _ (mem_range.2 hlt)]
    rw [update_self]
    have hrest : ∑ i ∈ (range n).erase j, g (update t j x i) = ∑ i ∈ (range n).erase j,
        g (t i) := by
      apply sum_congr rfl
      intro i hi
      rw [update_of_ne (ne_of_mem_erase hi)]
    omega
  · rw [hj.resolve_left hlt, Int.sub_self, add_zero]
    apply sum_congr rfl
    intro i hi
    rw [update_of_ne]
    rintro rfl
    exact hlt (mem_range.1 hi)

/-- The number of entries with a property, of a table that has them all in front: they are the
entries below it. -/
theorem total_front {p : α → Bool} {t : Nat → α} (n : Nat)
    (front : ∀ i, i + 1 < n → p (t (i + 1)) → p (t i)) :
    ∃ k ≤ n, total n (fun x => if p x then 1 else 0) t = k ∧ ∀ i < n, p (t i) ↔ i < k := by
  induction n with
  | zero => exact ⟨0, le_rfl, rfl, fun i hi => absurd hi (Nat.not_lt_zero i)⟩
  | succ n ih =>
    obtain ⟨k, hk, hcount, hfront⟩ := ih fun i hi => front i (Nat.lt_succ_of_lt hi)
    have hsum : total (n + 1) (fun x => if p x then 1 else 0) t = k + if p (t n) then 1 else 0 := by
      rw [← hcount]
      exact sum_range_succ _ n
    by_cases hn : p (t n)
    · -- everything before the new entry has the property
      have hkn : k = n := by
        cases n with
        | zero => omega
        | succ m =>
          have := (hfront m (Nat.lt_succ_self m)).1 (front m (Nat.lt_succ_self _) hn)
          omega
      refine ⟨n + 1, le_rfl, by rw [hsum, if_pos hn, hkn]; rfl, fun i hi => ?_⟩
      rcases Nat.lt_succ_iff_lt_or_eq.1 hi with hlt | rfl
      · rw [hfront i hlt]
        omega
      · exact iff_of_true hn hi
    · refine ⟨k, Nat.le_succ_of_le hk, by rw [hsum, if_neg hn, add_zero], fun i hi => ?_⟩
      rcases Nat.lt_succ_iff_lt_or_eq.1 hi with hlt | rfl
      · exact hfront i hlt
      · exact iff_of_false hn (not_lt.2 hk)

/-! ## Entries in a row -/

variable {β : Type}

/-- A loop that changes one entry for each element of a list, from the entry `k` on, unless it comes
to `limit`. -/
def modifyFrom (limit : Nat) (f : β → α → α) (t : Nat → α) (k : Nat) : List β → Option (Nat → α)
  | [] => some t
  | b :: l => if k < limit then modifyFrom limit f (update t k (f b (t k))) (k + 1) l else none

variable {limit k i : Nat} {f : β → α → α} {t t' : Nat → α} {l : List β}

theorem modifyFrom_isSome (f : β → α → α) (t : Nat → α) (h : k + l.length ≤ limit) :
    ∃ t', modifyFrom limit f t k l = some t' := by
  induction l generalizing k t with
  | nil => exact ⟨t, rfl⟩
  | cons b l ih =>
    rw [List.length_cons] at h
    rw [modifyFrom, if_pos (by omega)]
    exact ih _ (by omega)

theorem modifyFrom_before (h : modifyFrom limit f t k l = some t') (hi : i < k) : t' i = t i := by
  induction l generalizing k t with
  | nil =>
    cases h
    rfl
  | cons b l ih =>
    rw [modifyFrom] at h
    split at h
    · rw [ih h (by omega), update_of_ne (by omega)]
    · cases h

theorem modifyFrom_within (h : modifyFrom limit f t k l = some t') {b : β} (hb : l[i]? = some b) :
    t' (k + i) = f b (t (k + i)) := by
  induction l generalizing k t i with
  | nil => cases hb
  | cons c l ih =>
    rw [modifyFrom] at h
    split at h
    · cases i with
      | zero =>
        cases hb
        rw [add_zero, modifyFrom_before h (Nat.lt_succ_self k), update_self]
      | succ i =>
        have hih := ih h hb
        rw [update_of_ne (by omega)] at hih
        rw [show k + (i + 1) = k + 1 + i by omega, hih]
    · cases h

theorem forall_mem_update {P : α → Prop} {lists : Nat → List α} (h : ∀ i, ∀ x ∈ lists i, P x)
    (i : Nat) {l : List α} (hl : ∀ x ∈ l, P x) : ∀ j, ∀ x ∈ update lists i l j, P x := by
  intro j x hx
  by_cases heq : j = i
  · rw [heq, update_self] at hx
    exact hl x hx
  · rw [update_of_ne heq] at hx
    exact h j x hx

end MacRlcSplit.Lib
