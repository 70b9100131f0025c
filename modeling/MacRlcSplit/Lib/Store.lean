-- Loops that write a memory, as the list of their writes: what a place holds
-- afterwards when no two writes to it differ, and nested loops as one.
import Mathlib.Tactic.Ring

open List

namespace MacRlcSplit.Lib

open Function

section Store

variable {ι α : Type} [DecidableEq ι] {m : ι → α} {l : List (ι × α)} {i : ι} {a : α}

def store (m : ι → α) (l : List (ι × α)) : ι → α := l.foldl (fun m p => update m p.1 p.2) m

theorem store_cons (p : ι × α) : store m (p :: l) = store (update m p.1 p.2) l := rfl

theorem store_of_not_mem (h : ∀ p ∈ l, p.1 ≠ i) : store m l i = m i := by
  induction l generalizing m with
  | nil => rfl
  | cons p l ih =>
    rw [store_cons, ih fun q hq => h q (mem_cons_of_mem p hq)]
    exact update_of_ne (h p mem_cons_self).symm p.2 m

theorem store_of_mem (h : (i, a) ∈ l) (only : ∀ p ∈ l, p.1 = i → p.2 = a) : store m l i = a := by
  induction l generalizing m with
  | nil => cases h
  | cons p l ih =>
    rw [store_cons]
    by_cases hmem : (i, a) ∈ l
    · exact ih hmem fun q hq => only q (mem_cons_of_mem p hq)
    -- the write at the head is the last one to this place
    obtain rfl : (i, a) = p := (mem_cons.1 h).resolve_right hmem
    rw [store_of_not_mem]
    · exact update_self i a m
    · intro q hq heq
      have hval := only q (mem_cons_of_mem _ hq) heq
      exact hmem (heq ▸ hval ▸ hq)

theorem store_const_iff {places : List ι} (hm : m i ≠ a) : store m (places.map (·, a)) i = a ↔
    i ∈ places := by
  constructor
  · intro h
    by_contra hmem
    refine hm (h ▸ (store_of_not_mem ?_).symm)
    intro p hp heq
    obtain ⟨j, hj, rfl⟩ := mem_map.1 hp
    exact hmem (heq ▸ hj)
  · intro h
    refine store_of_mem (mem_map_of_mem h) ?_
    intro p hp _
    obtain ⟨j, -, rfl⟩ := mem_map.1 hp
    rfl

end Store

theorem flatMap_range_map {β : Type} (f : Nat → Nat → β) (m n : Nat) :
    ((List.range m).flatMap fun c => (List.range n).map (f c)) = (List.range (m * n)).map fun k =>
      f (k / n) (k % n) := by
  induction m with
  | zero => simp
  | succ m ih =>
    rw [range_succ, flatMap_append, Nat.succ_mul, range_add, map_append, flatMap_singleton, map_map]
    congr 1
    refine map_congr_left fun r hr => ?_
    have hr := mem_range.1 hr
    have hdiv : (m * n + r) / n = m := by
      rw [mul_comm, Nat.mul_add_div (by omega), Nat.div_eq_of_lt hr, add_zero]
    have hmod : (m * n + r) % n = r := by
      rw [mul_comm, Nat.mul_add_mod, Nat.mod_eq_of_lt hr]
    rw [comp_apply, hdiv, hmod]

theorem flatMap_range_sum {β : Type} (f : Nat → β) (n : Nat → Nat) (m : Nat) :
    ((List.range m).flatMap fun r => (List.range (n r)).map fun i =>
      f (((List.range r).map n).sum + i)) = (List.range ((List.range m).map n).sum).map f := by
  induction m with
  | zero => rfl
  | succ m ih =>
    rw [range_succ, flatMap_append, ih, flatMap_singleton, map_append, sum_append, range_add,
      map_append, map_map]
    rfl

theorem sum_range_ite (a x y n : Nat) :
    ((List.range n).map fun r => if r < a then x else y).sum = min n a * x + (n - a) * y := by
  induction n with
  | zero => simp
  | succ n ih =>
    rw [range_succ, map_append, sum_append, ih, map_singleton, sum_singleton]
    split
    · next hlt =>
      have hmin : min (n + 1) a = min n a + 1 := by omega
      have hsub : n + 1 - a = n - a := by omega
      rw [hmin, hsub]
      ring
    · next hge =>
      have hmin : min (n + 1) a = min n a := by omega
      have hsub : n + 1 - a = n - a + 1 := by omega
      rw [hmin, hsub]
      ring

end MacRlcSplit.Lib
