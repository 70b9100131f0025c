-- Linked lists whose links are in an array, as `next[i]`, with a negative
-- number for the end: what a list holds, how a loop walks along it, and what
-- relinking makes of it.
import Mathlib.Algebra.Group.Int.Defs
import Mathlib.Algebra.GroupWithZero.Nat
import Mathlib.Data.List.Nodup
import Mathlib.Logic.Equiv.Basic

open List

namespace MacRlcSplit.Lib

open Function

variable {next next' : Nat → Int} {h t : Int} {l r : List Nat} {i j : Nat}

/-! ## What a list holds -/

/-- From `h` along `next` one comes through `l` to `t`. -/
def Path (next : Nat → Int) (h : Int) : List Nat → Int → Prop
  | [], t => h = t
  | i :: l, t => h = i ∧ Path next (next i) l t

def Linked (next : Nat → Int) (h : Int) (l : List Nat) : Prop := ∃ t < 0, Path next h l t

theorem path_append : Path next h (l ++ r) t ↔ ∃ m, Path next h l m ∧ Path next m r t := by
  induction l generalizing h with
  | nil => simp [Path]
  | cons i l ih =>
    simp only [cons_append, Path, ih]
    constructor
    · rintro ⟨hi, m, hl, hr⟩
      exact ⟨m, ⟨hi, hl⟩, hr⟩
    · rintro ⟨m, ⟨hi, hl⟩, hr⟩
      exact ⟨hi, m, hl, hr⟩

@[simp] theorem linked_nil : Linked next h [] ↔ h < 0 := by
  simp [Linked, Path]

@[simp] theorem linked_cons : Linked next h (i :: l) ↔ h = i ∧ Linked next (next i) l := by
  constructor
  · rintro ⟨t, ht, hi, hl⟩
    exact ⟨hi, t, ht, hl⟩
  · rintro ⟨hi, t, ht, hl⟩
    exact ⟨t, ht, hi, hl⟩

theorem linked_append : Linked next h (l ++ r) ↔ ∃ m, Path next h l m ∧ Linked next m r := by
  simp only [Linked, path_append]
  constructor
  · rintro ⟨t, ht, m, hl, hr⟩
    exact ⟨m, hl, t, ht, hr⟩
  · rintro ⟨m, hl, t, ht, hr⟩
    exact ⟨t, ht, m, hl, hr⟩

theorem Path.congr (hp : Path next h l t) (heq : ∀ i ∈ l, next' i = next i) : Path next' h l t := by
  induction l generalizing h with
  | nil => exact hp
  | cons i l ih =>
    refine ⟨hp.1, ?_⟩
    rw [heq i mem_cons_self]
    exact ih hp.2 fun j hj => heq j (mem_cons_of_mem i hj)

theorem Linked.congr (hl : Linked next h l) (heq : ∀ i ∈ l, next' i = next i) :
    Linked next' h l := by
  obtain ⟨t, ht, hp⟩ := hl
  exact ⟨t, ht, hp.congr heq⟩

theorem Linked.update (hl : Linked next h l) (hi : i ∉ l)
    (x : Int) : Linked (update next i x) h l := by
  apply hl.congr
  intro j hj
  exact update_of_ne (ne_of_mem_of_not_mem hj hi) x next

theorem Linked.head_neg (hl : Linked next h l) (hh : h < 0) : l = [] := by
  cases l with
  | nil => rfl
  | cons i l =>
    obtain ⟨rfl, -⟩ := linked_cons.1 hl
    omega

theorem Linked.head_mem (hl : Linked next h l) (hh : 0 ≤ h) : ∃ i l', l = i :: l' ∧ h = i := by
  cases l with
  | nil =>
    have := linked_nil.1 hl
    omega
  | cons i l' => exact ⟨i, l', rfl, (linked_cons.1 hl).1⟩

/-! ## Neighbours -/

theorem Linked.pred (hl : Linked next h l) (hi : i ∈ l) : h = i ∨ ∃ p ∈ l, next p = i := by
  induction l generalizing h with
  | nil => cases hi
  | cons j l ih =>
    obtain ⟨hj, hrest⟩ := linked_cons.1 hl
    obtain rfl | hi := mem_cons.1 hi
    · exact .inl hj
    · obtain hnext | ⟨p, hp, hpi⟩ := ih hrest hi
      · exact .inr ⟨j, mem_cons_self, hnext⟩
      · exact .inr ⟨p, mem_cons_of_mem j hp, hpi⟩

theorem Linked.succ_mem (hl : Linked next h l) {p : Nat} (hp : p ∈ l)
    (hpi : next p = i) : i ∈ l := by
  induction l generalizing h with
  | nil => cases hp
  | cons j l ih =>
    obtain ⟨-, hrest⟩ := linked_cons.1 hl
    obtain rfl | hp := mem_cons.1 hp
    · obtain ⟨k, l', rfl, hk⟩ := hrest.head_mem (by omega)
      obtain rfl : i = k := by omega
      simp
    · exact mem_cons_of_mem j (ih hrest hp)

theorem Linked.idxOf_succ (hl : Linked next h l) (hnodup : l.Nodup) {p : Nat} (hp : p ∈ l)
    (hpi : next p = i) : l.idxOf i = l.idxOf p + 1 := by
  induction l generalizing h with
  | nil => cases hp
  | cons c l ih =>
    obtain ⟨-, hrest⟩ := linked_cons.1 hl
    obtain ⟨hc, htail⟩ := nodup_cons.1 hnodup
    by_cases hpc : p = c
    · subst hpc
      obtain ⟨k, l', rfl, hk⟩ := hrest.head_mem (by omega)
      obtain rfl : i = k := by omega
      have hne : p ≠ i := fun heq => hc (by simp [heq])
      simp [idxOf_cons_ne _ hne]
    · have hp' : p ∈ l := (mem_cons.1 hp).resolve_left hpc
      have hne : c ≠ i := fun heq => hc (heq ▸ hrest.succ_mem hp' hpi)
      rw [idxOf_cons_ne _ hne, idxOf_cons_ne _ (Ne.symm hpc), ih hrest htail hp']

theorem Linked.succ_ne_head (hl : Linked next h l) (hnodup : l.Nodup) {p : Nat} (hp : p ∈ l)
    (hh : 0 ≤ h) : next p ≠ h := by
  obtain ⟨i, l', rfl, rfl⟩ := hl.head_mem hh
  intro heq
  have := hl.idxOf_succ hnodup hp heq
  simp at this

theorem Linked.succ_inj (hl : Linked next h l) (hnodup : l.Nodup) {p q : Nat} (hp : p ∈ l)
    (hq : q ∈ l) (hpi : next p = i) (hqi : next q = i) : p = q := by
  have hp' := hl.idxOf_succ hnodup hp hpi
  have hq' := hl.idxOf_succ hnodup hq hqi
  exact (idxOf_inj hp).1 (by omega)

/-! ## Walking along a list -/

/-- A loop along `next` to the first node with a property, which remembers the node before. None
inside if there is no such node, and none outside if there are more turns than `fuel`. -/
def walk (next : Nat → Int) (p : Nat → Bool) : Nat → Int → Int → Option (Option (Int × Nat))
  | 0, _, _ => none
  | fuel + 1, prev, i =>
    if i < 0 then some none
    else if p i.toNat then some (some (prev, i.toNat))
    else walk next p fuel i (next i.toNat)

theorem Linked.walk (hl : Linked next h l) (p : Nat → Bool) {fuel : Nat} (hfuel : l.length < fuel)
    (prev : Int) : (walk next p fuel prev h).map (Option.map Prod.snd) = some (l.find? p) := by
  induction l generalizing h fuel prev with
  | nil =>
    obtain ⟨fuel, rfl⟩ := Nat.exists_eq_add_one_of_ne_zero (Nat.ne_of_gt hfuel)
    simp [Lib.walk, linked_nil.1 hl]
  | cons i l ih =>
    obtain ⟨fuel, rfl⟩ := Nat.exists_eq_add_one_of_ne_zero (Nat.ne_of_gt (Nat.zero_lt_of_lt hfuel))
    obtain ⟨rfl, hrest⟩ := linked_cons.1 hl
    unfold Lib.walk
    rw [if_neg (by omega), Int.toNat_natCast, find?_cons]
    cases p i with
    | true => rfl
    | false =>
      rw [if_neg (by decide)]
      exact ih hrest (Nat.lt_of_succ_lt_succ hfuel) i

theorem Linked.walk_prev {q : Nat} (hl : Linked next h (l ++ q :: i :: r)) {p : Nat → Bool}
    (hp : p i) (hbefore : ∀ j ∈ l ++ [q], p j = false) {fuel : Nat} (hfuel : l.length + 1 < fuel)
    (prev : Int) : Lib.walk next p fuel prev h = some (some ((q : Int), i)) := by
  induction l generalizing h fuel prev with
  | nil =>
    obtain ⟨fuel, rfl⟩ : ∃ k, fuel = k + 2 := ⟨fuel - 2, by simp at hfuel; omega⟩
    obtain ⟨rfl, hrest⟩ := linked_cons.1 hl
    obtain ⟨hi, -⟩ := linked_cons.1 hrest
    unfold Lib.walk
    rw [if_neg (by omega), Int.toNat_natCast, hbefore q (by simp), if_neg (by decide)]
    unfold Lib.walk
    rw [hi, if_neg (by omega), Int.toNat_natCast, if_pos hp]
  | cons k l ih =>
    obtain ⟨fuel, rfl⟩ := Nat.exists_eq_add_one_of_ne_zero (Nat.ne_of_gt (Nat.zero_lt_of_lt hfuel))
    obtain ⟨rfl, hrest⟩ := linked_cons.1 hl
    unfold Lib.walk
    rw [Int.toNat_natCast, hbefore k (by simp)]
    exact ih hrest (fun j hj => hbefore j (mem_cons_of_mem k hj)) (Nat.lt_of_succ_lt_succ hfuel) k

/-! ## Relinking -/

theorem Linked.unlink {q : Nat} (hl : Linked next h (l ++ q :: i :: r))
    (hnodup : (l ++ q :: i :: r).Nodup) :
    Linked (Function.update next q (next i)) h (l ++ q :: r) := by
  obtain ⟨m, hpath, hq⟩ := linked_append.1 hl
  obtain ⟨rfl, hi⟩ := linked_cons.1 hq
  obtain ⟨-, hrest⟩ := linked_cons.1 hi
  have hnot : q ∉ l ∧ q ∉ r := by
    simp only [nodup_append, nodup_cons, mem_cons, not_or] at hnodup
    exact ⟨fun h => hnodup.2.2 q h q (.inl rfl) rfl, hnodup.2.1.1.2⟩
  refine linked_append.2 ⟨q, ?_, linked_cons.2 ⟨rfl, ?_⟩⟩
  · exact hpath.congr fun j hj => update_of_ne (ne_of_mem_of_not_mem hj hnot.1) _ _
  · rw [update_self]
    exact hrest.update hnot.2 _

/-- A renaming of nodes, on links. -/
def rename (σ : Equiv.Perm Nat) (n : Int) : Int := if n < 0 then n else σ n.toNat

theorem Linked.rename (hl : Linked next h l) (σ : Equiv.Perm Nat)
    (hnext : ∀ i ∈ l, next' (σ i) = rename σ (next i)) : Linked next' (rename σ h) (l.map σ) := by
  induction l generalizing h with
  | nil =>
    have := linked_nil.1 hl
    simp [Lib.rename, this]
  | cons i l ih =>
    obtain ⟨rfl, hrest⟩ := linked_cons.1 hl
    rw [map_cons, linked_cons]
    refine ⟨by simp [Lib.rename], ?_⟩
    rw [hnext i mem_cons_self]
    exact ih hrest fun j hj => hnext j (mem_cons_of_mem i hj)

end MacRlcSplit.Lib
