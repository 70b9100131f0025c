-- Lists in which what satisfies a predicate comes first, as in a sorted list
-- cut at a key: taking while it holds is then the same as filtering.
import Mathlib.Algebra.Group.Int.Defs
import Mathlib.Algebra.GroupWithZero.Nat
import Mathlib.Data.List.TakeWhile
import Mathlib.Tactic.Common

open List

namespace MacRlcSplit.Lib

variable {α : Type} {p : α → Bool} {a : α} {l : List α}

/-- What satisfies `p` comes before what does not. -/
def Front (p : α → Bool) (l : List α) : Prop := l.Pairwise fun a b => p b = true → p a = true

theorem Front.tail (h : Front p (a :: l)) : Front p l := (pairwise_cons.1 h).2

theorem Front.none (h : Front p (a :: l)) (ha : p a = false) : ∀ b ∈ l, p b = false := by
  intro b hb
  rw [← Bool.not_eq_true]
  intro hpb
  rw [(pairwise_cons.1 h).1 b hb hpb] at ha
  cases ha

theorem Front.filter_nil (h : Front p (a :: l)) (ha : p a = false) : (a :: l).filter p = [] := by
  rw [filter_eq_nil_iff]
  intro b hb
  rw [Bool.not_eq_true]
  rcases mem_cons.1 hb with rfl | hb
  · exact ha
  · exact h.none ha b hb

theorem Front.takeWhile_eq (h : Front p l) : l.takeWhile p = l.filter p := by
  induction l with
  | nil => rfl
  | cons a l ih =>
    cases ha : p a with
    | true => rw [takeWhile_cons_of_pos ha, filter_cons_of_pos ha, ih h.tail]
    | false => rw [h.filter_nil ha, takeWhile_cons_of_neg (by simp [ha])]

theorem Front.head {b : α} (h : Front p l) (hb : b ∈ l)
    (hp : p b) : ∃ a, l.head? = some a ∧ p a := by
  cases l with
  | nil => cases hb
  | cons a l =>
    refine ⟨a, rfl, ?_⟩
    rcases mem_cons.1 hb with rfl | hb
    · exact hp
    · exact (pairwise_cons.1 h).1 b hb hp

theorem Front.head_of_filter {t : List α} (h : Front p l)
    (hl : l.filter p = a :: t) : l.head? = some a := by
  cases l with
  | nil => cases hl
  | cons b l =>
    cases hb : p b with
    | true =>
      rw [filter_cons_of_pos hb] at hl
      cases hl
      rfl
    | false =>
      rw [h.filter_nil hb] at hl
      cases hl

theorem Front.dropWhile_none (h : Front p l) : ∀ b ∈ l.dropWhile p, p b = false := by
  induction l with
  | nil => exact fun b hb => by cases hb
  | cons a l ih =>
    cases ha : p a with
    | true =>
      rw [dropWhile_cons_of_pos ha]
      exact ih h.tail
    | false =>
      rw [dropWhile_cons_of_neg (by simp [ha])]
      intro b hb
      rcases mem_cons.1 hb with rfl | hb
      · exact ha
      · exact h.none ha b hb

theorem pairwise_insert {R : α → α → Prop} {l' : List α} (h : (l ++ l').Pairwise R)
    (before : ∀ b ∈ l, R b a) (after : ∀ b ∈ l', R a b) : (l ++ a :: l').Pairwise R := by
  obtain ⟨hl, hl', hboth⟩ := pairwise_append.1 h
  refine pairwise_append.2 ⟨hl, pairwise_cons.2 ⟨after, hl'⟩, ?_⟩
  intro b hb c hc
  rcases mem_cons.1 hc with rfl | hc
  · exact before b hb
  · exact hboth b hb c hc

end MacRlcSplit.Lib
