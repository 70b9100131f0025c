-- Byte buffers as lists: a part of a buffer, a copy over its start, and
-- where each piece of a concatenation lies.
import Mathlib.Algebra.BigOperators.Group.List.Lemmas
import Mathlib.Algebra.GroupWithZero.Nat

namespace MacRlcSplit.Lib

variable {α : Type}

def slice (off len : Nat) (buf : List α) : List α := (buf.drop off).take len

def overwrite (src dst : List α) : List α := src ++ dst.drop src.length

/-- A copy into a buffer of which only the first `room` elements are there. -/
def receive (room : Nat) (src dst : List α) : List α := src.take room ++ dst

@[simp] theorem take_overwrite (src dst : List α) : (overwrite src dst).take src.length = src := by
  simp [overwrite]

theorem slice_append_of_le {off len : Nat} {xs ys : List α} (h : off + len ≤ xs.length) :
    slice off len (xs ++ ys) = slice off len xs := by
  unfold slice
  rw [List.drop_append_of_le_length (by omega), List.take_append_of_le_length]
  rw [List.length_drop]
  omega

theorem slice_receive {room off len : Nat} {src dst : List α} (hroom : src.length ≤ room)
    (h : off + len ≤ src.length) : slice off len (receive room src dst) = slice off len src := by
  unfold receive
  rw [List.take_of_length_le hroom, slice_append_of_le h]

/-- The pieces `f 0, f 1, ..` of a table, laid one after the other. -/
def concat (f : Nat → List α) : Nat → List α
  | 0 => []
  | n + 1 => concat f n ++ f n

theorem le_length_concat (f : Nat → List α) {i n : Nat} (h : i < n) :
    (concat f i).length + (f i).length ≤ (concat f n).length := by
  induction n with
  | zero => omega
  | succ n ih =>
    rcases Nat.lt_succ_iff_lt_or_eq.1 h with hlt | rfl
    · simp only [concat, List.length_append]
      omega
    · simp [concat]

theorem slice_concat (f : Nat → List α) {i n : Nat} (h : i < n) :
    slice (concat f i).length (f i).length (concat f n) = f i := by
  induction n with
  | zero => omega
  | succ n ih =>
    rcases Nat.lt_succ_iff_lt_or_eq.1 h with hlt | rfl
    · rw [concat, slice_append_of_le (le_length_concat f hlt), ih hlt]
    · simp [concat, slice]

theorem concat_congr {f g : Nat → List α} {n : Nat}
    (h : ∀ i < n, f i = g i) : concat f n = concat g n := by
  induction n with
  | zero => rfl
  | succ n ih =>
    rw [concat, concat, ih (fun i hi => h i (by omega)), h n (by omega)]

end MacRlcSplit.Lib
