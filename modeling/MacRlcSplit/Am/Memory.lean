-- Bytes in memory: what `memcpy` and single writes leave to be read.
import MacRlcSplit.Am.Entity

open List

namespace MacRlcSplit.Am

/-! ## Bytes that are read -/

@[simp] theorem length_read (m : Mem) (i n : Nat) : (m.read i n).length = n := by
  simp [Mem.read]

theorem read_append (m : Mem) (i n k : Nat) : m.read i (n + k) =
    m.read i n ++ m.read (i + n) k := by
  simp [Mem.read, range_add, add_assoc, Function.comp_def]

variable {m : Mem} {i n k : Nat}

theorem take_read (h : k ≤ n) : (m.read i n).take k = m.read i k := by
  obtain ⟨d, rfl⟩ := Nat.exists_eq_add_of_le h
  rw [read_append, take_left' (length_read m i k)]

theorem drop_read (h : k ≤ n) : (m.read i n).drop k = m.read (i + k) (n - k) := by
  obtain ⟨d, rfl⟩ := Nat.exists_eq_add_of_le h
  rw [read_append, drop_left' (length_read m i k), Nat.add_sub_cancel_left]

theorem read_congr {m' : Mem} (h : ∀ k, i ≤ k → k < i + n → m k = m' k) :
    m.read i n = m'.read i n := by
  apply map_congr_left
  intro k hk
  rw [mem_range] at hk
  exact h (i + k) (by omega) (by omega)

theorem read_ne_nil (h : 0 < n) : m.read i n ≠ [] := ne_nil_of_length_pos (by rwa [length_read])

/-! ## Bytes that are written -/

@[simp] theorem set_self (m : Mem) (i : Nat) (b : Byte) : m.set i b i = b := by
  simp [Mem.set]

theorem set_other {b : Byte} (h : k ≠ i) : m.set i b k = m k := by
  simp [Mem.set, h]

theorem copy_outside {bytes : List Byte} (h : k < i ∨ i + bytes.length ≤ k) :
    m.copy i bytes k = m k := by
  unfold Mem.copy
  rw [if_neg (by omega)]

theorem copy_inside {bytes : List Byte} (h : k < bytes.length) :
    m.copy i bytes (i + k) = bytes[k] := by
  unfold Mem.copy
  simp [h]

theorem read_copy (m : Mem) (i : Nat) (bytes : List Byte) :
    (m.copy i bytes).read i bytes.length = bytes := by
  apply ext_getElem
  · rw [length_read]
  · intro k hk hk'
    simp only [Mem.read, getElem_map, getElem_range]
    exact copy_inside hk'

theorem copy_read {tail : Mem} (h : k < n) : tail.copy 0 (m.read 0 n) k = m k := by
  have hlen : k < (m.read 0 n).length := by rwa [length_read]
  have hcopy : tail.copy 0 (m.read 0 n) (0 + k) = (m.read 0 n)[k] := copy_inside hlen
  rw [zero_add] at hcopy
  rw [hcopy]
  simp [Mem.read]

end MacRlcSplit.Am
