-- Memory as a function of the address: the bytes that a list puts there, and
-- the little-endian numbers that are read from it.
import MacRlcSplit.Lib.Buffers

namespace MacRlcSplit.Lib

/-! ## Bytes -/

section Bytes

variable {α : Type} {mem : Nat → α} {off : Nat} {xs ys : List α}

def bytesAt (mem : Nat → α) (off n : Nat) : List α := (List.range n).map fun k => mem (off + k)

def Holds (mem : Nat → α) (off : Nat) (xs : List α) : Prop :=
  ∀ k x, xs[k]? = some x → mem (off + k) = x

/-- The memory after a list was received at its start, of which there is room for `room` bytes. -/
def received (room : Nat) (xs : List α) (stale : Nat → α)
    (i : Nat) : α := (xs.take room)[i]?.getD (stale i)

theorem holds_received {room : Nat} (h : xs.length ≤ room)
    (stale : Nat → α) : Holds (received room xs stale) 0 xs := by
  intro k x hx
  rw [received, List.take_of_length_le h, zero_add, hx]
  rfl

theorem holds_append : Holds mem off (xs ++ ys) ↔ Holds mem off xs ∧
    Holds mem (off + xs.length) ys := by
  constructor
  · intro h
    refine ⟨fun k x hx => h k x ?_, fun k y hy => ?_⟩
    · rw [List.getElem?_append_left (List.getElem?_eq_some_iff.1 hx).1]
      exact hx
    · rw [add_assoc]
      apply h
      rw [List.getElem?_append_right (Nat.le_add_right _ _), Nat.add_sub_cancel_left]
      exact hy
  · rintro ⟨hxs, hys⟩ k x hx
    by_cases hk : k < xs.length
    · rw [List.getElem?_append_left hk] at hx
      exact hxs k x hx
    · rw [List.getElem?_append_right (by omega)] at hx
      have := hys (k - xs.length) x hx
      rwa [add_assoc, Nat.add_sub_cancel' (by omega)] at this

theorem bytesAt_of_holds (h : Holds mem off xs) {k n : Nat} (hk : k + n ≤ xs.length) :
    bytesAt mem (off + k) n = slice k n xs := by
  apply List.ext_getElem?
  intro i
  unfold bytesAt slice
  by_cases hi : i < n
  · have hget : xs[k + i]? = some (xs[k + i]) := List.getElem?_eq_getElem (by omega)
    rw [List.getElem?_map, List.getElem?_range hi, List.getElem?_take_of_lt hi, List.getElem?_drop,
      hget, Option.map_some, add_assoc, h _ _ hget]
  · rw [List.getElem?_eq_none (by simpa using hi), List.getElem?_eq_none (by simp; omega)]

@[simp] theorem length_bytesAt (mem : Nat → α) (off n : Nat) : (bytesAt mem off n).length = n := by
  simp [bytesAt]

theorem holds_bytesAt (mem : Nat → α) (off n : Nat) : Holds mem off (bytesAt mem off n) := by
  intro k x hx
  have hk := (List.getElem?_eq_some_iff.1 hx).1
  rw [length_bytesAt] at hk
  rw [bytesAt, List.getElem?_map, List.getElem?_range hk] at hx
  exact Option.some.inj hx

theorem holds_concat {f : Nat → List α} {n size : Nat} (hsize : ∀ i, (f i).length = size)
    (h : Holds mem off (concat f n)) {i : Nat} (hi : i < n) : Holds mem (off + size * i) (f i) := by
  have hlen : ∀ m, (concat f m).length = size * m := by
    intro m
    induction m with
    | zero => rfl
    | succ m ih => rw [concat, List.length_append, ih, hsize, Nat.mul_succ]
  induction n with
  | zero => omega
  | succ n ih =>
    rw [concat, holds_append, hlen] at h
    rcases Nat.lt_succ_iff_lt_or_eq.1 hi with hlt | rfl
    · exact ih h.1 hlt
    · exact h.2

end Bytes

/-! ## Numbers -/

/-- The little-endian number in the `n` bytes from `off` on. -/
def leAt (mem : Nat → UInt8) (off : Nat) : Nat → Nat
  | 0 => 0
  | n + 1 => (mem off).toNat + 256 * leAt mem (off + 1) n

theorem leAt_lt (mem : Nat → UInt8) (off n : Nat) : leAt mem off n < 256 ^ n := by
  induction n generalizing off with
  | zero => exact Nat.one_pos
  | succ n ih =>
    have hbyte := (mem off).toNat_lt
    have hrest := ih (off + 1)
    rw [leAt, Nat.pow_succ']
    omega

def leBytes : Nat → Nat → List UInt8
  | 0, _ => []
  | n + 1, v => UInt8.ofNat v :: leBytes n (v / 256)

@[simp] theorem length_leBytes (n v : Nat) : (leBytes n v).length = n := by
  induction n generalizing v with
  | zero => rfl
  | succ n ih => rw [leBytes, List.length_cons, ih]

theorem leAt_of_holds {mem : Nat → UInt8} {off n v : Nat} (h : Holds mem off (leBytes n v)) :
    leAt mem off n = v % 256 ^ n := by
  induction n generalizing off v with
  | zero => rw [leAt, Nat.pow_zero, Nat.mod_one]
  | succ n ih =>
    have hfirst : mem off = UInt8.ofNat v := h 0 _ rfl
    have hrest : Holds mem (off + 1) (leBytes n (v / 256)) := by
      intro k x hx
      rw [add_assoc, add_comm 1 k]
      exact h (k + 1) x hx
    rw [leAt, ih hrest, hfirst, UInt8.toNat_ofNat', Nat.pow_succ' (m := 256), Nat.mod_mul]

/-- A number that is not negative in 32 bits. -/
def uint32 (z : Int) : Nat := (z % 2 ^ 32).toNat

/-- 32 bits that are read as a signed number. -/
def int32 (v : Nat) : Int := if v < 2 ^ 31 then v else v - 2 ^ 32

theorem uint32_lt (z : Int) : uint32 z < 2 ^ 32 := by
  unfold uint32
  omega

theorem int32_uint32 {z : Int} (hmin : -2 ^ 31 ≤ z) (hmax : z < 2 ^ 31) : int32 (uint32 z) = z := by
  unfold int32 uint32
  split <;> omega

theorem int32_of_lt {v : Nat} (h : v < 2 ^ 31) : int32 v = v := if_pos h

end MacRlcSplit.Lib
