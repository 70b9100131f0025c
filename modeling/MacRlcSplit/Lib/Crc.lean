-- Cyclic redundancy checks in a register of `n` bits, the highest bit first:
-- bit by bit, a digit of `k` bits at once with a table, and a message that is
-- followed by its own check.
import Mathlib.Algebra.Group.Int.Defs
import Mathlib.Algebra.GroupWithZero.Nat
import Mathlib.Logic.Function.Iterate
import Mathlib.Tactic.Common

namespace MacRlcSplit.Lib

open Function BitVec

variable {n k : Nat} {poly : BitVec n}

/-! ## Bit by bit -/

/-- One step of the division by `poly`, whose highest power is not written. -/
def crcShift (poly crc : BitVec n) : BitVec n := if crc.msb then crc <<< 1 ^^^ poly else crc <<< 1

/-- The division of `k` bits, which stand at the top of `c`. -/
def crcBits (poly : BitVec n) : Nat → BitVec n → BitVec n → BitVec n
  | 0, _, crc => crc
  | k + 1, c, crc =>
    crcBits poly k (c <<< 1) (if (c ^^^ crc).msb then crc <<< 1 ^^^ poly else crc <<< 1)

theorem crcShift_zero (poly : BitVec n) : crcShift poly 0#n = 0#n := by simp [crcShift]

theorem crcShift_xor (poly a b : BitVec n) : crcShift poly (a ^^^ b) =
    crcShift poly a ^^^ crcShift poly b := by
  unfold crcShift
  rw [msb_xor, shiftLeft_xor_distrib]
  cases a.msb with
  | false =>
    cases b.msb with
    | false => rfl
    | true => exact BitVec.xor_assoc _ _ _
  | true =>
    cases b.msb with
    | false =>
      change a <<< 1 ^^^ b <<< 1 ^^^ poly = a <<< 1 ^^^ poly ^^^ b <<< 1
      ac_rfl
    | true =>
      -- the two copies of `poly` cancel
      change a <<< 1 ^^^ b <<< 1 = a <<< 1 ^^^ poly ^^^ (b <<< 1 ^^^ poly)
      rw [BitVec.xor_comm (b <<< 1) poly, BitVec.xor_assoc, ← BitVec.xor_assoc poly,
        BitVec.xor_self, BitVec.zero_xor]

theorem crcShift_iterate_xor (poly a b : BitVec n) (k : Nat) :
    (crcShift poly)^[k] (a ^^^ b) = (crcShift poly)^[k] a ^^^ (crcShift poly)^[k] b := by
  induction k with
  | zero => rfl
  | succ k ih => simp only [iterate_succ_apply', ih, crcShift_xor]

theorem crcBits_eq (poly c crc : BitVec n) (k : Nat) :
    crcBits poly k c crc = (crcShift poly)^[k] (crc ^^^ c) ^^^ c <<< k := by
  induction k generalizing c crc with
  | zero =>
    change crc = crc ^^^ c ^^^ c <<< 0
    rw [shiftLeft_zero, BitVec.xor_assoc, BitVec.xor_self, BitVec.xor_zero]
  | succ k ih =>
    have hshift : (if (c ^^^ crc).msb then crc <<< 1 ^^^ poly else crc <<< 1) ^^^ c <<< 1 =
        crcShift poly (crc ^^^ c) := by
      rw [crcShift, BitVec.xor_comm c crc, shiftLeft_xor_distrib]
      split
      · ac_rfl
      · rfl
    rw [crcBits, ih, hshift, iterate_succ_apply, ← shiftLeft_add, add_comm 1 k]

theorem crcBits_shiftLeft {j : Nat} {c crc : BitVec n} (hpoly : poly <<< j = 0#n)
    (hc : c <<< j = 0#n) (hcrc : crc <<< j = 0#n) : crcBits poly k c crc <<< j = 0#n := by
  induction k generalizing c crc with
  | zero => exact hcrc
  | succ k ih =>
    have hnext {x : BitVec n} (hx : x <<< j = 0#n) : x <<< 1 <<< j = 0#n := by
      rw [← shiftLeft_add, add_comm, shiftLeft_add, hx, zero_shiftLeft]
    refine ih (hnext hc) ?_
    split
    · rw [shiftLeft_xor_distrib, hnext hcrc, hpoly, BitVec.xor_self]
    · exact hnext hcrc

theorem crcBits_congr {c c' : BitVec n} (crc : BitVec n) (h : ∀ i < k, c.getMsbD i = c'.getMsbD i) :
    crcBits poly k c crc = crcBits poly k c' crc := by
  induction k generalizing c c' crc with
  | zero => rfl
  | succ k ih =>
    have hmsb : c.msb = c'.msb := h 0 (Nat.succ_pos k)
    rw [crcBits, crcBits, msb_xor, msb_xor, hmsb]
    refine ih _ fun i hi => ?_
    rw [getMsbD_shiftLeft, getMsbD_shiftLeft]
    exact h (i + 1) (by omega)

/-! ## With a table -/

/-- A digit at the top of the register. -/
def highDigit (n : Nat) (x : BitVec k) : BitVec n := x.setWidth n <<< (n - k)

/-- The word of the table for a digit. -/
def crcWord (poly : BitVec n) (x : BitVec k) : BitVec n := crcBits poly k (highDigit n x) 0#n

theorem crcShift_iterate_low {crc : BitVec n} (h : ∀ i < k, crc.getMsbD i = false) :
    (crcShift poly)^[k] crc = crc <<< k := by
  induction k generalizing crc with
  | zero => exact (shiftLeft_zero crc).symm
  | succ k ih =>
    have hmsb : crc.msb = false := h 0 (Nat.succ_pos k)
    have hshift : crcShift poly crc = crc <<< 1 := by rw [crcShift, hmsb, if_neg Bool.false_ne_true]
    rw [iterate_succ_apply, hshift, ih, ← shiftLeft_add, add_comm 1 k]
    intro i hi
    rw [getMsbD_shiftLeft]
    exact h (i + 1) (by omega)

theorem highDigit_shiftLeft (hk : k ≤ n) (x : BitVec k) : highDigit n x <<< k = 0#n := by
  rw [highDigit, ← shiftLeft_add, Nat.sub_add_cancel hk]
  exact shiftLeft_eq_zero (Nat.le_refl n)

theorem highDigit_xor (x y : BitVec k) : highDigit n (x ^^^ y) =
    highDigit n x ^^^ highDigit n y := by
  rw [highDigit, setWidth_xor, shiftLeft_xor_distrib]
  rfl

/-- The highest digit, in a register of `m` bits. -/
theorem setWidth_high (hk : k ≤ n) (m : Nat) (crc : BitVec n) :
    ((crc >>> (n - k)).setWidth k).setWidth m = (crc >>> (n - k)).setWidth m := by
  have hlt : crc.toNat >>> (n - k) < 2 ^ k := by
    rw [Nat.shiftRight_eq_div_pow]
    refine Nat.div_lt_of_lt_mul ?_
    rw [← Nat.pow_add, Nat.sub_add_cancel hk]
    exact crc.isLt
  apply eq_of_toNat_eq
  rw [toNat_setWidth, toNat_setWidth, toNat_setWidth, toNat_ushiftRight, Nat.mod_eq_of_lt hlt]

theorem highDigit_high (hk : k ≤ n) (crc : BitVec n) :
    highDigit n ((crc >>> (n - k)).setWidth k) = crc >>> (n - k) <<< (n - k) := by
  rw [highDigit, setWidth_high hk n, setWidth_eq]

theorem highDigit_kept (hk : k ≤ n) {crc : BitVec n} (h : crc <<< k = 0#n) :
    highDigit n ((crc >>> (n - k)).setWidth k) = crc := by
  rw [highDigit_high hk]
  apply eq_of_getLsbD_eq
  intro i hi
  have hlow := congrArg (getLsbD · (i + k)) h
  simp only [getLsbD_shiftLeft, getLsbD_ushiftRight, getLsbD_zero, Nat.add_sub_cancel] at hlow ⊢
  by_cases hin : i < n - k
  · have : i + k < n := by omega
    simpa [hin, this] using hlow.symm
  · have : n - k + (i - (n - k)) = i := by omega
    simp [hi, hin, this]

theorem getMsbD_highDigit (hk : k ≤ n) (x : BitVec k)
    (i : Nat) : (highDigit n x).getMsbD i = x.getMsbD i := by
  rw [highDigit, getMsbD_shiftLeft, getMsbD_setWidth]
  have : i + (n - k) + k - n = i := by omega
  simp [this]

theorem getMsbD_highDigit_high (hk : k ≤ n) (crc : BitVec n) {i : Nat} (hi : i < k) :
    (highDigit n ((crc >>> (n - k)).setWidth k)).getMsbD i = crc.getMsbD i := by
  have hin : i + (n - k) < n := by omega
  have hnot : ¬ i + (n - k) < n - k := by omega
  rw [highDigit_high hk, getMsbD_shiftLeft]
  simp [hin, hnot]

/-- Zeros in front of a digit do not change its word. -/
theorem crcWord_setWidth {m : Nat} (hk : k ≤ m) (hm : m ≤ n) (x : BitVec k) :
    crcWord poly (x.setWidth m) = crcWord poly x := by
  obtain ⟨j, rfl⟩ := Nat.exists_eq_add_of_le hk
  have hzeros : ∀ i < j, (highDigit n (x.setWidth (k + j))).getMsbD i = false := by
    intro i hi
    rw [getMsbD_highDigit hm, getMsbD_setWidth]
    simp
    omega
  have hmove : highDigit n (x.setWidth (k + j)) <<< j = highDigit n x := by
    have hlt : x.toNat < 2 ^ (k + j) :=
      Nat.lt_of_lt_of_le x.isLt (Nat.pow_le_pow_right (by decide) hk)
    have hwidth : (x.setWidth (k + j)).setWidth n = x.setWidth n := by
      apply eq_of_toNat_eq
      rw [toNat_setWidth, toNat_setWidth, toNat_setWidth, Nat.mod_eq_of_lt hlt]
    have hsub : n - (k + j) + j = n - k := by omega
    rw [highDigit, ← shiftLeft_add, hwidth, hsub]
    rfl
  rw [crcWord, crcBits_eq, BitVec.zero_xor, iterate_add_apply, crcShift_iterate_low hzeros,
    add_comm, shiftLeft_add, add_comm, hmove, crcWord, crcBits_eq, BitVec.zero_xor]

/-- A digit at once: the rest of the register moves up, and the table has the rest. -/
theorem crcWord_step (hk : k ≤ n) (crc : BitVec n) (x : BitVec k) :
    crc <<< k ^^^ crcWord poly (x ^^^ (crc >>> (n - k)).setWidth k) =
      crcBits poly k (highDigit n x) crc := by
  obtain ⟨top, htop⟩ : ∃ top, top = (crc >>> (n - k)).setWidth k := ⟨_, rfl⟩
  have hlow : (crcShift poly)^[k] (crc ^^^ highDigit n top) = crc <<< k := by
    rw [crcShift_iterate_low, shiftLeft_xor_distrib, highDigit_shiftLeft hk, BitVec.xor_zero]
    intro i hi
    rw [getMsbD_xor, htop, getMsbD_highDigit_high hk crc hi, Bool.xor_self]
  have hsplit : crc ^^^ highDigit n x =
      (crc ^^^ highDigit n top) ^^^ (highDigit n x ^^^ highDigit n top) := by
    rw [BitVec.xor_comm (highDigit n x), BitVec.xor_assoc, ← BitVec.xor_assoc (highDigit n top),
      BitVec.xor_self, BitVec.zero_xor]
  rw [← htop, crcWord, crcBits_eq, crcBits_eq, highDigit_shiftLeft hk, highDigit_shiftLeft hk,
    BitVec.xor_zero, BitVec.xor_zero, BitVec.zero_xor, highDigit_xor, hsplit,
    crcShift_iterate_xor poly (crc ^^^ highDigit n top), hlow]

theorem crcBits_own (hk : k ≤ n) (crc : BitVec n) :
    crcBits poly k (highDigit n ((crc >>> (n - k)).setWidth k)) crc = crc <<< k := by
  have hzero : crcWord poly 0#k = 0#n := by
    rw [crcWord, crcBits_eq, highDigit_shiftLeft hk, highDigit, setWidth_zero, zero_shiftLeft,
      BitVec.xor_zero, BitVec.xor_zero]
    exact iterate_fixed (crcShift_zero poly) k
  rw [← crcWord_step hk, BitVec.xor_self, hzero, BitVec.xor_zero]

end MacRlcSplit.Lib
