-- The turbo encoder `threegpplte_turbo_encoder` of `3gpplte_sse.c`, the one
-- that is compiled. It never looks at `F`, so that filler bits are coded like
-- all others and no bit is NULL.
import MacRlcSplit.Phy.Interleaver

namespace MacRlcSplit.Phy

open List

/-! ## The source -/

/-- `threegpplte_rsc`: the output and the next state. -/
def threegpplteRsc (input state : UInt8) : UInt8 × UInt8 :=
  ((input ^^^ (state >>> 2) ^^^ (state >>> 1)) &&& 1,
    ((input <<< 2) ^^^ (state >>> 1) ^^^ ((state >>> 1) <<< 2) ^^^ (state <<< 2)) &&& 7)

/-- `threegpplte_rsc_termination`: `x`, `z` and the next state. -/
def threegpplteRscTermination (state : UInt8) : UInt8 × UInt8 × UInt8 :=
  ((state ^^^ (state >>> 1)) &&& 1, ((state >>> 2) ^^^ state) &&& 1, state >>> 1)

/-- A bit of the input, the first one in the top bit of a byte. -/
def inputBit (input : Nat → UInt8) (k : Nat) : UInt8 :=
  (input (k / 8) >>> UInt8.ofNat (7 - k % 8)) &&& 1

/-- The loop over the bits from `k` on: the three output bits of each, and the states of both
coders. The source takes eight bits at a time from a table of `threegpplte_rsc`; `pi` is the
interleaver table. -/
def turboSteps (input : Nat → UInt8) (pi : Nat → Nat) :
    Nat → Nat → UInt8 → UInt8 → List (UInt8 × UInt8 × UInt8) × UInt8 × UInt8
  | 0, _, state0, state1 => ([], state0, state1)
  | n + 1, k, state0, state1 =>
    let x := inputBit input k
    let (z, state0) := threegpplteRsc x state0
    let (zprime, state1) := threegpplteRsc (inputBit input (pi k)) state1
    let (l, states) := turboSteps input pi n (k + 1) state0 state1
    ((x, z, zprime) :: l, states)

/-- The six bits that end one of the trellises. -/
def termination (state : UInt8) : List (UInt8 × UInt8 × UInt8) :=
  let (x0, z0, state) := threegpplteRscTermination state
  let (x1, z1, state) := threegpplteRscTermination state
  let (x2, z2, _) := threegpplteRscTermination state
  [(x0, z0, x1), (z1, x2, z2)]

/-- `threegpplte_turbo_encoder`: the output, three bytes at a time. -/
def threegpplteTurboEncoder (input : Nat → UInt8) (K : Nat)
    (pi : Nat → Nat) : List (UInt8 × UInt8 × UInt8) :=
  let (l, state0, state1) := turboSteps input pi K 0 0 0
  l ++ termination state0 ++ termination state1

/-- A row of `d`, seen from its 96th byte on, with the output written to it. -/
def codeRow (out : List (UInt8 × UInt8 × UInt8)) (row : Int → UInt8) : Int → UInt8 := fun p =>
  if p < 0 then row p
  else match out[(p / 3).toNat]? with
    | none => row p
    | some (x, z, zprime) => if p % 3 = 0 then x else if p % 3 = 1 then z else zprime

/-! ## The output -/

theorem and_one_ne_null (x : UInt8) : x &&& 1 ≠ LTE_NULL := by
  intro h
  have hle : (x &&& 1).toNat ≤ 1 := by
    exact Nat.and_le_right
  rw [h] at hle
  exact absurd hle (by decide)

theorem rsc_ne_null (input state : UInt8) : (threegpplteRsc input state).1 ≠ LTE_NULL :=
  and_one_ne_null _

theorem termination_ne_null (state : UInt8) : ∀ t ∈ termination state, t.1 ≠ LTE_NULL ∧
    t.2.1 ≠ LTE_NULL ∧ t.2.2 ≠ LTE_NULL := by
  intro t ht
  simp only [termination, threegpplteRscTermination, mem_cons, not_mem_nil, or_false] at ht
  rcases ht with rfl | rfl
  all_goals exact ⟨and_one_ne_null _, and_one_ne_null _, and_one_ne_null _⟩

variable {input : Nat → UInt8} {pi : Nat → Nat} {K : Nat}

@[simp] theorem length_turboSteps (n k : Nat) (state0 state1 : UInt8) :
    (turboSteps input pi n k state0 state1).1.length = n := by
  induction n generalizing k state0 state1 with
  | zero => rfl
  | succ n ih => simp only [turboSteps, length_cons, ih]

/-- The bits at `k + i`: no NULL, and the input bit in the first stream. -/
theorem turboSteps_spec (input : Nat → UInt8) (pi : Nat → Nat) {n i : Nat} (hi : i < n) (k : Nat)
    (state0 state1 : UInt8) :
    ∃ t, (turboSteps input pi n k state0 state1).1[i]? = some t ∧
      (t.1 ≠ LTE_NULL ∧ t.2.1 ≠ LTE_NULL ∧ t.2.2 ≠ LTE_NULL) ∧ t.1 = inputBit input (k + i) := by
  induction n generalizing i k state0 state1 with
  | zero => cases hi
  | succ n ih =>
    cases i with
    | zero => exact ⟨_, rfl, ⟨and_one_ne_null _, rsc_ne_null _ _, rsc_ne_null _ _⟩, rfl⟩
    | succ i =>
      have hsum : k + (i + 1) = k + 1 + i := by omega
      rw [hsum]
      exact ih (by omega) (k + 1) _ _

theorem turboEncoder_spec (input : Nat → UInt8) (pi : Nat → Nat) {i : Nat} (hi : i < K + 4) :
    ∃ t, (threegpplteTurboEncoder input K pi)[i]? = some t ∧
      (t.1 ≠ LTE_NULL ∧ t.2.1 ≠ LTE_NULL ∧ t.2.2 ≠ LTE_NULL) ∧
      (i < K → t.1 = inputBit input i) := by
  unfold threegpplteTurboEncoder
  dsimp only
  rw [append_assoc]
  rcases lt_or_ge i K with hlt | hge
  · obtain ⟨t, ht, hne, hbit⟩ := turboSteps_spec input pi hlt 0 0 0
    rw [zero_add] at hbit
    refine ⟨t, ?_, hne, fun _ => hbit⟩
    rw [getElem?_append_left (by simpa using hlt), ht]
  · obtain ⟨t, ht⟩ : ∃ t, (termination (turboSteps input pi K 0 0 0).2.1 ++
        termination (turboSteps input pi K 0 0 0).2.2)[i - K]? = some t :=
      ⟨_, getElem?_eq_getElem (by simp [termination]; omega)⟩
    refine ⟨t, ?_, ?_, fun hlt => absurd hlt (by omega)⟩
    · rw [getElem?_append_right (by simpa using hge), length_turboSteps, ht]
    · rcases mem_append.1 (mem_of_getElem? ht) with hmem | hmem
      all_goals exact termination_ne_null _ t hmem

theorem codeRow_at {out : List (UInt8 × UInt8 × UInt8)} {i : Nat} {t : UInt8 × UInt8 × UInt8}
    (h : out[i]? = some t) (row : Int → UInt8) :
    codeRow out row (3 * i) = t.1 ∧ codeRow out row (3 * i + 1) = t.2.1 ∧
    codeRow out row (3 * i + 2) = t.2.2 := by
  have hdiv : ∀ r : Int, 0 ≤ r → r < 3 → ((3 * (i : Int) + r) / 3).toNat = i := by omega
  have hmod : ∀ r : Int, 0 ≤ r → r < 3 → (3 * (i : Int) + r) % 3 = r := by omega
  refine ⟨?_, ?_, ?_⟩
  · have hzero : 3 * (i : Int) = 3 * i + 0 := by omega
    rw [hzero, codeRow, hdiv 0 (by decide) (by decide), h, hmod 0 (by decide) (by decide)]
    rfl
  · rw [codeRow, hdiv 1 (by decide) (by decide), h, hmod 1 (by decide) (by decide)]
    rfl
  · rw [codeRow, hdiv 2 (by decide) (by decide), h, hmod 2 (by decide) (by decide)]
    rfl

theorem codeRow_marked {row : Int → UInt8}
    (before : ∀ p : Int, -96 ≤ p → p < 0 → row p = LTE_NULL) :
    Marked (K + 4) 0 (codeRow (threegpplteTurboEncoder input K pi) row) := by
  have hcoded {i : Nat} (hi : i < K + 4) :
      ∃ t : UInt8 × UInt8 × UInt8, (t.1 ≠ LTE_NULL ∧ t.2.1 ≠ LTE_NULL ∧ t.2.2 ≠ LTE_NULL) ∧
        codeRow (threegpplteTurboEncoder input K pi) row (3 * i) = t.1 ∧
        codeRow (threegpplteTurboEncoder input K pi) row (3 * i + 1) = t.2.1 ∧
        codeRow (threegpplteTurboEncoder input K pi) row (3 * i + 2) = t.2.2 := by
    obtain ⟨t, ht, hne, -⟩ := turboEncoder_spec input pi hi
    exact ⟨t, hne, codeRow_at ht row⟩
  constructor
  · intro p hlow hhigh
    rw [codeRow, if_pos hhigh]
    exact before p hlow hhigh
  · intro i hi
    obtain ⟨t, hne, hx, -, -⟩ := hcoded hi
    rw [hx]
    exact iff_of_false hne.1 (Nat.not_lt_zero i)
  · intro i hi
    obtain ⟨t, hne, -, hz, -⟩ := hcoded hi
    rw [hz]
    exact iff_of_false hne.2.1 (Nat.not_lt_zero i)
  · intro i hi
    obtain ⟨t, hne, -, -, hzprime⟩ := hcoded hi
    rw [hzprime]
    exact hne.2.2

end MacRlcSplit.Phy
