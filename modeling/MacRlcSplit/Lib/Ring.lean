-- A loop that goes round a buffer: from a start to the end, then from the
-- first place on as often as needed, it takes the places that are kept until
-- it has as many as asked for. What it does with a place is a parameter, and
-- so two loops that keep the same places visit them in the same order.
import Mathlib.Algebra.Group.Int.Defs
import Mathlib.Algebra.GroupWithZero.Nat
import Mathlib.Tactic.Common

open List

namespace MacRlcSplit.Lib

section Ring

variable {σ : Type} (keep : Nat → Bool) (body : Nat → Nat → σ → σ) (count : Nat)

/-- `n` places from `i` on, with `k` taken before: how many are taken then, and the state. -/
def ringPass : Nat → Nat → Nat → σ → Nat × σ
  | 0, _, k, s => (k, s)
  | n + 1, i, k, s =>
    if k < count then
      if keep i then ringPass n (i + 1) (k + 1) (body k i s) else ringPass n (i + 1) k s
    else (k, s)

/-- Passes over all `size` places while there are too few; none when `turns` passes are not
enough. -/
def ringTurns (size : Nat) : Nat → Nat → σ → Option σ
  | 0, k, s => if k < count then none else some s
  | turns + 1, k, s =>
    if k < count then
      let (k, s) := ringPass keep body count size 0 k s
      ringTurns size turns k s
    else some s

/-- The loop. A pass that takes nothing would be repeated for ever, and one that takes something
leaves less to take, so that `count` passes are enough or no number of them is. -/
def ringLoop (size start : Nat) (s : σ) : Option σ :=
  let (k, s) := ringPass keep body count (size - start) start 0 s
  ringTurns keep body count size count k s

/-- The body for each place of a list. -/
def eachPlace : Nat → List Nat → σ → σ
  | _, [], s => s
  | k, i :: l, s => eachPlace (k + 1) l (body k i s)

/-- The places kept of the whole buffer. -/
def kept (size : Nat) : List Nat := (List.range size).filter keep

/-- The places that the loop visits. -/
def visits (size start : Nat) : List Nat :=
  ((range' start (size - start)).filter keep ++ (replicate count (kept keep size)).flatten).take
    count

variable {keep body count} {size start k : Nat} {s : σ}

theorem mem_kept {i : Nat} : i ∈ kept keep size ↔ i < size ∧ keep i := by
  simp [kept]

theorem eachPlace_append (l l' : List Nat) :
    eachPlace body k (l ++ l') s = eachPlace body (k + l.length) l' (eachPlace body k l s) := by
  induction l generalizing k s with
  | nil => rfl
  | cons i l ih =>
    rw [cons_append, eachPlace, ih, length_cons]
    congr 1
    omega

theorem ringPass_eq (n i : Nat) : ringPass keep body count n i k s =
    (k + (((range' i n).filter keep).take (count - k)).length,
      eachPlace body k (((range' i n).filter keep).take (count - k)) s) := by
  induction n generalizing i k s with
  | zero => simp [ringPass, eachPlace]
  | succ n ih =>
    unfold ringPass
    rw [range'_succ]
    split
    · next hk =>
      have hcount : count - k = (count - (k + 1)) + 1 := by omega
      split
      · next hkeep =>
        rw [ih, filter_cons_of_pos hkeep, hcount, take_succ_cons, length_cons]
        congr 1
        omega
      · next hkeep => rw [ih, filter_cons_of_neg hkeep]
    · next hk =>
      have hcount : count - k = 0 := by omega
      rw [hcount]
      rfl

theorem ringTurns_eq {turns : Nat} (hkept : kept keep size ≠ []) (hturns : count ≤ k + turns) :
    ringTurns keep body count size turns k s =
      some (eachPlace body k ((replicate turns (kept keep size)).flatten.take (count - k)) s) := by
  have hpos := length_pos_iff.2 hkept
  induction turns generalizing k s with
  | zero =>
    rw [ringTurns, if_neg (by omega), replicate_zero, flatten_nil, take_nil]
    rfl
  | succ turns ih =>
    unfold ringTurns
    split
    · next hk =>
      rw [ringPass_eq, ← range_eq_range']
      change ringTurns keep body count size turns (k + ((kept keep size).take (count - k)).length)
        (eachPlace body k ((kept keep size).take (count - k)) s) = _
      have hlen : ((kept keep size).take (count - k)).length =
          min (count - k) (kept keep size).length := length_take
      have hrest : count - (k + min (count - k) (kept keep size).length) =
          count - k - (kept keep size).length := by omega
      rw [ih (by omega), replicate_succ, flatten_cons, take_append, eachPlace_append, hlen, hrest]
    · next hk =>
      have hcount : count - k = 0 := by omega
      rw [hcount]
      rfl

/-- With a place to keep, the loop ends, after one turn for each place it visits. -/
theorem ringLoop_eq (h : ∃ i < size, keep i) :
    ringLoop keep body count size start s =
      some (eachPlace body 0 (visits keep count size start) s) := by
  obtain ⟨i, hi, hkeep⟩ := h
  have hkept : kept keep size ≠ [] := ne_nil_of_mem (mem_kept.2 ⟨hi, hkeep⟩)
  have hrest : ∀ n, count - (0 + min count n) = count - n := by omega
  unfold ringLoop
  rw [ringPass_eq]
  dsimp only
  rw [ringTurns_eq hkept (by omega), visits, take_append, eachPlace_append, Nat.sub_zero,
    length_take, hrest]

theorem ringLoop_congr {keep' : Nat → Bool} {body' : Nat → Nat → σ → σ}
    (hkeep : ∀ i < size, keep i = keep' i) (hbody : ∀ i < size, ∀ k s, body k i s = body' k i s) :
    ringLoop keep body count size start s = ringLoop keep' body' count size start s := by
  have pass (n i k : Nat) (s : σ) (hn : i + n ≤ size ∨ n = 0) :
      ringPass keep body count n i k s = ringPass keep' body' count n i k s := by
    induction n generalizing i k s with
    | zero => rfl
    | succ n ih =>
      have hi : i < size := by omega
      simp only [ringPass, hkeep i hi, hbody i hi, ih (i + 1) _ _ (by omega)]
  have turns (t k : Nat) (s : σ) : ringTurns keep body count size t k s =
      ringTurns keep' body' count size t k s := by
    induction t generalizing k s with
    | zero => rfl
    | succ t ih => simp only [ringTurns, pass size 0 k s (by omega), ih]
  unfold ringLoop
  rw [pass _ _ _ _ (by omega)]
  exact turns count _ _

theorem length_visits (h : ∃ i < size, keep i) : (visits keep count size start).length = count := by
  obtain ⟨i, hi, hkeep⟩ := h
  have hpos : 0 < (kept keep size).length := length_pos_of_mem (mem_kept.2 ⟨hi, hkeep⟩)
  have hle : count ≤ count * (kept keep size).length := Nat.le_mul_of_pos_right count hpos
  rw [visits, length_take, length_append, length_flatten, map_replicate, sum_replicate_nat]
  omega

theorem visits_congr {keep' : Nat → Bool} (h : ∀ i < size, keep i = keep' i) :
    visits keep count size start = visits keep' count size start := by
  have whole : kept keep size = kept keep' size := filter_congr fun i hi => h i (mem_range.1 hi)
  have rest : (range' start (size - start)).filter keep =
      (range' start (size - start)).filter keep' := by
    refine filter_congr fun i hi => h i ?_
    have := mem_range'_1.1 hi
    omega
  rw [visits, visits, whole, rest]

theorem of_mem_visits {i : Nat} (h : i ∈ visits keep count size start) : i < size ∧ keep i := by
  rcases mem_append.1 (mem_of_mem_take h) with hi | hi
  · obtain ⟨hi, hkeep⟩ := mem_filter.1 hi
    have := mem_range'_1.1 hi
    exact ⟨by omega, hkeep⟩
  · obtain ⟨l, hl, hi⟩ := mem_flatten.1 hi
    rw [eq_of_mem_replicate hl] at hi
    exact mem_kept.1 hi

theorem mem_visits {i : Nat} (hstart : start ≤ i) (hi : i < size) (hkeep : keep i)
    (hcount : size - start ≤ count) : i ∈ visits keep count size start := by
  have hmem : i ∈ (range' start (size - start)).filter keep :=
    mem_filter.2 ⟨mem_range'_1.2 (by omega), hkeep⟩
  have hlen : ((range' start (size - start)).filter keep).length ≤ count := by
    have := length_filter_le keep (range' start (size - start))
    rw [length_range'] at this
    omega
  rw [visits, take_append, take_of_length_le hlen]
  exact mem_append_left _ hmem

theorem eachPlace_collect {α : Type} (f : Nat → α) (l : List Nat) (e : List α) :
    eachPlace (fun _ i e => e ++ [f i]) k l e = e ++ l.map f := by
  induction l generalizing k e with
  | nil => simp [eachPlace]
  | cons i l ih => rw [eachPlace, ih, append_assoc, map_cons, singleton_append]

end Ring

end MacRlcSplit.Lib
