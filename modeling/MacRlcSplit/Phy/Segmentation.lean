-- The segmentation of a transport block into code blocks
-- (`lte_segmentation.c`), and the reassembly of the decoders.
import MacRlcSplit.Phy.Crc
import MacRlcSplit.Lib.Store

namespace MacRlcSplit.Phy

open Lib Function List Option

/-! ## The source -/

def MAX_NUM_DLSCH_SEGMENTS : Nat := 16

/-- What `lte_segmentation` returns through its pointers. -/
structure Segments where
  C : Nat
  Cplus : Nat
  Cminus : Nat
  Kplus : Nat
  Kminus : Nat
  F : Nat
deriving DecidableEq, Repr

def blockCrc (B : Nat) : Nat := if B ≤ 6144 then 0 else 24

def blockCount (B : Nat) : Nat :=
  if B ≤ 6144 then 1
  else if (6144 - 24) * (B / (6144 - 24)) < B then B / (6144 - 24) + 1
  else B / (6144 - 24)

def Bprime (B : Nat) : Nat := if B ≤ 6144 then B else B + blockCount B * 24

/-- `x` without its lowest bits, and a step more where this is less than `x`. -/
def roundUp (step x : Nat) : Nat := if x / step * step <
    x then x / step * step + step else x / step * step

/-- `*Kplus` and `*Kminus` for `Bprime_by_C`. None for an illegal codeword size. -/
def blockSizes (Bprime_by_C : Nat) : Option (Nat × Nat) :=
  if Bprime_by_C ≤ 40 then some (40, 0)
  else if Bprime_by_C ≤ 512 then some (Bprime_by_C / 8 * 8, Bprime_by_C - 8)
  else if Bprime_by_C ≤ 1024 then some (roundUp 16 Bprime_by_C, roundUp 16 Bprime_by_C - 16)
  else if Bprime_by_C ≤ 2048 then some (roundUp 32 Bprime_by_C, roundUp 32 Bprime_by_C - 32)
  else if Bprime_by_C ≤ 6144 then some (roundUp 64 Bprime_by_C, roundUp 64 Bprime_by_C - 64)
  else none

def sub32 (a b : Nat) : Nat := (a + 2 ^ 32 - b) % 2 ^ 32

/-- The first part of `lte_segmentation`, without the buffers. None where it returns -1. -/
def segments (B : Nat) : Option Segments :=
  if blockCount B > MAX_NUM_DLSCH_SEGMENTS then none
  else
    (blockSizes (Bprime B / blockCount B)).map fun (Kplus, Kminus) =>
      let C := blockCount B
      let Kminus := if C = 1 then 0 else Kminus
      let Cminus := if C = 1 then 0 else sub32 (C * Kplus) (Bprime B) / (Kplus - Kminus)
      let Cplus := if C = 1 then C else sub32 C Cminus
      { C, Cplus, Cminus, Kplus, Kminus, F := sub32 (Cplus * Kplus + Cminus * Kminus) (Bprime B) }

def Segments.Kr (seg : Segments) (r : Nat) : Nat := if r < seg.Cminus then seg.Kminus else seg.Kplus

/-- The variables of the loop over the blocks. -/
structure Cut where
  output_buffers : Nat → Nat → UInt8
  k : Nat
  s : Nat

/-- `output_buffers[r]` after its turn. -/
def cutRow (input_buffer : Nat → UInt8) (seg : Segments) (L r k s : Nat)
    (row : Nat → UInt8) : Nat → UInt8 :=
  let row := store row ((List.range ((seg.Kr r - L) / 8 - k)).map fun i =>
    (k + i, input_buffer (s + i)))
  if seg.C > 1 then
    let crc := crc24b row (seg.Kr r - 24) >>> 8
    store row [((seg.Kr r - 24) / 8, crcOctet crc 2), (1 + (seg.Kr r - 24) / 8, crcOctet crc 1),
      (2 + (seg.Kr r - 24) / 8, crcOctet crc 0)]
  else row

/-- The turn of block `r`. -/
def cutBlock (input_buffer : Nat → UInt8) (seg : Segments) (L : Nat) (c : Cut) (r : Nat) : Cut where
  output_buffers :=
    update c.output_buffers r (cutRow input_buffer seg L r c.k c.s (c.output_buffers r))
  k := 0
  s := c.s + ((seg.Kr r - L) / 8 - c.k)

/-- `lte_segmentation`: the parameters and the buffers. None where it returns -1. -/
def lteSegmentation (input_buffer : Nat → UInt8) (output_buffers : Nat → Nat → UInt8) (B : Nat) :
    Option (Segments × (Nat → Nat → UInt8)) :=
  (segments B).map fun seg =>
    let filled :=
      update output_buffers 0 (store (output_buffers 0) ((List.range (seg.F / 8)).map (·, 0)))
    (seg, ((List.range seg.C).foldl (cutBlock input_buffer seg (blockCrc B)) ⟨filled, seg.F / 8,
      0⟩).output_buffers)

/-- The bytes that `dlsch_decoding` and `ulsch_decoding_data` copy to `b`. -/
def reassembly (seg : Segments) (c : Nat → Nat → UInt8) : List UInt8 :=
  (List.range seg.C).flatMap fun r =>
    let Kr_bytes := seg.Kr r / 8
    let crc := if seg.C > 1 then 3 else 0
    if r = 0 then (List.range (Kr_bytes - seg.F / 8 - crc)).map fun i => c 0 (seg.F / 8 + i)
    else (List.range (Kr_bytes - crc)).map (c r)

/-! ## The sizes -/

def TurboSize (K : Nat) : Prop :=
  40 ≤ K ∧ K ≤ 512 ∧ 8 ∣ K ∨ 512 ≤ K ∧ K ≤ 1024 ∧ 16 ∣ K ∨ 1024 ≤ K ∧ K ≤ 2048 ∧ 32 ∣ K ∨ 2048 ≤ K ∧
  K ≤ 6144 ∧ 64 ∣ K

/-- `Bprime / C` is cut to a turbo size, which is then too small. -/
def CutShort (B : Nat) : Prop := 6144 < B ∧ 64 ∣ Bprime B / blockCount B ∧
    Bprime B % blockCount B ≠ 0

instance : DecidablePred CutShort := fun B =>
  inferInstanceAs (Decidable (6144 < B ∧ 64 ∣ Bprime B / blockCount B ∧
    Bprime B % blockCount B ≠ 0))

/-- Parameters that account for every bit of the block. -/
structure Segments.Exact (seg : Segments) (B : Nat) : Prop where
  C : seg.C = blockCount B
  sum : seg.Cplus + seg.Cminus = seg.C
  size : ∀ r < seg.C, TurboSize (seg.Kr r)
  bits : seg.Cplus * seg.Kplus + seg.Cminus * seg.Kminus = Bprime B + seg.F
  filler : seg.F < 64
  room : seg.F + blockCrc B ≤ seg.Kr 0

variable {B : Nat} {seg : Segments}

theorem sub32_of_le {a b : Nat} (hle : b ≤ a) (hlt : a < 2 ^ 32) : sub32 a b = a - b := by
  unfold sub32
  omega

theorem roundUp_64 (x : Nat) : x ≤ roundUp 64 x ∧ roundUp 64 x < x + 64 ∧ 64 ∣ roundUp 64 x := by
  unfold roundUp
  split <;> omega

theorem segments_small (h8 : 8 ∣ B) (hpos : 0 < B) (hsmall : B ≤ 6144)
    (h : segments B = some seg) : seg.Exact B := by
  have hC : blockCount B = 1 := if_pos hsmall
  have hBprime : Bprime B = B := if_pos hsmall
  have hL : blockCrc B = 0 := if_pos hsmall
  rw [segments, hC, if_neg (by decide), hBprime, map_eq_some_iff] at h
  obtain ⟨⟨Kplus, Kminus⟩, hsizes, rfl⟩ := h
  have hK : B ≤ Kplus ∧ Kplus - B < 64 ∧ TurboSize Kplus := by
    unfold blockSizes roundUp at hsizes
    unfold TurboSize
    split_ifs at hsizes <;> cases hsizes <;> omega
  obtain ⟨hle, hF, hsize⟩ := hK
  have hlt : 1 * Kplus + 0 * 0 < 2 ^ 32 := by
    omega
  have hF' : sub32 (1 * Kplus + 0 * 0) B = Kplus - B := by
    rw [sub32_of_le (by omega) hlt]
    omega
  exact {
    C := hC.symm
    sum := rfl
    size := fun r _ => hsize
    bits := by
      change 1 * Kplus + 0 * 0 = Bprime B + sub32 (1 * Kplus + 0 * 0) B
      omega
    filler := by
      change sub32 (1 * Kplus + 0 * 0) B < 64
      omega
    room := by
      change sub32 (1 * Kplus + 0 * 0) B + blockCrc B ≤ Kplus
      omega }

/-- Blocks of two sizes share the bits, and less than the step between the sizes is left. -/
theorem shares_exact {C K Bp : Nat} (hle : Bp ≤ C * K) (hlt : C * K < Bp + 64 * C) (hK : 64 ≤ K)
    (hC : C < 2 ^ 32) (hCK : C * K < 2 ^ 32) :
    sub32 C (sub32 (C * K) Bp / 64) + sub32 (C * K) Bp / 64 = C ∧
      sub32 C (sub32 (C * K) Bp / 64) * K + sub32 (C * K) Bp / 64 * (K - 64) =
        Bp + (C * K - Bp) % 64 := by
  rw [sub32_of_le hle hCK]
  obtain ⟨Cminus, hCminus⟩ : ∃ Cminus, (C * K - Bp) / 64 = Cminus := ⟨_, rfl⟩
  have hfew : Cminus ≤ C := by omega
  have hshare : Cminus * K ≤ C * K := Nat.mul_le_mul_right K hfew
  have hstep : Cminus * 64 ≤ Cminus * K := Nat.mul_le_mul_left Cminus hK
  rw [hCminus, sub32_of_le hfew hC, Nat.sub_mul, Nat.mul_sub]
  omega

/-- Two to sixteen blocks of more than 3000 bits each. -/
theorem blockCount_bounds (hlarge : 6144 < B) (hmax : ¬ blockCount B > MAX_NUM_DLSCH_SEGMENTS) :
    2 ≤ blockCount B ∧ blockCount B ≤ 16 ∧ 3084 ≤ Bprime B / blockCount B ∧
    Bprime B / blockCount B ≤ 6144 := by
  have hBprime : Bprime B = B + blockCount B * 24 := if_neg (by omega)
  have hbounds : 2 ≤ blockCount B ∧ blockCount B ≤ 16 ∧ B ≤ 6120 * blockCount B ∧
      6120 * (blockCount B - 1) < B := by
    unfold MAX_NUM_DLSCH_SEGMENTS at hmax
    unfold blockCount at hmax ⊢
    split_ifs at hmax ⊢ <;> omega
  refine ⟨hbounds.1, hbounds.2.1, (Nat.le_div_iff_mul_le (by omega)).2 (by omega),
    Nat.div_le_of_le_mul (by omega)⟩

/-- The parameters of more than one block, `K` and `K - 64` bits long. -/
theorem segments_split (hlarge : 6144 < B) (h : segments B = some seg) :
    (2 ≤ blockCount B ∧ blockCount B ≤ 16 ∧ 3084 ≤ Bprime B / blockCount B ∧
      Bprime B / blockCount B ≤ 6144) ∧
      ∃ K, K = roundUp 64 (Bprime B / blockCount B) ∧ seg.C = blockCount B ∧ seg.Kplus = K ∧
        seg.Kminus = K - 64 ∧ seg.Cminus = sub32 (blockCount B * K) (Bprime B) / 64 ∧
        seg.Cplus = sub32 (blockCount B) seg.Cminus ∧
        seg.F = sub32 (seg.Cplus * K + seg.Cminus * (K - 64)) (Bprime B) := by
  unfold segments at h
  split at h
  · cases h
  next hmax =>
  have hbounds := blockCount_bounds hlarge hmax
  obtain ⟨hge, hlt, h64⟩ := roundUp_64 (Bprime B / blockCount B)
  have hsizes : blockSizes (Bprime B / blockCount B) =
      some (roundUp 64 (Bprime B / blockCount B), roundUp 64 (Bprime B / blockCount B) - 64) := by
    unfold blockSizes
    rw [if_neg (by omega), if_neg (by omega), if_neg (by omega), if_neg (by omega),
      if_pos (by omega)]
  generalize roundUp 64 (Bprime B / blockCount B) = K at *
  have hone : blockCount B ≠ 1 := by omega
  have hstep : K - (K - 64) = 64 := by omega
  rw [hsizes] at h
  simp only [map_some, some.injEq, if_neg hone, hstep] at h
  subst h
  exact ⟨hbounds, K, rfl, rfl, rfl, rfl, rfl, rfl, rfl⟩

theorem segments_large (hlarge : 6144 < B) (hcut : ¬ CutShort B)
    (h : segments B = some seg) : seg.Exact B := by
  have hL : blockCrc B = 24 := if_neg (by omega)
  obtain ⟨hbounds, K, hK, hC, hKplus, hKminus, hCminus, hCplus, hF⟩ := segments_split hlarge h
  obtain ⟨hge, hlt, h64⟩ := roundUp_64 (Bprime B / blockCount B)
  rw [← hK] at hge hlt h64
  unfold CutShort at hcut
  have hdiv := Nat.div_add_mod (Bprime B) (blockCount B)
  have hmod := Nat.mod_lt (Bprime B) (show blockCount B > 0 by omega)
  generalize hcount : blockCount B = C at *
  generalize hbits : Bprime B = Bp at *
  generalize Bp / C = x at *
  -- where the floor of `Bprime / C` is no turbo size, there is room for the remainder
  have hroom : Bp ≤ C * K := by
    obtain rfl | hne : x = K ∨ x + 1 ≤ K := by omega
    · omega
    · have := Nat.mul_le_mul_left C hne
      rw [mul_add] at this
      omega
  have hover : C * K < Bp + 64 * C := by
    have := Nat.mul_le_mul_left C (show K ≤ x + 63 by omega)
    rw [mul_add] at this
    omega
  have hCK : C * K ≤ 16 * 6208 := Nat.mul_le_mul hbounds.2.1 (by omega)
  obtain ⟨hsum, hshares⟩ := shares_exact hroom hover (by omega) (by omega) (by omega)
  rw [← hCminus, ← hCplus] at hsum hshares
  have hF' : seg.F = (C * K - Bp) % 64 := by
    rw [hF, sub32_of_le (by omega) (by omega)]
    omega
  have hKr (r : Nat) : seg.Kr r = K - 64 ∨ seg.Kr r = K := by
    unfold Segments.Kr
    split
    · exact .inl hKminus
    · exact .inr hKplus
  exact {
    C := by rw [hC, hcount]
    sum := by rw [hC, hsum]
    size := by
      intro r _
      unfold TurboSize
      have := hKr r
      omega
    bits := by
      rw [hKplus, hKminus, hF', hbits, hshares]
    filler := by omega
    room := by
      have := hKr 0
      omega }

/-- Blocks that are too small: the unsigned difference wraps, and so does the number of blocks. -/
theorem segments_cutShort (hcut : CutShort B)
    (h : segments B = some seg) : seg.Cplus + seg.Cminus ≠ seg.C := by
  obtain ⟨hlarge, hdvd, hrest⟩ := hcut
  obtain ⟨hbounds, K, hK, hC, -, -, hCminus, hCplus, -⟩ := segments_split hlarge h
  have hdiv := Nat.div_add_mod (Bprime B) (blockCount B)
  have hmod := Nat.mod_lt (Bprime B) (show blockCount B > 0 by omega)
  have hfloor : K = Bprime B / blockCount B := by
    rw [hK, roundUp]
    split <;> omega
  rw [hC, hCplus, hCminus, hfloor]
  have hprod : blockCount B * (Bprime B / blockCount B) ≤ 16 * 6144 :=
    Nat.mul_le_mul hbounds.2.1 hbounds.2.2.2
  unfold sub32
  omega

theorem segments_exact (h8 : 8 ∣ B) (hpos : 0 < B) (hcut : ¬ CutShort B)
    (h : segments B = some seg) : seg.Exact B := by
  rcases lt_or_ge 6144 B with hlarge | hsmall
  · exact segments_large hlarge hcut h
  · exact segments_small h8 hpos hsmall h

/-! ## The bytes -/

/-- The place in block `r` of its first byte from the input. -/
def Segments.lead (seg : Segments) (r : Nat) : Nat := if r = 0 then seg.F / 8 else 0

/-- The bytes of the input in block `r`. -/
def Segments.share (seg : Segments) (L r : Nat) : Nat := (seg.Kr r - L) / 8 - seg.lead r

/-- The bytes of the input before block `r`. -/
def Segments.start (seg : Segments) (L r : Nat) : Nat := ((List.range r).map (seg.share L)).sum

theorem Segments.start_succ (seg : Segments) (L r : Nat) :
    seg.start L (r + 1) = seg.start L r + seg.share L r := by
  rw [start, range_succ, map_append, sum_append]
  rfl

variable {input : Nat → UInt8} {L : Nat}

/-- The first `n` code blocks are cut, each from where the one before it ends. -/
theorem cut_run (out : Nat → Nat → UInt8) (n : Nat) :
    ((List.range n).foldl (cutBlock input seg L) ⟨out, seg.lead 0, 0⟩).k = seg.lead n ∧
      ((List.range n).foldl (cutBlock input seg L) ⟨out, seg.lead 0, 0⟩).s = seg.start L n ∧
      ∀ r, ((List.range n).foldl (cutBlock input seg L) ⟨out, seg.lead 0, 0⟩).output_buffers r =
        if r < n then cutRow input seg L r (seg.lead r) (seg.start L r) (out r) else out r := by
  induction n with
  | zero => exact ⟨rfl, rfl, fun r => rfl⟩
  | succ n ih =>
    obtain ⟨hk, hs, hrows⟩ := ih
    rw [range_succ, foldl_append, foldl_cons, foldl_nil, cutBlock, hk, hs, hrows n,
      if_neg (lt_irrefl n), seg.start_succ]
    refine ⟨(if_neg (Nat.succ_ne_zero n)).symm, rfl, fun r => ?_⟩
    dsimp only
    by_cases hr : r = n
    · subst hr
      rw [update_self, if_pos (Nat.lt_succ_self r)]
    · have hiff : r < n + 1 ↔ r < n := by omega
      rw [update_of_ne hr, hrows r]
      simp only [hiff]

theorem mem_copies {f : Nat → UInt8} {n k : Nat} {p : Nat × UInt8} :
    p ∈ (List.range n).map (fun i => (k + i, f i)) ↔ ∃ i < n, p = (k + i, f i) := by
  simp only [List.mem_map, mem_range, eq_comm]

theorem cutRow_data {r k s i : Nat} (row : Nat → UInt8) (hL : seg.C > 1 → L = 24)
    (hi : i < (seg.Kr r - L) / 8 - k) : cutRow input seg L r k s row (k + i) = input (s + i) := by
  have hdata : store row ((List.range ((seg.Kr r - L) / 8 - k)).map fun i =>
      (k + i, input (s + i))) (k + i) = input (s + i) := by
    refine store_of_mem (mem_copies.2 ⟨i, hi, rfl⟩) ?_
    intro p hp heq
    obtain ⟨j, -, rfl⟩ := mem_copies.1 hp
    obtain rfl : j = i := Nat.add_left_cancel heq
    rfl
  unfold cutRow
  split
  · next hC =>
    rw [store_of_not_mem, hdata]
    intro p hp
    simp only [mem_cons, not_mem_nil, or_false] at hp
    obtain rfl | rfl | rfl := hp <;> dsimp only <;> omega
  · exact hdata

theorem cutRow_congr {input' : Nat → UInt8} {r k s : Nat}
    (h : ∀ i < (seg.Kr r - L) / 8 - k, input (s + i) = input' (s + i)) (row : Nat → UInt8) :
    cutRow input seg L r k s row = cutRow input' seg L r k s row := by
  have hcopies : ((List.range ((seg.Kr r - L) / 8 - k)).map fun i => (k + i, input (s + i))) =
      (List.range ((seg.Kr r - L) / 8 - k)).map fun i => (k + i, input' (s + i)) :=
    map_congr_left fun i hi => by rw [h i (mem_range.1 hi)]
  unfold cutRow
  rw [hcopies]

theorem cutRow_checked {r k s : Nat} (row : Nat → UInt8) (hC : seg.C > 1) (h8 : 8 ∣ seg.Kr r)
    (h24 : 24 ≤ seg.Kr r) :
    crcbit ((List.range (seg.Kr r / 8)).map (cutRow input seg L r k s row)) poly24b = 0#32 := by
  have hbytes : seg.Kr r / 8 = (seg.Kr r - 24) / 8 + 3 := by omega
  unfold cutRow
  rw [if_pos hC]
  generalize store row _ = row'
  have hcrc := crc24_octets poly24b row' (show 8 ∣ seg.Kr r - 24 by omega)
  rw [hbytes]
  generalize (seg.Kr r - 24) / 8 = n at *
  have hrange : List.range (n + 3) = List.range n ++ [n, 1 + n, 2 + n] := by
    rw [range_add, add_comm 1 n, add_comm 2 n]
    rfl
  have hkept : (List.range n).map (store row' [(n, crcOctet (crc24b row' (seg.Kr r - 24) >>> 8) 2),
      (1 + n, crcOctet (crc24b row' (seg.Kr r - 24) >>> 8) 1),
      (2 + n, crcOctet (crc24b row' (seg.Kr r - 24) >>> 8) 0)]) = (List.range n).map row' := by
    refine map_congr_left fun i hi => store_of_not_mem ?_
    have := mem_range.1 hi
    intro p hp
    simp only [mem_cons, not_mem_nil, or_false] at hp
    obtain rfl | rfl | rfl := hp <;> dsimp only <;> omega
  rw [hrange, map_append, hkept]
  have h1 : 1 + n ≠ n := by omega
  have h2 : 2 + n ≠ n := by omega
  have h21 : 2 + n ≠ 1 + n := by omega
  simp only [map_cons, map_nil, store, foldl_cons, foldl_nil, update_self,
    update_of_ne h1.symm, update_of_ne h2.symm, update_of_ne h21.symm]
  exact crcbit_checked (by decide) _ (by rw [crc24b, hcrc])

theorem Segments.Exact.L_eq (exact : seg.Exact B) : (seg.C > 1 → blockCrc B = 24) ∧
    (¬ seg.C > 1 → blockCrc B = 0) := by
  rw [exact.C]
  unfold blockCrc blockCount
  split_ifs <;> omega

theorem TurboSize.bytes {K : Nat} (h : TurboSize K) : 8 ∣ K ∧ 40 ≤ K ∧ K ≤ 6144 := by
  unfold TurboSize at h
  omega

theorem Bprime_eq (B : Nat) : Bprime B = B + blockCount B * blockCrc B := by
  unfold Bprime blockCrc
  split
  · rfl
  · rfl

theorem Segments.sum_Kr {n : Nat}
    (hKr : ∀ r < n + 1, seg.Kr r = 8 * (seg.share L r + seg.lead r) + L) :
    ((List.range (n + 1)).map seg.Kr).sum = 8 * (seg.start L (n + 1) + seg.F / 8) +
      (n + 1) * L := by
  induction n with
  | zero =>
    have hstart : seg.start L 1 = seg.share L 0 := Nat.add_zero _
    rw [range_one, map_singleton, hKr 0 (by omega), Nat.one_mul]
    rfl
  | succ n ih =>
    have hlead : seg.lead (n + 1) = 0 := if_neg (Nat.succ_ne_zero n)
    rw [range_succ, map_append, sum_append, ih fun r hr => hKr r (by omega), map_singleton,
      sum_singleton, hKr (n + 1) (by omega), seg.start_succ L (n + 1), Nat.succ_mul (n + 1) L]
    omega

theorem Segments.Exact.start_all (exact : seg.Exact B)
    (h8 : 8 ∣ B) : seg.start (blockCrc B) seg.C = B / 8 := by
  have hpos : 0 < seg.C := by
    rw [exact.C]
    unfold blockCount
    split_ifs <;> omega
  have hKr : ∀ r < seg.C, seg.Kr r = 8 * (seg.share (blockCrc B) r + seg.lead r) + blockCrc B := by
    intro r hr
    have hsize := (exact.size r hr).bytes
    have hL := exact.L_eq
    have hroom := exact.room
    unfold share lead
    split
    · next hzero =>
      subst hzero
      omega
    · omega
  obtain ⟨n, hn⟩ : ∃ n, seg.C = n + 1 := ⟨seg.C - 1, by omega⟩
  have hall := sum_Kr (hn ▸ hKr)
  have hsizes : ((List.range seg.C).map seg.Kr).sum =
      seg.Cminus * seg.Kminus + seg.Cplus * seg.Kplus := by
    have hsum := exact.sum
    have hmin : min seg.C seg.Cminus = seg.Cminus := by omega
    have hplus : seg.C - seg.Cminus = seg.Cplus := by omega
    have hite := sum_range_ite seg.Cminus seg.Kminus seg.Kplus seg.C
    rw [hmin, hplus] at hite
    exact hite
  have hbits := exact.bits
  rw [Bprime_eq, ← exact.C] at hbits
  rw [← hn] at hall
  omega

/-- The decoders take the bytes of the input out of every block. -/
theorem Segments.Exact.reassembles (exact : seg.Exact B) (h8 : 8 ∣ B) {c : Nat → Nat → UInt8}
    (hdata : ∀ r < seg.C, ∀ i < seg.share (blockCrc B) r,
      c r (seg.lead r + i) = input (seg.start (blockCrc B) r + i)) :
    reassembly seg c = (List.range (B / 8)).map input := by
  rw [← exact.start_all h8, start, ← flatMap_range_sum]
  refine congrArg flatten (map_congr_left fun r hr => ?_)
  have hr := mem_range.1 hr
  have hblock : (List.range (seg.share (blockCrc B) r)).map (fun i => c r (seg.lead r + i)) =
      (List.range (seg.share (blockCrc B) r)).map fun i => input (seg.start (blockCrc B) r + i) :=
    map_congr_left fun i hi => hdata r hr i (mem_range.1 hi)
  refine Eq.trans ?_ hblock
  have hL := exact.L_eq
  have hcrc : (seg.Kr r - blockCrc B) / 8 = seg.Kr r / 8 - if seg.C > 1 then 3 else 0 := by
    split <;> omega
  rw [share, lead, hcrc]
  dsimp only
  split
  · next hzero =>
    subst hzero
    rw [Nat.sub_right_comm]
  · simp only [zero_add, Nat.sub_zero]

/-- What the segmentation of `B` bits into `out` is to be. -/
structure Segmented (B : Nat) (input : Nat → UInt8) (seg : Segments)
    (out : Nat → Nat → UInt8) : Prop where
  sum : seg.Cplus + seg.Cminus = seg.C
  size : ∀ r < seg.C, TurboSize (seg.Kr r)
  bits : seg.Cplus * seg.Kplus + seg.Cminus * seg.Kminus = Bprime B + seg.F
  filler : seg.F < 64
  Bprime : Bprime B = B + if seg.C > 1 then 24 * seg.C else 0
  checked : seg.C > 1 → ∀ r < seg.C, crcbit ((List.range (seg.Kr r / 8)).map (out r)) poly24b = 0#32
  /-- The decoders have the input back. -/
  back : reassembly seg out = (List.range (B / 8)).map input

theorem Segments.Exact.segmented (exact : seg.Exact B) (h8 : 8 ∣ B) {out : Nat → Nat → UInt8}
    (filled : Nat → Nat → UInt8)
    (hout : out = ((List.range seg.C).foldl (cutBlock input seg (blockCrc B)) ⟨filled, seg.F / 8,
      0⟩).output_buffers) :
    Segmented B input seg out := by
  obtain ⟨hlarge, hsmall⟩ := exact.L_eq
  have hrow {r : Nat} (hr : r < seg.C) :
      out r = cutRow input seg (blockCrc B) r (seg.lead r) (seg.start (blockCrc B) r)
        (filled r) := by
    rw [hout]
    exact ((cut_run filled seg.C).2.2 r).trans (if_pos hr)
  refine ⟨exact.sum, exact.size, exact.bits, exact.filler, ?_, fun hC r hr => ?_,
    exact.reassembles h8 fun r hr i hi => ?_⟩
  · rw [Bprime_eq, ← exact.C]
    split
    · next hC => rw [hlarge hC, mul_comm]
    · next hC => rw [hsmall hC, mul_zero]
  · have hsize := (exact.size r hr).bytes
    rw [hrow hr]
    refine cutRow_checked _ hC hsize.1 ?_
    omega
  · rw [hrow hr]
    exact cutRow_data _ hlarge hi

/-- Every transport block that is segmented is segmented as it should be, except where `Bprime / C`
is cut to a turbo size that is too small. -/
theorem a_transport_block_is_segmented (h8 : 8 ∣ B) (hpos : 0 < B) (input : Nat → UInt8)
    (output : Nat → Nat → UInt8) {out : Nat → Nat → UInt8}
    (h : lteSegmentation input output B = some (seg, out)) :
    Segmented B input seg out ↔ ¬ CutShort B := by
  obtain ⟨seg, hseg, heq⟩ := map_eq_some_iff.1 h
  obtain ⟨rfl, rfl⟩ := Prod.mk.inj heq
  constructor
  · intro segmented hcut
    exact segments_cutShort hcut hseg segmented.sum
  · intro hcut
    exact (segments_exact h8 hpos hcut hseg).segmented h8 _ rfl

/-- 6256 bits in a block of 3136 and one of 3200 bits, with 32 filler bits. -/
theorem two_blocks_are_segmented :
    ¬ CutShort 6256 ∧ ∃ out, lteSegmentation UInt8.ofNat (fun _ _ => 0) 6256 =
      some (⟨2, 1, 1, 3200, 3136, 32⟩, out) ∧
      reassembly ⟨2, 1, 1, 3200, 3136, 32⟩ out = (List.range 782).map UInt8.ofNat := by
  have hcut : ¬ CutShort 6256 := by decide +kernel
  obtain ⟨r, hr⟩ : ∃ r, lteSegmentation UInt8.ofNat (fun _ _ => 0) 6256 = some r ∧
      r.1 = ⟨2, 1, 1, 3200, 3136, 32⟩ := by
    exact ⟨_, rfl, rfl⟩
  obtain ⟨seg, out⟩ := r
  obtain ⟨hrun, rfl⟩ := hr
  exact ⟨hcut, out, hrun,
    ((a_transport_block_is_segmented (by decide) (by decide) _ _ hrun).2 hcut).back⟩

/-- 49328 bits: the blocks have room for 6086 of the 6166 bytes. -/
theorem a_transport_block_is_cut_short : ∃ seg, segments 49328 = some seg ∧ seg.C = 9 ∧
    seg.Cminus = 67108863 ∧
      ∀ input output, ∃ out, lteSegmentation input output 49328 = some (seg, out) ∧
        (reassembly seg out).length = 6086 ∧ reassembly seg out ≠
          (List.range (49328 / 8)).map input := by
  have hseg : segments 49328 = some ⟨9, 4227858442, 67108863, 5504, 5440, 56⟩ := by decide +kernel
  refine ⟨_, hseg, rfl, rfl, fun input output => ?_⟩
  have hlen (out : Nat → Nat → UInt8) :
      (reassembly ⟨9, 4227858442, 67108863, 5504, 5440, 56⟩ out).length = 6086 := by
    simp only [reassembly, length_flatMap, apply_ite List.length, length_map, length_range]
    decide +kernel
  refine ⟨_, by rw [lteSegmentation, hseg, map_some], hlen _, fun heq => ?_⟩
  have := congrArg List.length heq
  rw [hlen, length_map, length_range] at this
  cases this

end MacRlcSplit.Phy
