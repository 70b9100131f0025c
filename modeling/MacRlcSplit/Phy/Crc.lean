-- The checks of `crc_byte.c`: bit by bit, and byte by byte with the tables of
-- `crcTableInit`, also when the message ends inside a byte.
import MacRlcSplit.Lib.Crc
import Mathlib.Data.List.Induction

namespace MacRlcSplit.Phy

open Lib List

/-! ## The source -/

def poly24a : BitVec 32 := 0x864cfb00

def poly24b : BitVec 32 := 0x80006300

def poly16 : BitVec 32 := 0x10210000

def poly12 : BitVec 32 := 0x80F00000

def poly8 : BitVec 32 := 0x9B000000

/-- `(*inputptr++) << 24` -/
def highOctet (octet : UInt8) : BitVec 32 := octet.toBitVec.setWidth 32 <<< 24

/-- `crcbit` -/
def crcbit (inputptr : List UInt8) (poly : BitVec 32) : BitVec 32 :=
  inputptr.foldl (fun crc octet => crcBits poly 8 (highOctet octet) crc) 0#32

/-- The tables of `crcTableInit`. -/
def crcTable (poly : BitVec 32) (c : UInt8) : BitVec 32 := crcbit [c] poly

/-- The loop of `crc24a`, `crc24b`, `crc16` and `crc12`, which differ in the table. -/
def crcWith (table : UInt8 → BitVec 32) (inptr : Nat → UInt8) (bitlen : Nat) : BitVec 32 :=
  let octetlen := bitlen / 8
  let resbit := bitlen % 8
  let crc := (List.range octetlen).foldl
    (fun (crc : BitVec 32) i =>
      crc <<< 8 ^^^ table (inptr i ^^^ UInt8.ofBitVec ((crc >>> 24).setWidth 8))) 0#32
  if resbit > 0 then
    crc <<< resbit ^^^ table
      (UInt8.ofBitVec ((inptr octetlen).toBitVec >>> (8 - resbit)) ^^^ UInt8.ofBitVec
        ((crc >>> (32 - resbit)).setWidth 8))
  else crc

def crc24 (poly : BitVec 32) : (Nat → UInt8) → Nat → BitVec 32 := crcWith (crcTable poly)

def crc24a : (Nat → UInt8) → Nat → BitVec 32 := crc24 poly24a

def crc24b : (Nat → UInt8) → Nat → BitVec 32 := crc24 poly24b

/-- `crc16Table` and `crc12Table`. -/
def crc16Table (poly : BitVec 32) (c : UInt8) : BitVec 16 := (crcbit [c] poly >>> 16).setWidth 16

def crc8Table (c : UInt8) : BitVec 8 := (crcbit [c] poly8 >>> 24).setWidth 8

def crc16 : (Nat → UInt8) → Nat → BitVec 32 := crcWith fun c =>
    (crc16Table poly16 c).setWidth 32 <<< 16

def crc12 : (Nat → UInt8) → Nat → BitVec 32 := crcWith fun c =>
    (crc16Table poly12 c).setWidth 32 <<< 16

/-- `crc8`, which does not keep what is left of the register. -/
def crc8 (inptr : Nat → UInt8) (bitlen : Nat) : BitVec 32 :=
  let octetlen := bitlen / 8
  let resbit := bitlen % 8
  let crc := (List.range octetlen).foldl (fun (crc : BitVec 32) i =>
    (crc8Table (inptr i ^^^ UInt8.ofBitVec ((crc >>> 24).setWidth 8))).setWidth 32 <<< 24) 0#32
  if resbit > 0 then
    crc <<< resbit ^^^ (crc8Table (UInt8.ofBitVec ((inptr octetlen).toBitVec >>> (8 - resbit)) ^^^
      UInt8.ofBitVec ((crc >>> (32 - resbit)).setWidth 8))).setWidth 32 <<< 24
  else crc

/-- `((uint8_t*)&crc)[i]` -/
def crcOctet (crc : BitVec 32) (i : Nat) : UInt8 := UInt8.ofBitVec ((crc >>> (8 * i)).setWidth 8)

/-! ## The check of a message -/

variable {poly : BitVec 32}

theorem crcTable_step (crc : BitVec 32) (octet : UInt8) :
    crc <<< 8 ^^^ crcTable poly (octet ^^^ UInt8.ofBitVec ((crc >>> 24).setWidth 8)) =
      crcBits poly 8 (highOctet octet) crc :=
  crcWord_step (by decide) crc octet.toBitVec

theorem crc24_octets (poly : BitVec 32) (inptr : Nat → UInt8) {bitlen : Nat} (h : 8 ∣ bitlen) :
    crc24 poly inptr bitlen = crcbit ((List.range (bitlen / 8)).map inptr) poly := by
  have hres : ¬ bitlen % 8 > 0 := by omega
  unfold crc24 crcWith
  rw [if_neg hres, crcbit, foldl_map]
  simp only [crcTable_step]

theorem crcbit_append (l octets : List UInt8) (poly : BitVec 32) : crcbit (l ++ octets) poly =
      octets.foldl (fun crc octet => crcBits poly 8 (highOctet octet) crc) (crcbit l poly) :=
  foldl_append

theorem crcbit_shiftLeft {k : Nat} (hk : 8 ≤ k) (hpoly : poly <<< k = 0#32) (l : List UInt8) :
    crcbit l poly <<< k = 0#32 := by
  induction l using reverseRecOn with
  | nil => exact BitVec.zero_shiftLeft k
  | append_singleton l octet ih =>
    rw [crcbit_append]
    refine crcBits_shiftLeft hpoly ?_ ih
    rw [highOctet, ← BitVec.shiftLeft_add]
    exact BitVec.shiftLeft_eq_zero (by omega)

theorem crcbit_checked (hpoly : poly <<< 24 = 0#32) (l : List UInt8) {crc : BitVec 32}
    (hcrc : crc = crcbit l poly >>> 8) :
    crcbit (l ++ [crcOctet crc 2, crcOctet crc 1, crcOctet crc 0]) poly = 0#32 := by
  have hlow := crcbit_shiftLeft (by decide) hpoly l
  rw [crcbit_append]
  generalize crcbit l poly = full at hlow hcrc
  have hown (x : BitVec 32) (octet : UInt8) (h : octet.toBitVec = (x >>> 24).setWidth 8) :
      crcBits poly 8 (highOctet octet) x = x <<< 8 := by
    rw [highOctet, h]
    exact crcBits_own (by decide) x
  have h2 : (crcOctet crc 2).toBitVec = (full >>> 24).setWidth 8 := by
    rw [hcrc, crcOctet, ← BitVec.shiftRight_add]
  have h1 : (crcOctet crc 1).toBitVec = (full <<< 8 >>> 24).setWidth 8 := by
    rw [crcOctet]
    bv_omega
  have h0 : (crcOctet crc 0).toBitVec = (full <<< 8 <<< 8 >>> 24).setWidth 8 := by
    rw [crcOctet]
    bv_omega
  rw [foldl_cons, foldl_cons, foldl_cons, hown full _ h2, hown _ _ h1, hown _ _ h0,
    ← BitVec.shiftLeft_add, ← BitVec.shiftLeft_add]
  exact hlow

/-! ## The first bits of a message -/

/-- Bit `i` of the message, the first one in the MSB of its octet. -/
def messageBit (inptr : Nat → UInt8) (i : Nat) : Bool := (inptr (i / 8)).toBitVec.getMsbD (i % 8)

/-- The register of `crcbit` after the first `n` bits. -/
def crcSerial (poly : BitVec 32) (inptr : Nat → UInt8) : Nat → BitVec 32
  | 0 => 0#32
  | n + 1 =>
    let crc := crcSerial poly inptr n
    if (messageBit inptr n).xor crc.msb then crc <<< 1 ^^^ poly else crc <<< 1

variable (inptr : Nat → UInt8)

theorem crcBits_serial (m : Nat) {j k : Nat} (h : j + k ≤ 8) :
    crcBits poly k (highOctet (inptr m) <<< j) (crcSerial poly inptr (8 * m + j)) =
      crcSerial poly inptr (8 * m + (j + k)) := by
  induction k generalizing j with
  | zero => rfl
  | succ k ih =>
    have hbit : (highOctet (inptr m) <<< j).msb = messageBit inptr (8 * m + j) := by
      have hj : j < 8 := by omega
      have hdiv : (8 * m + j) / 8 = m := by omega
      have hmod : (8 * m + j) % 8 = j := by omega
      rw [messageBit, hdiv, hmod, highOctet, ← BitVec.shiftLeft_add, BitVec.msb_shiftLeft]
      simp [BitVec.getMsbD_setWidth]
    have hnext := ih (show j + 1 + k ≤ 8 by omega)
    rw [← add_assoc, crcSerial] at hnext
    rw [crcBits, BitVec.msb_xor, hbit, ← BitVec.shiftLeft_add, hnext]
    congr 1
    omega

theorem crcSerial_add (m : Nat) {k : Nat} (h : k ≤ 8) : crcSerial poly inptr (8 * m + k) =
    crcBits poly k (highOctet (inptr m)) (crcSerial poly inptr (8 * m)) := by
  have hbits := @crcBits_serial poly inptr m 0 k (by omega)
  rw [BitVec.shiftLeft_zero, add_zero, zero_add] at hbits
  exact hbits.symm

theorem crcTable_digit {r : Nat} (hr : r ≤ 8) (crc : BitVec 32) (octet : UInt8) :
    crc <<< r ^^^ crcTable poly
      (UInt8.ofBitVec (octet.toBitVec >>> (8 - r)) ^^^ UInt8.ofBitVec
        ((crc >>> (32 - r)).setWidth 8)) =
      crcBits poly r (highOctet octet) crc := by
  have hword : crcTable poly
      (UInt8.ofBitVec (octet.toBitVec >>> (8 - r)) ^^^ UInt8.ofBitVec
        ((crc >>> (32 - r)).setWidth 8)) =
      crcWord poly ((octet.toBitVec >>> (8 - r)).setWidth r ^^^ (crc >>> (32 - r)).setWidth r) := by
    rw [← crcWord_setWidth (m := 8) hr (by decide), BitVec.setWidth_xor, setWidth_high hr 8,
      setWidth_high (by omega) 8, BitVec.setWidth_eq]
    rfl
  rw [hword, crcWord_step (by omega)]
  apply crcBits_congr
  intro i hi
  rw [getMsbD_highDigit (by omega), show highOctet octet = highDigit 32 octet.toBitVec from rfl,
    getMsbD_highDigit (by decide), ← getMsbD_highDigit hr, getMsbD_highDigit_high hr _ hi]

theorem crc24_serial (n : Nat) : crc24 poly inptr n = crcSerial poly inptr n := by
  have hoctets (m : Nat) : (List.range m).foldl (fun crc i =>
      crcBits poly 8 (highOctet (inptr i)) crc) 0#32 = crcSerial poly inptr (8 * m) := by
    induction m with
    | zero => rfl
    | succ m ih =>
      rw [range_succ, foldl_append, ih, Nat.mul_succ, crcSerial_add inptr m (Nat.le_refl 8)]
      rfl
  unfold crc24 crcWith
  simp only [crcTable_step, hoctets]
  split
  · rw [crcTable_digit (by omega), ← crcSerial_add inptr (n / 8) (by omega), Nat.div_add_mod]
  · congr 1
    omega

/-! ## The narrow tables -/

theorem crcTable_kept {k : Nat} (hk : 8 ≤ k) (hle : k ≤ 32) (hpoly : poly <<< k = 0#32)
    (c : UInt8) : highDigit 32 ((crcTable poly c >>> (32 - k)).setWidth k) = crcTable poly c :=
  highDigit_kept hle (crcbit_shiftLeft hk hpoly [c])

theorem crc16_eq : crc16 = crc24 poly16 :=
  congrArg crcWith (funext (crcTable_kept (k := 16) (by decide) (by decide) (by decide)))

theorem crc12_eq : crc12 = crc24 poly12 :=
  congrArg crcWith (funext (crcTable_kept (k := 16) (by decide) (by decide) (by decide)))

theorem crc8_eq : crc8 = crc24 poly8 := by
  have htable (c : UInt8) : (crc8Table c).setWidth 32 <<< 24 = crcTable poly8 c :=
    crcTable_kept (k := 8) (by decide) (by decide) (by decide) c
  funext inptr bitlen
  let word (crc : BitVec 32) (i : Nat) :=
    crcTable poly8 (inptr i ^^^ UInt8.ofBitVec ((crc >>> 24).setWidth 8))
  have hoctets (m : Nat) : (List.range m).foldl (fun (crc : BitVec 32) i =>
      crc <<< 8 ^^^ word crc i) 0#32 =
      (List.range m).foldl word 0#32 ∧ (List.range m).foldl word 0#32 <<< 8 = 0#32 := by
    induction m with
    | zero => exact ⟨rfl, rfl⟩
    | succ m ih =>
      rw [range_succ, foldl_append, foldl_append, ih.1]
      simp only [foldl_cons, foldl_nil, ih.2, BitVec.zero_xor, true_and]
      exact crcbit_shiftLeft (by decide) (by decide) [_]
  unfold crc8 crc24 crcWith
  simp only [htable, word, (hoctets _).1]

/-! ## A message with its check -/

/-- The message of `n` octets, and behind it the octets of its check, the highest first. -/
def withCrc (n : Nat) (crc : BitVec 32) (i : Nat) : UInt8 :=
  if i < n then inptr i else UInt8.ofBitVec ((crc <<< (8 * (i - n)) >>> 24).setWidth 8)

theorem crc24_withCrc {w : Nat} (hw : 1 ≤ w) (hpoly : poly <<< (8 * w) = 0#32) (n : Nat) :
    crc24 poly (withCrc inptr n (crc24 poly inptr (8 * n))) (8 * (n + w)) = 0#32 := by
  generalize hcrc : crc24 poly inptr (8 * n) = crc
  have hmessage : ∀ m ≤ n, crcSerial poly (withCrc inptr n crc) (8 * m) =
      crcSerial poly inptr (8 * m) := by
    intro m hm
    induction m with
    | zero => rfl
    | succ m ih =>
      rw [Nat.mul_succ, crcSerial_add _ m (Nat.le_refl 8), crcSerial_add _ m (Nat.le_refl 8),
        ih (by omega), withCrc, if_pos (Nat.lt_of_succ_le hm)]
  have hcheck (i : Nat) : crcSerial poly (withCrc inptr n crc) (8 * (n + i)) = crc <<< (8 * i) := by
    induction i with
    | zero => rw [Nat.add_zero, hmessage n (Nat.le_refl n), ← crc24_serial, hcrc, Nat.mul_zero,
        BitVec.shiftLeft_zero]
    | succ i ih =>
      rw [← Nat.add_assoc, Nat.mul_succ, crcSerial_add _ _ (Nat.le_refl 8), ih, withCrc,
        if_neg (by omega), Nat.add_sub_cancel_left, Nat.mul_succ, BitVec.shiftLeft_add]
      exact crcBits_own (k := 8) (by decide) _
  rw [crc24_serial, hcheck, ← hcrc, crc24_octets poly inptr ⟨n, rfl⟩]
  exact crcbit_shiftLeft (by omega) hpoly _

/-- For every message and every number of its bits, the five functions give what the register of
`crcbit` has after these bits; and a message of whole octets with its check behind it has the check
0. -/
theorem the_tables_give_the_serial_check (n : Nat) :
    (crc24a inptr n = crcSerial poly24a inptr n ∧ crc24b inptr n = crcSerial poly24b inptr n ∧
      crc16 inptr n = crcSerial poly16 inptr n ∧ crc12 inptr n = crcSerial poly12 inptr n ∧
      crc8 inptr n = crcSerial poly8 inptr n) ∧
    crc24a (withCrc inptr n (crc24a inptr (8 * n))) (8 * (n + 3)) = 0#32 ∧
    crc24b (withCrc inptr n (crc24b inptr (8 * n))) (8 * (n + 3)) = 0#32 ∧
    crc16 (withCrc inptr n (crc16 inptr (8 * n))) (8 * (n + 2)) = 0#32 ∧
    crc8 (withCrc inptr n (crc8 inptr (8 * n))) (8 * (n + 1)) = 0#32 := by
  rw [crc16_eq, crc12_eq, crc8_eq]
  refine ⟨⟨?_, ?_, ?_, ?_, ?_⟩, ?_, ?_, ?_, ?_⟩
  iterate 5 exact crc24_serial inptr n
  all_goals exact crc24_withCrc inptr (by decide) (by decide) n

end MacRlcSplit.Phy
