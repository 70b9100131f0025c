-- The DCIs of a subframe on one carrier: `dci_alloc` with its two counters, the
-- CCEs that `allocate_CCEs` finds for them, and the test that the schedulers
-- make. A DCI keeps its place in the list if the common ones come first.
import MacRlcSplit.Lib.Run
import MacRlcSplit.Mac.Header

namespace MacRlcSplit.Mac

open Am Function List Option

/-! ## The list -/

def NUM_DCI_MAX : Nat := 32

inductive DciFormat where
  | format0 | format1 | format1A | format1B | format1C | format1D | format1E_2A_M10PRB
  | format2 | format2A | format2B | format2C | format2D | format3 | format3A | format4
deriving DecidableEq, Repr

/-- `DCI_ALLOC_t`. -/
structure DciAlloc where
  dci_length : Nat := 0
  /-- Of the aggregation level, the logarithm. -/
  L : Nat := 0
  firstCCE : Int := 0
  ra_flag : Bool := false
  rnti : Nat := 0
  format : DciFormat := .format0
  /-- Eight bytes. -/
  dci_pdu : Mem := fun _ => 0

/-- `DCI_PDU`. -/
structure DciPdu where
  Num_ue_spec_dci : Nat := 0
  Num_common_dci : Nat := 0
  num_pdcch_symbols : Nat := 0
  dci_alloc : Nat → DciAlloc := fun _ => {}

/-- The arguments with which a DCI is added. It has a place for eight bytes, and its CCEs are at
most eight. -/
structure Dci where
  pdu : List Byte
  rnti : Nat
  aggregation : Fin 4
  dci_size_bits : Nat
  dci_fmt : DciFormat
  ra_flag : Bool
  fits : pdu.length ≤ 8

/-- An entry is that of a DCI. -/
structure DciAlloc.Holds (x : DciAlloc) (d : Dci) : Prop where
  dci_pdu : x.dci_pdu.read 0 d.pdu.length = d.pdu
  dci_length : x.dci_length = d.dci_size_bits
  L : x.L = d.aggregation
  rnti : x.rnti = d.rnti
  format : x.format = d.dci_fmt
  ra_flag : x.ra_flag = d.ra_flag

namespace DciPdu

variable (p : DciPdu)

def write (i : Nat) (d : Dci) : Option DciPdu :=
  if i < NUM_DCI_MAX then
    some { p with
      dci_alloc := update p.dci_alloc i
        { p.dci_alloc i with
          dci_pdu := (p.dci_alloc i).dci_pdu.copy 0 d.pdu
          dci_length := d.dci_size_bits
          L := d.aggregation
          rnti := d.rnti
          format := d.dci_fmt
          ra_flag := d.ra_flag } }
  else none

def addCommonDci (d : Dci) : Option DciPdu :=
  (p.write p.Num_common_dci d).map fun p => { p with Num_common_dci := p.Num_common_dci + 1 }

def addUeSpecDci (d : Dci) : Option DciPdu :=
  (p.write (p.Num_common_dci + p.Num_ue_spec_dci) d).map fun p =>
    { p with Num_ue_spec_dci := p.Num_ue_spec_dci + 1 }

def entries : List (Nat × Nat) :=
  (List.range (p.Num_common_dci + p.Num_ue_spec_dci)).map fun i =>
    ((p.dci_alloc i).rnti, (p.dci_alloc i).L)

def clear : DciPdu := { p with Num_common_dci := 0, Num_ue_spec_dci := 0 }

end DciPdu

/-! ## CCEs -/

def CCE_TABLE_SIZE : Nat := 800

/-- `get_nquad`, a `uint16_t`. `Ncp` is set for the extended cyclic prefix. -/
def getNquad (N_RB_DL phich_resource : Nat) (Ncp : Bool) (mi num_pdcch_symbols : Nat) : Nat :=
  let Ngroup_PHICH := phich_resource * N_RB_DL / 48 + if phich_resource * N_RB_DL % 48 >
    0 then 1 else 0
  let Ngroup_PHICH := (if Ncp then 2 * Ngroup_PHICH else Ngroup_PHICH) * mi
  let nquad (Nreg : Nat) : Nat := (((Nreg : Int) - 4 - 3 * Ngroup_PHICH) % 2 ^ 16).toNat
  if num_pdcch_symbols > 0 ∧ num_pdcch_symbols < 4 then
    match N_RB_DL with
    | 6 => nquad (12 + (num_pdcch_symbols - 1) * 18)
    | 25 => nquad (50 + (num_pdcch_symbols - 1) * 75)
    | 50 => nquad (100 + (num_pdcch_symbols - 1) * 150)
    | 100 => nquad (200 + (num_pdcch_symbols - 1) * 300)
    | _ => 0
  else nquad 0

def getNcce (N_RB_DL phich_resource : Nat) (Ncp : Bool) (mi num_pdcch_symbols : Nat) : Nat :=
  getNquad N_RB_DL phich_resource Ncp mi num_pdcch_symbols / 9

/-- Other levels stop the process in the UE-specific search space. -/
def nbCandidates (common_dci : Bool) (L nCCE : Nat) : Option Nat :=
  if common_dci then some (min (if L = 4 then 4 else 2) (nCCE / L))
  else if L = 1 ∨ L = 2 then some 6
  else if L = 4 ∨ L = 8 then some 2
  else none

/-- `Yk`, before it is brought into the range of the CCEs. -/
def hashOf (rnti : Nat) : Nat → Nat
  | 0 => rnti * 39827 % 65537
  | subframe + 1 => hashOf rnti subframe * 39827 % 65537

/-- The first CCEs of the candidates, in the order in which they are tried. -/
def candidates (common_dci : Bool) (L nCCE rnti subframe : Nat) : Option (List Nat) :=
  (nbCandidates common_dci L nCCE).map fun nb_candidates =>
    if common_dci then (List.range nb_candidates).reverse.map fun m => m * L
    else (List.range nb_candidates).map fun m =>
      (hashOf rnti subframe % (nCCE / L) + m) % (nCCE / L) * L

/-- The first candidate whose CCEs are free. Beyond `CCE_table` nothing is known. -/
def firstFree (CCE_table : Nat → Bool) (L : Nat) : List Nat → Option (Option Nat)
  | [] => some none
  | cce :: rest =>
    if cce + L > CCE_TABLE_SIZE then none
    else if (List.range L).all fun l => !CCE_table (cce + l) then some (some cce)
    else firstFree CCE_table L rest

/-- `get_nCCE_offset`, none for -1. With `L` zero it divides by zero. -/
def getNcceOffset (CCE_table : Nat → Bool) (L nCCE : Nat) (common_dci : Bool)
    (rnti subframe : Nat) : Option (Option Nat) :=
  if L = 0 then none else (candidates common_dci L nCCE rnti subframe).bind (firstFree CCE_table L)

def mark (CCE_table : Nat → Bool) (cce L : Nat) : Nat → Bool :=
  fun k => CCE_table k || decide (cce ≤ k ∧ k < cce + L)

/-- `dump_CCE_table`: the table, the first CCE of the search space and the number of its CCEs, as
they are printed. With `L` zero or above `nCCE` it divides by zero, and other levels than 1, 2, 4
and 8 stop the process. -/
def dumpCceTable (CCE_table : Nat → Bool) (nCCE rnti subframe L : Nat) :
    Option (List Bool × Nat × Nat) :=
  if nCCE > CCE_TABLE_SIZE ∨ nCCE / L = 0 then none
  else (nbCandidates false L nCCE).map fun nb_candidates =>
    ((List.range nCCE).map CCE_table, hashOf rnti subframe % (nCCE / L) * L, nb_candidates * L)

/-- One round over the entries, from number `i` on: whether each has found CCEs, and the first CCEs
of those that have. -/
def allocateRound (num_pdcch_symbols nCCE_max subframe Num_common_dci : Nat) :
    List (Nat × Nat) → Nat → Nat → (Nat → Bool) → Option (Bool × List Nat)
  | [], _, _, _ => some (true, [])
  | x :: rest, i, nCCE, CCE_table =>
    if nCCE + 2 ^ x.2 > nCCE_max then some (false, [])
    else
      -- `L` is an `unsigned char`
      (getNcceOffset CCE_table (2 ^ x.2 % 256) nCCE_max (decide (i < Num_common_dci)) x.1
        subframe).bind fun
        | none =>
          -- the RNTI and the subframe are exchanged, and the logarithm stands for the level
          if num_pdcch_symbols = 3 then (dumpCceTable CCE_table nCCE_max subframe x.1 x.2).map
            fun _ => (false, [])
          else some (false, [])
        | some fCCE =>
          (allocateRound num_pdcch_symbols nCCE_max subframe Num_common_dci rest (i + 1)
            (nCCE + 2 ^ x.2) (mark CCE_table fCCE (2 ^ x.2 % 256))).map fun r => (r.1, fCCE :: r.2)

namespace DciPdu

section Allocate

variable (get_nCCE_max : Nat → Nat) (subframe : Nat)

/-- The first entries are given their CCEs. -/
def place (p : DciPdu) (firsts : List Nat) : DciPdu :=
  { p with
    dci_alloc := fun i =>
      match firsts[i]? with
      | some fCCE => { p.dci_alloc i with firstCCE := fCCE }
      | none => p.dci_alloc i }

/-- A round with a number of symbols, and what it leaves behind. -/
def attempt (test_only : Bool) (num_pdcch_symbols : Nat) (p : DciPdu) : Option (Bool × DciPdu) :=
  (allocateRound num_pdcch_symbols (get_nCCE_max num_pdcch_symbols) subframe p.Num_common_dci
    p.entries 0 0
    fun _ => false).map fun r =>
      (r.1, { if test_only then p else p.place r.2 with num_pdcch_symbols := num_pdcch_symbols })

/-- The rounds from `try_again` on, when so many can follow. The last one has three symbols. -/
def tryAgain (test_only : Bool) (p : DciPdu) : Nat → Option (Bool × DciPdu)
  | 0 => p.attempt get_nCCE_max subframe test_only 3
  | more + 1 =>
    (p.attempt get_nCCE_max subframe test_only (2 - more)).bind fun r =>
      if r.1 then some r else tryAgain test_only r.2 more

/-- `allocate_CCEs`, false for -1. -/
def allocateCces (test_only : Bool) (p : DciPdu) : Option (Bool × DciPdu) :=
  p.tryAgain get_nCCE_max subframe test_only 2

/-- The list with a trial entry at its end. -/
def trial (common_flag : Bool) (aggregation rnti : Nat) (p : DciPdu) : DciPdu :=
  let n := p.Num_common_dci + p.Num_ue_spec_dci
  { p with
    dci_alloc := update p.dci_alloc n { p.dci_alloc n with rnti := rnti, L := aggregation }
    Num_common_dci := if common_flag then p.Num_common_dci + 1 else p.Num_common_dci
    Num_ue_spec_dci := if common_flag then p.Num_ue_spec_dci else p.Num_ue_spec_dci + 1 }

def cceAllocationInfeasible (common_flag : Bool) (aggregation : Fin 4) (rnti : Nat) (p : DciPdu) :
    Option (Bool × DciPdu) :=
  if p.Num_common_dci + p.Num_ue_spec_dci < NUM_DCI_MAX then
    (allocateCces get_nCCE_max subframe true (p.trial common_flag aggregation rnti)).map fun r =>
      (!r.1, { r.2 with Num_common_dci := p.Num_common_dci, Num_ue_spec_dci := p.Num_ue_spec_dci })
  else none

end Allocate

end DciPdu

/-! ## Calls -/

/-- What the schedulers do with the list. -/
inductive DciCall where
  | addCommonDci (d : Dci)
  | addUeSpecDci (d : Dci)
  | cceAllocationInfeasible (common_flag : Bool) (aggregation : Fin 4) (rnti : Nat)

namespace DciPdu

variable (get_nCCE_max : Nat → Nat) (subframe : Nat)

def call (p : DciPdu) : DciCall → Option DciPdu
  | .addCommonDci d => p.addCommonDci d
  | .addUeSpecDci d => p.addUeSpecDci d
  | .cceAllocationInfeasible common_flag aggregation rnti =>
    (p.cceAllocationInfeasible get_nCCE_max subframe common_flag aggregation rnti).map Prod.snd

/-- `eNB_dlsch_ulsch_scheduler` before it allocates the CCEs: the PDCCH orders are added, the
counters are cleared, and the schedulers are called. -/
def schedule (orders : List Dci) (calls : List DciCall) (p : DciPdu) : Option DciPdu :=
  (orders.foldlM addUeSpecDci p).bind fun p => Lib.run (call get_nCCE_max subframe) p.clear calls

end DciPdu

/-- The logarithm of the level of a call. -/
def DciCall.aggregation : DciCall → Fin 4
  | .addCommonDci d => d.aggregation
  | .addUeSpecDci d => d.aggregation
  | .cceAllocationInfeasible _ aggregation _ => aggregation

def commonDcis : List DciCall → List Dci
  | [] => []
  | .addCommonDci d :: calls => d :: commonDcis calls
  | _ :: calls => commonDcis calls

def ueSpecDcis : List DciCall → List Dci
  | [] => []
  | .addUeSpecDci d :: calls => d :: ueSpecDcis calls
  | _ :: calls => ueSpecDcis calls

theorem commonDcis_cons (c : DciCall) (calls : List DciCall) :
    commonDcis (c :: calls) = commonDcis [c] ++ commonDcis calls := by
  cases c <;> rfl

theorem ueSpecDcis_cons (c : DciCall) (calls : List DciCall) :
    ueSpecDcis (c :: calls) = ueSpecDcis [c] ++ ueSpecDcis calls := by
  cases c <;> rfl

/-- The list has these DCIs, each in its place. -/
structure DciPdu.Lists (p : DciPdu) (common ue_spec : List Dci) : Prop where
  Num_common_dci : p.Num_common_dci = common.length
  Num_ue_spec_dci : p.Num_ue_spec_dci = ue_spec.length
  holds : ∀ i d, (common ++ ue_spec)[i]? = some d → (p.dci_alloc i).Holds d

/-- A common DCI comes before all UE-specific ones, and there is an entry for a trial. -/
def DciPdu.InOrder (p : DciPdu) : DciCall → Prop
  | .addCommonDci _ => p.Num_ue_spec_dci = 0
  | .addUeSpecDci _ => True
  | .cceAllocationInfeasible _ _ _ => p.Num_common_dci + p.Num_ue_spec_dci < NUM_DCI_MAX

instance (p : DciPdu) (c : DciCall) : Decidable (p.InOrder c) := by
  cases c <;> unfold DciPdu.InOrder <;> infer_instance

/-! ## What allocating leaves unchanged -/

namespace DciPdu

variable {get_nCCE_max : Nat → Nat} {subframe : Nat}

theorem entries_place (p : DciPdu) (firsts : List Nat) : (p.place firsts).entries = p.entries := by
  apply map_congr_left
  intro i _
  unfold place
  dsimp only
  split <;> rfl

/-- The same list, but for the first CCEs and the number of symbols. -/
structure SameDcis (p p' : DciPdu) : Prop where
  Num_common_dci : p'.Num_common_dci = p.Num_common_dci
  Num_ue_spec_dci : p'.Num_ue_spec_dci = p.Num_ue_spec_dci
  holds : ∀ i d, (p.dci_alloc i).Holds d → (p'.dci_alloc i).Holds d

theorem SameDcis.place {p p' : DciPdu} (h : SameDcis p p')
    (firsts : List Nat) : SameDcis p (p'.place firsts) := by
  refine ⟨h.Num_common_dci, h.Num_ue_spec_dci, fun i d hd => ?_⟩
  have hd' := h.holds i d hd
  unfold DciPdu.place
  dsimp only
  split
  · exact ⟨hd'.dci_pdu, hd'.dci_length, hd'.L, hd'.rnti, hd'.format, hd'.ra_flag⟩
  · exact hd'

theorem SameDcis.lists {p p' : DciPdu} (h : SameDcis p p') {common ue_spec : List Dci}
    (hp : p.Lists common ue_spec) : p'.Lists common ue_spec :=
  ⟨h.Num_common_dci.trans hp.Num_common_dci, h.Num_ue_spec_dci.trans hp.Num_ue_spec_dci,
    fun i d hd => h.holds i d (hp.holds i d hd)⟩

theorem SameDcis.refl (p : DciPdu) : SameDcis p p := ⟨rfl, rfl, fun _ _ h => h⟩

theorem SameDcis.trans {p p' p'' : DciPdu} (h : SameDcis p p')
    (h' : SameDcis p' p'') : SameDcis p p'' :=
  ⟨h'.Num_common_dci.trans h.Num_common_dci, h'.Num_ue_spec_dci.trans h.Num_ue_spec_dci,
    fun i d hd => h'.holds i d (h.holds i d hd)⟩

variable {test_only : Bool} {num_pdcch_symbols L : Nat} {r : Bool × DciPdu}

theorem sameDcis_attempt {p : DciPdu}
    (h : p.attempt get_nCCE_max subframe test_only num_pdcch_symbols = some r) :
    SameDcis p r.2 := by
  obtain ⟨r', -, rfl⟩ := map_eq_some_iff.1 h
  cases test_only with
  | true => exact ⟨rfl, rfl, fun _ _ h => h⟩
  | false =>
    have hplaced := (SameDcis.refl p).place r'.2
    exact ⟨hplaced.Num_common_dci, hplaced.Num_ue_spec_dci, hplaced.holds⟩

theorem sameDcis_tryAgain {more : Nat} {p : DciPdu}
    (h : p.tryAgain get_nCCE_max subframe test_only more = some r) : SameDcis p r.2 := by
  induction more generalizing p with
  | zero => exact sameDcis_attempt h
  | succ more ih =>
    obtain ⟨r', hattempt, hrest⟩ := bind_eq_some_iff.1 h
    have hsame := sameDcis_attempt hattempt
    split at hrest
    · cases hrest
      exact hsame
    · exact hsame.trans (ih hrest)

theorem dci_alloc_attempt {p : DciPdu}
    (h : p.attempt get_nCCE_max subframe true num_pdcch_symbols = some r) :
    r.2.dci_alloc = p.dci_alloc := by
  obtain ⟨r', -, rfl⟩ := map_eq_some_iff.1 h
  rfl

theorem dci_alloc_tryAgain {more : Nat} {p : DciPdu}
    (h : p.tryAgain get_nCCE_max subframe true more = some r) : r.2.dci_alloc = p.dci_alloc := by
  induction more generalizing p with
  | zero => exact dci_alloc_attempt h
  | succ more ih =>
    obtain ⟨r', hattempt, hrest⟩ := bind_eq_some_iff.1 h
    have hsame := dci_alloc_attempt hattempt
    split at hrest
    · cases hrest
      exact hsame
    · exact (ih hrest).trans hsame

theorem cceAllocationInfeasible_some {common : Bool} {agg : Fin 4} {rnti : Nat} {p : DciPdu}
    (h : p.cceAllocationInfeasible get_nCCE_max subframe common agg rnti = some r) :
    p.Num_common_dci + p.Num_ue_spec_dci < NUM_DCI_MAX ∧
      (∃ q, (p.trial common agg rnti).allocateCces get_nCCE_max subframe true = some (!r.1, q)) ∧
      r.2.Num_common_dci = p.Num_common_dci ∧ r.2.Num_ue_spec_dci = p.Num_ue_spec_dci ∧
      ∀ i, i < p.Num_common_dci + p.Num_ue_spec_dci → r.2.dci_alloc i = p.dci_alloc i := by
  unfold cceAllocationInfeasible at h
  split at h
  · rename_i hroom
    obtain ⟨r', halloc, rfl⟩ := map_eq_some_iff.1 h
    refine ⟨hroom, ⟨r'.2, by simpa using halloc⟩, rfl, rfl, fun i hi => ?_⟩
    rw [dci_alloc_tryAgain halloc]
    exact update_of_ne (by omega) _ _
  · cases h

/-! ## Adding -/

theorem holds_write {p p' : DciPdu} {i : Nat} {d : Dci} (h : p.write i d = some p') :
    p'.Num_common_dci = p.Num_common_dci ∧ p'.Num_ue_spec_dci = p.Num_ue_spec_dci ∧
      (p'.dci_alloc i).Holds d ∧ ∀ k ≠ i, p'.dci_alloc k = p.dci_alloc k := by
  unfold write at h
  split at h
  · cases h
    refine ⟨rfl, rfl, ?_, fun k hk => update_of_ne hk _ _⟩
    dsimp only
    rw [update_self]
    exact ⟨read_copy _ _ _, rfl, rfl, rfl, rfl, rfl⟩
  · cases h

theorem write_some (p : DciPdu) {i : Nat} (h : i < NUM_DCI_MAX)
    (d : Dci) : ∃ p', p.write i d = some p' := by
  unfold write
  rw [if_pos h]
  exact ⟨_, rfl⟩

variable {p p' : DciPdu} {common ue_spec : List Dci} {d : Dci}

theorem holds_concat {l : List Dci} (h : ∀ i x, l[i]? = some x → (p.dci_alloc i).Holds x)
    (hwrite : p.write l.length d = some p') : ∀ i x, (l ++ [d])[i]? = some x →
    (p'.dci_alloc i).Holds x := by
  obtain ⟨-, -, hnew, hother⟩ := holds_write hwrite
  intro i x hx
  by_cases hi : i = l.length
  · subst hi
    simp only [getElem?_concat_length, some.injEq] at hx
    exact hx ▸ hnew
  · have hlt : i < l.length := by
      have := (List.getElem?_eq_some_iff.1 hx).1
      rw [length_append, length_singleton] at this
      omega
    rw [getElem?_append_left hlt] at hx
    rw [hother i hi]
    exact h i x hx

theorem Lists.length (h : p.Lists common ue_spec) :
    p.Num_common_dci + p.Num_ue_spec_dci = (common ++ ue_spec).length := by
  rw [h.Num_common_dci, h.Num_ue_spec_dci, length_append]

theorem Lists.addUeSpecDci (h : p.Lists common ue_spec) (hadd : p.addUeSpecDci d = some p') :
    p'.Lists common (ue_spec ++ [d]) := by
  obtain ⟨q, hwrite, rfl⟩ := map_eq_some_iff.1 hadd
  obtain ⟨hcommon, hspec, -, -⟩ := holds_write hwrite
  refine ⟨hcommon.trans h.Num_common_dci, by simp [hspec, h.Num_ue_spec_dci], ?_⟩
  rw [h.length] at hwrite
  rw [← append_assoc]
  have hholds := holds_concat h.holds hwrite
  exact hholds

theorem Lists.addCommonDci (h : p.Lists common []) (hadd : p.addCommonDci d = some p') :
    p'.Lists (common ++ [d]) [] := by
  obtain ⟨q, hwrite, rfl⟩ := map_eq_some_iff.1 hadd
  obtain ⟨hcommon, hspec, -, -⟩ := holds_write hwrite
  refine ⟨by simp [hcommon, h.Num_common_dci], hspec.trans h.Num_ue_spec_dci, ?_⟩
  have hholds := h.holds
  rw [h.Num_common_dci] at hwrite
  rw [append_nil] at hholds ⊢
  have hholds' := holds_concat hholds hwrite
  exact hholds'

theorem Lists.cceAllocationInfeasible (h : p.Lists common ue_spec) {common_flag : Bool}
    {agg : Fin 4} {rnti : Nat}
    (htest : p.cceAllocationInfeasible get_nCCE_max subframe common_flag agg rnti = some r) :
    r.2.Lists common ue_spec := by
  obtain ⟨-, -, hcommon, hspec, hkept⟩ := cceAllocationInfeasible_some htest
  refine ⟨hcommon.trans h.Num_common_dci, hspec.trans h.Num_ue_spec_dci, fun i x hx => ?_⟩
  have hlt := (List.getElem?_eq_some_iff.1 hx).1
  rw [length_append, ← h.Num_common_dci, ← h.Num_ue_spec_dci] at hlt
  rw [hkept i hlt]
  exact h.holds i x hx

/-! ## Allocating ends -/

theorem firstFree_some (table : Nat → Bool) {cces : List Nat}
    (h : ∀ cce ∈ cces, cce + L ≤ CCE_TABLE_SIZE) : ∃ o, firstFree table L cces = some o := by
  induction cces with
  | nil => exact ⟨none, rfl⟩
  | cons cce cces ih =>
    have hcce := h cce mem_cons_self
    simp only [firstFree, if_neg (Nat.not_lt.2 hcce)]
    split
    · exact ⟨_, rfl⟩
    · exact ih fun x hx => h x (mem_cons_of_mem _ hx)

theorem candidates_some (common_dci : Bool) {nCCE : Nat} (hL : L = 1 ∨ L = 2 ∨ L = 4 ∨ L = 8)
    (hle : L ≤ nCCE) (rnti subframe : Nat) :
    ∃ cces, candidates common_dci L nCCE rnti subframe = some cces ∧
    ∀ cce ∈ cces, cce + L ≤ nCCE := by
  have hroom : ∀ m, m < nCCE / L → m * L + L ≤ nCCE := by
    intro m hm
    calc m * L + L = (m + 1) * L := by rw [Nat.succ_mul]
      _ ≤ nCCE / L * L := Nat.mul_le_mul_right L hm
      _ ≤ nCCE := Nat.div_mul_le_self nCCE L
  have hpos : 0 < nCCE / L := Nat.div_pos hle (by omega)
  cases common_dci with
  | true =>
    refine ⟨_, rfl, fun cce hcce => ?_⟩
    simp only [if_true, List.mem_map, mem_reverse, mem_range] at hcce
    obtain ⟨m, hm, rfl⟩ := hcce
    exact hroom m (Nat.lt_of_lt_of_le hm (Nat.min_le_right _ _))
  | false =>
    have hnb : ∃ nb, nbCandidates false L nCCE = some nb := by
      obtain rfl | rfl | rfl | rfl := hL <;> exact ⟨_, rfl⟩
    obtain ⟨nb, hnb⟩ := hnb
    refine ⟨_, by rw [candidates, hnb]; rfl, fun cce hcce => ?_⟩
    simp only [Bool.false_eq_true, if_false, List.mem_map, mem_range] at hcce
    obtain ⟨m, -, rfl⟩ := hcce
    exact hroom _ (Nat.mod_lt _ hpos)

theorem aggregation_pow (h : L ≤ 3) : 2 ^ L % 256 = 2 ^ L ∧
    (2 ^ L = 1 ∨ 2 ^ L = 2 ∨ 2 ^ L = 4 ∨ 2 ^ L = 8) := by
  obtain rfl | rfl | rfl | rfl : L = 0 ∨ L = 1 ∨ L = 2 ∨ L = 3 := by omega
  all_goals simp

theorem dumpCceTable_some (table : Nat → Bool) {nCCE : Nat} (hmax : nCCE ≤ CCE_TABLE_SIZE)
    (hL : L = 1 ∨ L = 2) (hle : 2 ^ L ≤ nCCE)
    (rnti subframe : Nat) : ∃ d, dumpCceTable table nCCE rnti subframe L =
      some d := by
  have hpos : nCCE / L ≠ 0 := by
    have : L ≤ nCCE := Nat.le_trans (Nat.le_of_lt Nat.lt_two_pow_self) hle
    exact Nat.pos_iff_ne_zero.1 (Nat.div_pos this (by omega))
  rw [dumpCceTable, if_neg (by omega)]
  obtain rfl | rfl := hL <;> exact ⟨_, rfl⟩

theorem getNcceOffset_some {nCCE_max : Nat} (hmax : nCCE_max ≤ CCE_TABLE_SIZE) (hL : L ≤ 3)
    (hle : 2 ^ L ≤ nCCE_max) (table : Nat → Bool) (common_dci : Bool) (rnti : Nat) :
    ∃ o, getNcceOffset table (2 ^ L % 256) nCCE_max common_dci rnti subframe = some o := by
  obtain ⟨hmod, hpow⟩ := aggregation_pow hL
  obtain ⟨cces, hcces, hroom⟩ := candidates_some common_dci hpow hle rnti subframe
  obtain ⟨o, ho⟩ := firstFree_some table fun cce hcce => Nat.le_trans (hroom cce hcce) hmax
  refine ⟨o, ?_⟩
  rw [hmod, getNcceOffset, if_neg (by omega), hcces, bind_some, ho]

theorem allocateRound_some {nCCE_max Num_common_dci : Nat} (hmax : nCCE_max ≤ CCE_TABLE_SIZE)
    {entries : List (Nat × Nat)} (hL : ∀ x ∈ entries, x.2 = 1 ∨ x.2 = 2) (i nCCE : Nat)
    (table : Nat → Bool) :
    ∃ r, allocateRound num_pdcch_symbols nCCE_max subframe Num_common_dci entries i nCCE table =
      some r := by
  induction entries generalizing i nCCE table with
  | nil => exact ⟨_, rfl⟩
  | cons x rest ih =>
    have hx := hL x mem_cons_self
    unfold allocateRound
    split
    · exact ⟨_, rfl⟩
    have hle : 2 ^ x.2 ≤ nCCE_max := by omega
    obtain ⟨o, ho⟩ : ∃ o, getNcceOffset table (2 ^ x.2 % 256) nCCE_max (decide (i < Num_common_dci))
        x.1 subframe = some o := getNcceOffset_some hmax (by omega) hle table _ x.1
    rw [ho, bind_some]
    cases o with
    | none =>
      obtain ⟨d, hd⟩ := dumpCceTable_some table hmax hx hle subframe x.1
      simp only [hd, map_some]
      split <;> exact ⟨_, rfl⟩
    | some fCCE =>
      obtain ⟨r, hr⟩ := ih (fun y hy => hL y (mem_cons_of_mem _ hy)) (i + 1) (nCCE + 2 ^ x.2)
        (mark table fCCE (2 ^ x.2 % 256))
      simp only [hr, map_some]
      exact ⟨_, rfl⟩

theorem entries_attempt {p : DciPdu}
    (h : p.attempt get_nCCE_max subframe test_only num_pdcch_symbols = some r) :
    r.2.entries = p.entries := by
  obtain ⟨r', -, rfl⟩ := map_eq_some_iff.1 h
  cases test_only with
  | true => rfl
  | false => exact entries_place p r'.2

theorem allocateCces_some (hcell : ∀ s, 1 ≤ s → s ≤ 3 → get_nCCE_max s ≤ CCE_TABLE_SIZE)
    (test_only : Bool) {p : DciPdu} (hL : ∀ x ∈ p.entries, x.2 = 1 ∨ x.2 = 2) : ∃ r,
    p.allocateCces get_nCCE_max subframe test_only = some r := by
  have hattempt : ∀ s (q : DciPdu), 1 ≤ s → s ≤ 3 → q.entries = p.entries →
      ∃ r, q.attempt get_nCCE_max subframe test_only s = some r := by
    intro s q hs hs' hq
    obtain ⟨r, hr⟩ : ∃ r, allocateRound s (get_nCCE_max s) subframe q.Num_common_dci q.entries 0 0
        (fun _ => false) =
        some r := allocateRound_some (hcell s hs hs') (hq ▸ hL) 0 0 fun _ => false
    rw [attempt, hr]
    exact ⟨_, rfl⟩
  have hrounds : ∀ more (q : DciPdu), more ≤ 2 → q.entries = p.entries →
      ∃ r, q.tryAgain get_nCCE_max subframe test_only more = some r := by
    intro more
    induction more with
    | zero => exact fun q _ => hattempt 3 q (by omega) (by omega)
    | succ more ih =>
      intro q hmore hq
      obtain ⟨r, hr⟩ := hattempt (2 - more) q (by omega) (by omega) hq
      rw [tryAgain, hr, bind_some]
      split
      · exact ⟨r, rfl⟩
      · exact ih r.2 (by omega) ((entries_attempt hr).trans hq)
  exact hrounds 2 p (Nat.le_refl 2) rfl

/-! ## Subframes -/

/-- What holds of the level of every DCI and of a trial holds of all entries. -/
theorem Lists.entries_level (h : p.Lists common ue_spec) {P : Nat → Prop}
    (hP : ∀ d ∈ common ++ ue_spec, P d.aggregation) : ∀ x ∈ p.entries, P x.2 := by
  intro x hx
  obtain ⟨i, hi, rfl⟩ := List.mem_map.1 hx
  rw [mem_range, h.length] at hi
  have hholds := h.holds i _ (getElem?_eq_getElem hi)
  rw [hholds.L]
  exact hP _ (getElem_mem hi)

theorem trial_level {P : Nat → Prop} (hP : ∀ x ∈ p.entries, P x.2) (common : Bool) {agg : Nat}
    (haggregation : P agg) (rnti : Nat) : ∀ x ∈ (p.trial common agg rnti).entries, P x.2 := by
  intro x hx
  obtain ⟨i, hi, rfl⟩ := List.mem_map.1 hx
  have hn : (p.trial common agg rnti).Num_common_dci +
      (p.trial common agg rnti).Num_ue_spec_dci = p.Num_common_dci + p.Num_ue_spec_dci + 1 := by
    cases common <;> simp [trial] <;> omega
  rw [mem_range] at hi
  by_cases hlast : i = p.Num_common_dci + p.Num_ue_spec_dci
  · subst hlast
    simpa only [trial, update_self] using haggregation
  · simp only [trial, update_of_ne hlast]
    apply hP (((p.dci_alloc i).rnti, (p.dci_alloc i).L))
    exact List.mem_map.2 ⟨i, mem_range.2 (by omega), rfl⟩

theorem dcis_level {P : Nat → Prop} {c : DciCall} (hP : P c.aggregation) :
    ∀ d ∈ commonDcis [c] ++ ueSpecDcis [c], P d.aggregation := by
  cases c with
  | addCommonDci | addUeSpecDci => simpa [commonDcis, ueSpecDcis, DciCall.aggregation] using hP
  | cceAllocationInfeasible => simp [commonDcis, ueSpecDcis]

theorem Lists.call (hcell : ∀ s, 1 ≤ s → s ≤ 3 → get_nCCE_max s ≤ CCE_TABLE_SIZE)
    (h : p.Lists common ue_spec) {c : DciCall}
    (hlevels : ∀ d ∈ common ++ ue_spec, (d.aggregation : Nat) = 1 ∨ (d.aggregation : Nat) = 2)
    (hlevel : (c.aggregation : Nat) = 1 ∨ (c.aggregation : Nat) = 2) (hc : p.InOrder c)
    (hroom : (common ++ commonDcis [c]).length + (ue_spec ++ ueSpecDcis [c]).length ≤ NUM_DCI_MAX) :
    ∃ p', p.call get_nCCE_max subframe c = some p' ∧
      p'.Lists (common ++ commonDcis [c]) (ue_spec ++ ueSpecDcis [c]) := by
  cases c with
  | addCommonDci d =>
    have hnil : ue_spec = [] := eq_nil_of_length_eq_zero (h.Num_ue_spec_dci.symm.trans hc)
    subst hnil
    simp only [commonDcis, ueSpecDcis, length_append, length_singleton, length_nil] at hroom
    obtain ⟨q, hq⟩ :=
      p.write_some (show p.Num_common_dci < NUM_DCI_MAX by rw [h.Num_common_dci]; omega) d
    have hadd : p.addCommonDci d = some { q with Num_common_dci := q.Num_common_dci + 1 } := by
      rw [DciPdu.addCommonDci, hq, map_some]
    exact ⟨_, hadd, h.addCommonDci hadd⟩
  | addUeSpecDci d =>
    simp only [commonDcis, ueSpecDcis, length_append, length_singleton, length_nil] at hroom
    obtain ⟨q, hq⟩ := p.write_some (show p.Num_common_dci + p.Num_ue_spec_dci < NUM_DCI_MAX by
      rw [h.Num_common_dci, h.Num_ue_spec_dci]; omega) d
    have hadd : p.addUeSpecDci d = some { q with Num_ue_spec_dci := q.Num_ue_spec_dci + 1 } := by
      rw [DciPdu.addUeSpecDci, hq, map_some]
    refine ⟨_, hadd, ?_⟩
    simpa [commonDcis, ueSpecDcis] using h.addUeSpecDci hadd
  | cceAllocationInfeasible common_flag aggregation rnti =>
    have hentries := h.entries_level (P := fun L => L = 1 ∨ L = 2) hlevels
    have htrial := trial_level (P := fun L => L = 1 ∨ L = 2) hentries common_flag hlevel rnti
    obtain ⟨r, hr⟩ : ∃ r, (p.trial common_flag aggregation rnti).allocateCces get_nCCE_max subframe
        true = some r :=
      allocateCces_some hcell true htrial
    have htest : p.cceAllocationInfeasible get_nCCE_max subframe common_flag aggregation rnti =
        some (!r.1,
        { r.2 with Num_common_dci := p.Num_common_dci, Num_ue_spec_dci := p.Num_ue_spec_dci }) := by
      rw [DciPdu.cceAllocationInfeasible, if_pos (show _ < _ from hc), hr, map_some]
    refine ⟨_, by rw [DciPdu.call, htest]; rfl, ?_⟩
    simpa [commonDcis, ueSpecDcis] using h.cceAllocationInfeasible htest

theorem Lists.run (hcell : ∀ s, 1 ≤ s → s ≤ 3 → get_nCCE_max s ≤ CCE_TABLE_SIZE)
    {calls : List DciCall} (h : p.Lists common ue_spec)
    (hmeets : Lib.Meets (DciPdu.call get_nCCE_max subframe) DciPdu.InOrder p calls)
    (hlevels : ∀ d ∈ common ++ ue_spec, (d.aggregation : Nat) = 1 ∨ (d.aggregation : Nat) = 2)
    (hcalls : ∀ c ∈ calls, (c.aggregation : Nat) = 1 ∨ (c.aggregation : Nat) = 2)
    (hroom : (common ++ commonDcis calls).length + (ue_spec ++ ueSpecDcis calls).length ≤
      NUM_DCI_MAX) :
    ∃ p', Lib.run (DciPdu.call get_nCCE_max subframe) p calls = some p' ∧
      p'.Lists (common ++ commonDcis calls) (ue_spec ++ ueSpecDcis calls) ∧
      ∀ d ∈ common ++ commonDcis calls ++ (ue_spec ++ ueSpecDcis calls),
        (d.aggregation : Nat) = 1 ∨ (d.aggregation : Nat) = 2 := by
  induction calls generalizing p common ue_spec with
  | nil =>
      exact ⟨p, rfl, by simpa [commonDcis, ueSpecDcis] using h,
        by simpa [commonDcis, ueSpecDcis] using hlevels⟩
  | cons c calls ih =>
    have hlevel := hcalls c mem_cons_self
    have hlevels' : ∀ d ∈ common ++ commonDcis [c] ++ (ue_spec ++ ueSpecDcis [c]),
        (d.aggregation : Nat) = 1 ∨ (d.aggregation : Nat) = 2 := by
      have hnew := dcis_level (P := fun L => L = 1 ∨ L = 2) hlevel
      simp only [mem_append] at hlevels hnew ⊢
      rintro d ((hd | hd) | (hd | hd))
      · exact hlevels d (.inl hd)
      · exact hnew d (.inl hd)
      · exact hlevels d (.inr hd)
      · exact hnew d (.inr hd)
    rw [commonDcis_cons, ueSpecDcis_cons, ← append_assoc, ← append_assoc] at hroom ⊢
    obtain ⟨q, hcall, hq⟩ : ∃ q, p.call get_nCCE_max subframe c = some q ∧
        q.Lists (common ++ commonDcis [c]) (ue_spec ++ ueSpecDcis [c]) := by
      apply h.call hcell hlevels hlevel hmeets.1
      simp only [length_append] at hroom ⊢
      omega
    obtain ⟨p', hrun, hp'⟩ :=
      ih hq (hmeets.2 q hcall) hlevels' (fun x hx => hcalls x (mem_cons_of_mem _ hx)) hroom
    exact ⟨p', Lib.run_cons.2 ⟨q, hcall, hrun⟩, hp'⟩

/-- Without PDCCH orders, with the common DCIs first and with levels of two and four CCEs, every DCI
is in the list when its CCEs are allocated, once and as it was added, the common ones in front, and
the counters count them. -/
theorem every_dci_has_its_entry (get_nCCE_max : Nat → Nat) (subframe : Nat) (p : DciPdu)
    (calls : List DciCall) (hcell : ∀ s, 1 ≤ s → s ≤ 3 → get_nCCE_max s ≤ CCE_TABLE_SIZE)
    (hmeets : Lib.Meets (DciPdu.call get_nCCE_max subframe) DciPdu.InOrder p.clear calls)
    (hlevels : ∀ c ∈ calls, (c.aggregation : Nat) = 1 ∨ (c.aggregation : Nat) = 2)
    (hadds : (commonDcis calls).length + (ueSpecDcis calls).length ≤ NUM_DCI_MAX) :
    ∃ p' ok p'', p.schedule get_nCCE_max subframe [] calls = some p' ∧
      p'.Lists (commonDcis calls) (ueSpecDcis calls) ∧
      p'.allocateCces get_nCCE_max subframe false = some (ok, p'') ∧
      p''.Lists (commonDcis calls) (ueSpecDcis calls) := by
  have hstart : p.clear.Lists [] [] := ⟨rfl, rfl, by simp⟩
  obtain ⟨p', hrun, hp', hlevels'⟩ :=
    hstart.run hcell hmeets (by simp) hlevels (by simpa using hadds)
  have hentries := hp'.entries_level (P := fun L => L = 1 ∨ L = 2) hlevels'
  obtain ⟨r, hr⟩ : ∃ r, p'.allocateCces get_nCCE_max subframe false = some r :=
    allocateCces_some hcell false hentries
  exact ⟨p', r.1, r.2, hrun, hp', hr, (sameDcis_tryAgain hr).lists hp'⟩

def dciOf (rnti : Nat) (aggregation : Fin 4) (dci_fmt : DciFormat) (ra_flag : Bool) : Dci where
  pdu := [1, 2, 3, 4]
  rnti := rnti
  aggregation := aggregation
  dci_size_bits := 27
  dci_fmt := dci_fmt
  ra_flag := ra_flag
  fits := by decide

def aSubframe : List DciCall :=
  [.cceAllocationInfeasible true 2 2, .addCommonDci (dciOf 2 2 .format1A true),
    .cceAllocationInfeasible false 2 0x1234, .addUeSpecDci (dciOf 0x1234 2 .format0 false),
    .cceAllocationInfeasible false 1 0x5678, .addUeSpecDci (dciOf 0x5678 1 .format1 false)]

theorem the_dcis_of_a_subframe : ∃ p' ok p'',
    ({} : DciPdu).schedule (getNcce 25 1 false 1) 0 [] aSubframe = some p' ∧
      p'.Lists [dciOf 2 2 .format1A true] [dciOf 0x1234 2 .format0 false,
        dciOf 0x5678 1 .format1 false] ∧
      p'.allocateCces (getNcce 25 1 false 1) 0 false = some (ok, p'') ∧
      p''.Lists [dciOf 2 2 .format1A true] [dciOf 0x1234 2 .format0 false,
        dciOf 0x5678 1 .format1 false] := by
  have hcell : ∀ s, 1 ≤ s → s ≤ 3 → getNcce 25 1 false 1 s ≤ CCE_TABLE_SIZE := by
    intro s hs hs'
    obtain rfl | rfl | rfl : s = 1 ∨ s = 2 ∨ s = 3 := by omega
    all_goals decide
  exact every_dci_has_its_entry (getNcce 25 1 false 1) 0 {} aSubframe hcell (by decide +kernel)
    (by decide) (by decide)

/-- A PDCCH order is lost when the counters are cleared. A Msg4 of one random access process is lost
when the response to another one follows: the response takes its entry, and in the next entry there
is nothing but what the test of the response has left. -/
theorem an_order_and_a_msg4_are_lost :
    (({} : DciPdu).schedule (getNcce 25 1 false 1) 0 [dciOf 0x1234 1 .format1A false] []).map
        (fun p => (p.Num_common_dci, p.Num_ue_spec_dci, p.entries)) = some (0, 0, []) ∧
    (({} : DciPdu).schedule (getNcce 25 1 false 1) 0 []
        [.cceAllocationInfeasible false 2 0x1234, .addUeSpecDci (dciOf 0x1234 2 .format1A false),
          .cceAllocationInfeasible true 2 2, .addCommonDci (dciOf 2 2 .format1A true)]).map
        (fun p => (p.Num_common_dci, p.Num_ue_spec_dci, p.entries,
          (List.range 2).map fun i => (p.dci_alloc i).dci_pdu.read 0 4)) =
      some (1, 1, [(2, 2), (2, 2)], [[1, 2, 3, 4], [0, 0, 0, 0]]) := by
  constructor
  · decide +kernel
  · decide +kernel

end DciPdu

end MacRlcSplit.Mac
