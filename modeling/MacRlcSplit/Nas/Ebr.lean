-- The EPS bearer identities of the UE, `esm_ebr.c`: a table of pointers to
-- bearer contexts that stands for a map from the identities 5 to 15 to their
-- status, for as long as no context is released.
import MacRlcSplit.Nas.Esm

namespace MacRlcSplit.Nas

open Lib Function List Option

/-! ## The functions -/

def ESM_EBI_MIN : Int := 5

def ESM_EBI_MAX : Int := 15

/-- `ESM_EBR_DATA_SIZE`. The table has one more entry. -/
def ESM_EBR_DATA_SIZE : Nat := 11

/-- `esm_ebr_state`, with `ESM_EBR_STATE_MAX`. -/
inductive EsmEbrState where
  | inactive
  | active
  | stateMax
deriving DecidableEq, Repr

/-- `network_pdn_state_t`. -/
inductive NetworkPdnState where
  | mtDefaultAct
  | nwDefaultDeact
  | mtDefaultDeact
  | nwDedicatedAct
  | mtDedicatedAct
  | nwDedicatedDeact
  | mtDedicatedDeact
deriving DecidableEq, Repr

structure EsmEbrContext where
  ebi : Int
  status : EsmEbrState
  is_default_ebr : Bool
  cid : Int
deriving DecidableEq, Repr

/-- A pointer of the table: null, to a context, or to a context that was freed. -/
inductive EbrSlot where
  | null
  | held (ctx : EsmEbrContext)
  | freed
deriving DecidableEq, Repr

/-- `esm_ebr_data_t`. The memory beside the table has a place here too: `used` holds every index
that a call applies to the table, and `notified` what the user was told. -/
structure EbrData where
  index : Nat
  context : Int → EbrSlot
  used : List Int := []
  notified : List (Int × Option NetworkPdnState) := []

/-- `_esm_ebr_pdn_state`, by who asked, the kind of the bearer and the new status. None for the
entry 0. -/
def esmEbrPdnState : Bool → Bool → EsmEbrState → Option NetworkPdnState
  | false, false, .inactive => some .nwDedicatedDeact
  | false, false, _ => some .nwDedicatedAct
  | false, true, .inactive => some .nwDefaultDeact
  | false, true, _ => none
  | true, false, .inactive => some .mtDedicatedDeact
  | true, false, _ => some .mtDedicatedAct
  | true, true, .inactive => some .mtDefaultDeact
  | true, true, _ => some .mtDefaultAct

/-- An `int` that is stored in a `char`. -/
def toChar (n : Int) : Int := (n + 128) % 256 - 128

/-- The identities that the table has a place for. -/
def EbiInRange (ebi : Int) : Prop := ESM_EBI_MIN ≤ ebi ∧ ebi ≤ ESM_EBI_MAX

instance (ebi : Int) : Decidable (EbiInRange ebi) :=
  inferInstanceAs (Decidable (ESM_EBI_MIN ≤ ebi ∧ ebi ≤ ESM_EBI_MAX))

namespace EbrData

def touch (s : EbrData) (i : Int) : EbrData := { s with used := s.used ++ [i] }

def put (s : EbrData) (i : Int) (slot : EbrSlot) : EbrData :=
  { s with context := update s.context i slot }

/-- `esm_ebr_initialize`, over whatever the memory held. -/
def esmEbrInitialize (beside : Int → EbrSlot) : EbrData where
  index := 0
  context i := if 0 ≤ i ∧ i < ESM_EBR_DATA_SIZE + 1 then .null else beside i

/-- The first entry of some that is null. -/
def firstNull (s : EbrData) : List Nat → Option Nat × EbrData
  | [] => (none, s)
  | i :: is => if s.context i = .null then (some i, s.touch i) else (s.touch i).firstNull is

/-- `_esm_ebr_get_available_entry`, with none for -1: the entries from `index` on, then those before
it. -/
def esmEbrGetAvailableEntry (s : EbrData) : Option Nat × EbrData :=
  s.firstNull (range' s.index (ESM_EBR_DATA_SIZE - s.index) ++ List.range s.index)

/-- The last part of `esm_ebr_assign`, for the entry `i`. -/
def fill (s : EbrData) (i : Nat) (cid : Int) (default_ebr mem : Bool) : Int × EbrData :=
  if mem then
    (i + ESM_EBI_MIN,
      { (s.touch i).put i (.held ⟨i + ESM_EBI_MIN, .inactive, default_ebr,
        toChar cid⟩) with index := i + 1 })
  else (ESM_EBI_UNASSIGNED, s)

/-- `esm_ebr_assign`, where `mem` says that there is memory. The entry is read before the identity
is checked. -/
def esmEbrAssign (s : EbrData) (ebi cid : Int) (default_ebr mem : Bool) : Int × EbrData :=
  let s1 := s.touch (ebi - ESM_EBI_MIN)
  if ebi ≠ ESM_EBI_UNASSIGNED then
    if ¬ EbiInRange ebi then (ESM_EBI_UNASSIGNED, s1)
    else if s.context (ebi - ESM_EBI_MIN) ≠ .null then (ESM_EBI_UNASSIGNED, s1)
    else s1.fill (ebi - ESM_EBI_MIN).toNat cid default_ebr mem
  else
    match s1.esmEbrGetAvailableEntry with
    | (none, s2) => (ESM_EBI_UNASSIGNED, s2)
    | (some i, s2) => s2.fill i cid default_ebr mem

/-- The context of an identity. None where a freed one is read, none inside where there is no such
context. -/
def contextOf (s : EbrData) (ebi : Int) : Option (Option EsmEbrContext) :=
  match s.context (ebi - ESM_EBI_MIN) with
  | .null => some none
  | .held ctx => some (if ctx.ebi = ebi then some ctx else none)
  | .freed => none

/-- `esm_ebr_release`, true for `RETURNok`. It frees the context, and sets to null the pointer that
it has on its own stack. -/
def esmEbrRelease (s : EbrData) (ebi : Int) : Option (Bool × EbrData) :=
  if ¬ EbiInRange ebi then some (false, s)
  else
    (s.contextOf ebi).map fun found =>
      match found with
      | none => (false, s.touch (ebi - ESM_EBI_MIN))
      | some ctx =>
        if ctx.status ≠ .inactive then (false, s.touch (ebi - ESM_EBI_MIN))
        else (true, (s.touch (ebi - ESM_EBI_MIN)).put (ebi - ESM_EBI_MIN) .freed)

/-- `esm_ebr_set_status`, true for `RETURNok`. -/
def esmEbrSetStatus (s : EbrData) (ebi : Int) (status : EsmEbrState)
    (ue_requested : Bool) : Option (Bool × EbrData) :=
  if ¬ EbiInRange ebi then some (false, s)
  else
    (s.contextOf ebi).map fun found =>
      match found with
      | none => (false, s.touch (ebi - ESM_EBI_MIN))
      | some ctx =>
        if status ≠ .stateMax ∧ status ≠ ctx.status then
          (true,
            { (s.touch (ebi - ESM_EBI_MIN)).put (ebi - ESM_EBI_MIN) (.held { ctx with status }) with
            notified :=
              s.notified ++ [(ctx.cid, esmEbrPdnState ue_requested ctx.is_default_ebr status)] })
        else (false, s.touch (ebi - ESM_EBI_MIN))

def esmEbrGetStatus (s : EbrData) (ebi : Int) : Option EsmEbrState :=
  if ¬ EbiInRange ebi then some .inactive
  else (s.contextOf ebi).map fun found => (found.map EsmEbrContext.status).getD .inactive

def esmEbrIsNotInUse (s : EbrData) (ebi : Int) : Option Bool :=
  if ebi = ESM_EBI_UNASSIGNED then some true
  else (s.contextOf ebi).map isNone

end EbrData

/-! ## The calls, and the map -/

inductive EbrCall where
  | assign (ebi cid : Int) (default_ebr mem : Bool)
  | setStatus (ebi : Int) (status : EsmEbrState) (ue_requested : Bool)
  | release (ebi : Int)
deriving DecidableEq, Repr

/-- What a call returns. -/
inductive EbrResult where
  | ebi (ebi : Int)
  | ok
  | error
deriving DecidableEq, Repr

def EbrResult.ofBool (b : Bool) : EbrResult := if b then .ok else .error

def EbrData.call (s : EbrData) : EbrCall → Option (EbrResult × EbrData)
  | .assign ebi cid default_ebr mem =>
    let r := s.esmEbrAssign ebi cid default_ebr mem
    some (.ebi r.1, r.2)
  | .setStatus ebi status ue_requested =>
    (s.esmEbrSetStatus ebi status ue_requested).map fun r => (.ofBool r.1, r.2)
  | .release ebi => (s.esmEbrRelease ebi).map fun r => (.ofBool r.1, r.2)

/-- The table with the calls that were made of it. -/
structure EbrUse where
  data : EbrData
  log : List (EbrCall × EbrResult) := []

def ebrStep (u : EbrUse) (c : EbrCall) : Option EbrUse :=
  (u.data.call c).map fun r => { data := r.2, log := u.log ++ [(c, r.1)] }

/-- The identities that are assigned and not released, with their status. -/
abbrev EbrMap : Type := Int → Option EsmEbrState

/-- An identity that can be assigned. -/
def EbrMap.Free (m : EbrMap) (ebi : Int) : Prop := EbiInRange ebi ∧ m ebi = none

/-- What a call does to a map, with what it returns. -/
inductive MapStep (m : EbrMap) : EbrCall → EbrResult → EbrMap → Prop
  | assigned {ebi r cid : Int} {default_ebr : Bool} (named : ebi = ESM_EBI_UNASSIGNED ∨
    r = ebi) (free : m.Free r) :
      MapStep m (.assign ebi cid default_ebr true) (.ebi r) (update m r (some .inactive))
  | refused {ebi cid : Int} {default_ebr mem : Bool}
      (none : mem = true → ∀ r, ebi = ESM_EBI_UNASSIGNED ∨ r = ebi → ¬ m.Free r) :
      MapStep m (.assign ebi cid default_ebr mem) (.ebi ESM_EBI_UNASSIGNED) m
  | changed {ebi : Int} {old status : EsmEbrState} {ue_requested : Bool} (assigned : m ebi =
    some old)
      (status_lt : status ≠ .stateMax) (differs : status ≠ old) :
      MapStep m (.setStatus ebi status ue_requested) .ok (update m ebi (some status))
  | kept {ebi : Int} {status : EsmEbrState} {ue_requested : Bool}
      (same : ∀ old ∈ m ebi, status = .stateMax ∨ status = old) :
      MapStep m (.setStatus ebi status ue_requested) .error m
  | released {ebi : Int} (inactive : m ebi = some .inactive) :
  MapStep m (.release ebi) .ok (update m ebi none)
  | held {ebi : Int} (other : m ebi ≠ some .inactive) : MapStep m (.release ebi) .error m

/-- The calls that were made, with what they returned, are those of a map. -/
inductive IsMap : List (EbrCall × EbrResult) → EbrMap → Prop
  | nil : IsMap [] fun _ => none
  | snoc {log : List (EbrCall × EbrResult)} {m m' : EbrMap} {c : EbrCall} {r : EbrResult} :
      IsMap log m → MapStep m c r m' → IsMap (log ++ [(c, r)]) m'

/-- The map that the table stands for. -/
def EbrData.map (s : EbrData) : EbrMap := fun ebi =>
  if EbiInRange ebi then
    match s.context (ebi - ESM_EBI_MIN) with
    | .held ctx => some ctx.status
    | _ => none
  else none

/-! ## What holds of the table -/

/-- An entry of the table that no release has touched. -/
def EbrSlot.Sound (i : Int) : EbrSlot → Prop
  | .null => True
  | .held ctx => ctx.ebi = i + ESM_EBI_MIN ∧ ctx.status ≠ .stateMax
  | .freed => False

namespace EbrData

structure Inv (s : EbrData) : Prop where
  index : s.index ≤ ESM_EBR_DATA_SIZE
  sound : ∀ i : Int, 0 ≤ i → i < ESM_EBR_DATA_SIZE → (s.context i).Sound i

variable {s : EbrData} {ebi cid : Int} {default_ebr mem : Bool}

theorem inRange_sub (h : EbiInRange ebi) : 0 ≤ ebi - ESM_EBI_MIN ∧
    ebi - ESM_EBI_MIN < ESM_EBR_DATA_SIZE := by
  obtain ⟨hmin, hmax⟩ := h
  unfold ESM_EBI_MIN ESM_EBI_MAX at *
  simp only [ESM_EBR_DATA_SIZE]
  omega

theorem inRange_add {i : Nat} (h : i < ESM_EBR_DATA_SIZE) : EbiInRange (i + ESM_EBI_MIN) := by
  unfold EbiInRange ESM_EBI_MIN ESM_EBI_MAX
  unfold ESM_EBR_DATA_SIZE at h
  omega

theorem inv_init (beside : Int → EbrSlot) : (esmEbrInitialize beside).Inv where
  index := Nat.zero_le _
  sound i h0 hi := by
    have hin : 0 ≤ i ∧ i < (ESM_EBR_DATA_SIZE : Int) + 1 := ⟨h0, by omega⟩
    simp only [esmEbrInitialize, if_pos hin, EbrSlot.Sound]

theorem map_init (beside : Int → EbrSlot) : (esmEbrInitialize beside).map = fun _ => none := by
  funext ebi
  unfold map
  by_cases hebi : EbiInRange ebi
  · have hin := inRange_sub hebi
    rw [if_pos hebi]
    have htable : 0 ≤ ebi - ESM_EBI_MIN ∧ ebi - ESM_EBI_MIN < (ESM_EBR_DATA_SIZE : Int) + 1 :=
      ⟨hin.1, by omega⟩
    simp only [esmEbrInitialize, if_pos htable]
  · rw [if_neg hebi]

theorem map_put (hebi : EbiInRange ebi) (ctx : EsmEbrContext) :
    (s.put (ebi - ESM_EBI_MIN) (.held ctx)).map = update s.map ebi (some ctx.status) := by
  funext e
  by_cases heq : e = ebi
  · subst heq
    rw [map, if_pos hebi]
    simp only [put, update_self]
  · rw [update_of_ne heq, map, map]
    simp only [put, update_of_ne (show e - ESM_EBI_MIN ≠ ebi - ESM_EBI_MIN by omega)]

theorem Inv.touch (h : s.Inv) (i : Int) : (s.touch i).Inv := ⟨h.index, h.sound⟩

theorem Inv.put (h : s.Inv) {i : Int} {slot : EbrSlot}
    (hslot : slot.Sound i) : (s.put i slot).Inv where
  index := h.index
  sound j h0 hj := by
    by_cases heq : j = i
    · subst heq
      simpa only [EbrData.put, update_self] using hslot
    · simpa only [EbrData.put, update_of_ne heq] using h.sound j h0 hj

theorem Inv.contextOf (h : s.Inv) (hebi : EbiInRange ebi) :
    (s.contextOf ebi = some none ∧ s.map ebi = none ∧ s.context (ebi - ESM_EBI_MIN) = .null) ∨
      ∃ ctx, s.contextOf ebi = some (some ctx) ∧ s.map ebi = some ctx.status ∧
        ctx.status ≠ .stateMax ∧ ctx.ebi = ebi ∧ s.context (ebi - ESM_EBI_MIN) ≠ .null := by
  have hin := inRange_sub hebi
  have hsound := h.sound _ hin.1 hin.2
  unfold EbrData.contextOf map
  rw [if_pos hebi]
  cases hslot : s.context (ebi - ESM_EBI_MIN) with
  | null => exact .inl ⟨rfl, rfl, rfl⟩
  | held ctx =>
    rw [hslot] at hsound
    obtain ⟨hid, hmax⟩ := hsound
    have hid : ctx.ebi = ebi := by omega
    exact .inr ⟨ctx, by simp only [if_pos hid], rfl, hmax, hid, by simp⟩
  | freed =>
    rw [hslot] at hsound
    exact hsound.elim

/-! ## Assignments -/

theorem firstNull_spec (s : EbrData) (is : List Nat) :
    ∃ js, (s.firstNull is).2 = { s with used := s.used ++ js } ∧
      (∀ j ∈ js, ∃ i ∈ is, j = (i : Int)) ∧
      match (s.firstNull is).1 with
      | none => ∀ i ∈ is, s.context i ≠ .null
      | some i => i ∈ is ∧ s.context i = .null := by
  induction is generalizing s with
  | nil => exact ⟨[], by simp [firstNull], by simp, by simp [firstNull]⟩
  | cons i is ih =>
    unfold firstNull
    by_cases hnull : s.context i = .null
    · rw [if_pos hnull]
      exact ⟨[(i : Int)], rfl, by simp, mem_cons_self, hnull⟩
    rw [if_neg hnull]
    obtain ⟨js, hs, hjs, hres⟩ := ih (s.touch i)
    refine ⟨(i : Int) :: js, ?_, ?_, ?_⟩
    · rw [hs]
      simp [touch]
    · intro j hj
      rcases mem_cons.1 hj with rfl | hj
      · exact ⟨i, mem_cons_self, rfl⟩
      · obtain ⟨k, hk, hkj⟩ := hjs j hj
        exact ⟨k, mem_cons_of_mem _ hk, hkj⟩
    · cases hfound : ((s.touch i).firstNull is).1 with
      | none =>
        rw [hfound] at hres
        exact forall_mem_cons.2 ⟨hnull, hres⟩
      | some k =>
        rw [hfound] at hres
        exact ⟨mem_cons_of_mem _ hres.1, hres.2⟩

theorem mem_entries {index i : Nat} (h : index ≤ ESM_EBR_DATA_SIZE) :
    i ∈ range' index (ESM_EBR_DATA_SIZE - index) ++ List.range index ↔ i < ESM_EBR_DATA_SIZE := by
  rw [mem_append, mem_range'_1, mem_range]
  omega

theorem Inv.available (h : s.Inv) : ∃ js, s.esmEbrGetAvailableEntry.2 =
    { s with used := s.used ++ js } ∧
      (∀ j ∈ js, 0 ≤ j ∧ j < (ESM_EBR_DATA_SIZE : Int)) ∧
      match s.esmEbrGetAvailableEntry.1 with
      | none => ∀ ebi, ¬ s.map.Free ebi
      | some i => i < ESM_EBR_DATA_SIZE ∧ s.context i = .null := by
  obtain ⟨js, hs, hjs, hres⟩ :=
    s.firstNull_spec (range' s.index (ESM_EBR_DATA_SIZE - s.index) ++ List.range s.index)
  refine ⟨js, hs, fun j hj => ?_, ?_⟩
  · obtain ⟨i, hi, rfl⟩ := hjs j hj
    have := (mem_entries h.index).1 hi
    omega
  · rw [esmEbrGetAvailableEntry]
    cases hfound :
      (s.firstNull (range' s.index (ESM_EBR_DATA_SIZE - s.index) ++ List.range s.index)).1 with
    | none =>
      rw [hfound] at hres
      rintro ebi ⟨hebi, hnone⟩
      have hin := inRange_sub hebi
      have hnull := hres (ebi - ESM_EBI_MIN).toNat ((mem_entries h.index).2 (by omega))
      rw [Int.toNat_of_nonneg hin.1] at hnull
      rcases h.contextOf hebi with ⟨-, -, hslot⟩ | ⟨ctx, -, hsome, -⟩
      · exact hnull hslot
      · rw [hnone] at hsome
        cases hsome
    | some i =>
      rw [hfound] at hres
      exact ⟨(mem_entries h.index).1 hres.1, hres.2⟩

theorem map_eq_none {i : Nat} (hnull : s.context i = .null) : s.map (i + ESM_EBI_MIN) = none := by
  unfold map
  rw [Int.add_sub_cancel, hnull]
  split <;> rfl

theorem Inv.fill (h : s.Inv) {i : Nat} (hi : i < ESM_EBR_DATA_SIZE) (cid : Int) (ebr : Bool) :
    (s.fill i cid ebr true).1 = i + ESM_EBI_MIN ∧ (s.fill i cid ebr true).2.Inv ∧
      (s.fill i cid ebr true).2.map = update s.map (i + ESM_EBI_MIN) (some .inactive) ∧
      (s.fill i cid ebr true).2.used = s.used ++ [(i : Int)] := by
  refine ⟨rfl, ⟨hi, ?_⟩, ?_, rfl⟩
  · have hnew : (EbrSlot.held ⟨i + ESM_EBI_MIN, .inactive, ebr, toChar cid⟩).Sound i :=
      ⟨rfl, by simp⟩
    exact ((h.touch i).put hnew).sound
  · have hput := map_put (s := s.touch i) (inRange_add hi) ⟨i + ESM_EBI_MIN, .inactive, ebr,
      toChar cid⟩
    rw [Int.add_sub_cancel] at hput
    exact hput

/-- What an assignment keeps: it is one of the map, and uses the entry of its argument and entries
of the table. -/
structure Assigned (s : EbrData) (ebi cid : Int) (default_ebr mem : Bool)
    (r : Int × EbrData) : Prop where
  inv : r.2.Inv
  step : MapStep s.map (.assign ebi cid default_ebr mem) (.ebi r.1) r.2.map
  used : ∀ j ∈ r.2.used, j ∈ s.used ∨ j = ebi - ESM_EBI_MIN ∨ 0 ≤ j ∧ j < (ESM_EBR_DATA_SIZE : Int)

theorem Inv.refused (h : s.Inv) {s' : EbrData} (js : List Int)
    (hs' : s' = { s with used := s.used ++ js })
    (hjs : ∀ j ∈ js, j = ebi - ESM_EBI_MIN ∨ 0 ≤ j ∧ j < (ESM_EBR_DATA_SIZE : Int))
    (hnone : mem → ∀ r, ebi = ESM_EBI_UNASSIGNED ∨ r = ebi → ¬ s.map.Free r) :
    s.Assigned ebi cid default_ebr mem (ESM_EBI_UNASSIGNED, s') := by
  subst hs'
  exact ⟨⟨h.index, h.sound⟩, .refused hnone, fun j hj => (mem_append.1 hj).imp_right (hjs j)⟩

theorem Inv.filled (h : s.Inv) {s' : EbrData} (js : List Int)
    (hs' : s' = { s with used := s.used ++ js })
    (hjs : ∀ j ∈ js, j = ebi - ESM_EBI_MIN ∨ 0 ≤ j ∧ j < (ESM_EBR_DATA_SIZE : Int)) {i : Nat}
    (hi : i < ESM_EBR_DATA_SIZE) (hnull : s.context i = .null)
    (hnamed : ebi = ESM_EBI_UNASSIGNED ∨ (i : Int) + ESM_EBI_MIN = ebi) :
    s.Assigned ebi cid default_ebr mem (s'.fill i cid default_ebr mem) := by
  cases mem with
  | false => exact h.refused js hs' hjs fun hmem => absurd hmem (by simp)
  | true =>
    subst hs'
    have hinv : Inv { s with used := s.used ++ js } := ⟨h.index, h.sound⟩
    obtain ⟨hr, hfill, hmap, hused⟩ := hinv.fill hi cid default_ebr
    refine ⟨hfill, ?_, fun j hj => ?_⟩
    · rw [hmap]
      exact .assigned hnamed ⟨inRange_add hi, map_eq_none hnull⟩
    rw [hused, append_assoc] at hj
    rcases mem_append.1 hj with hj | hj
    · exact .inl hj
    · rcases mem_append.1 hj with hj | hj
      · exact .inr (hjs j hj)
      · rw [mem_singleton.1 hj]
        exact .inr (.inr ⟨by omega, by omega⟩)

theorem Inv.assign (h : s.Inv) (ebi cid : Int) (ebr mem : Bool) :
    s.Assigned ebi cid ebr mem (s.esmEbrAssign ebi cid ebr mem) := by
  have hread : ∀ j ∈ [ebi - ESM_EBI_MIN], j = ebi - ESM_EBI_MIN ∨ 0 ≤ j ∧
      j < (ESM_EBR_DATA_SIZE : Int) :=
    fun j hj => .inl (mem_singleton.1 hj)
  unfold esmEbrAssign
  by_cases hzero : ebi = ESM_EBI_UNASSIGNED
  · simp only [if_neg (not_not.2 hzero)]
    obtain ⟨js, hs, hjs, hres⟩ := (h.touch (ebi - ESM_EBI_MIN)).available
    rcases hfound : (s.touch (ebi - ESM_EBI_MIN)).esmEbrGetAvailableEntry with ⟨r, s2⟩
    rw [hfound] at hs hres
    have hs2 : s2 = { s with used := s.used ++ (ebi - ESM_EBI_MIN) :: js } := by
      rw [show s2 = _ from hs]
      simp [EbrData.touch]
    have huse : ∀ j ∈ (ebi - ESM_EBI_MIN) :: js, j = ebi - ESM_EBI_MIN ∨ 0 ≤ j ∧
        j < (ESM_EBR_DATA_SIZE : Int) :=
      forall_mem_cons.2 ⟨.inl rfl, fun j hj => .inr (hjs j hj)⟩
    cases r with
    | none => exact h.refused _ hs2 huse fun _ r _ => hres r
    | some i => exact h.filled _ hs2 huse hres.1 hres.2 (.inl hzero)
  · rw [if_pos hzero]
    by_cases hebi : EbiInRange ebi
    · rw [if_neg (not_not.2 hebi)]
      have hin := inRange_sub hebi
      have hback : ((ebi - ESM_EBI_MIN).toNat : Int) = ebi - ESM_EBI_MIN :=
        Int.toNat_of_nonneg hin.1
      rcases h.contextOf hebi with ⟨-, -, hslot⟩ | ⟨ctx, -, hsome, -, -, hslot⟩
      · rw [if_neg (not_not.2 hslot)]
        exact h.filled _ rfl hread (by omega) (hback.symm ▸ hslot) (.inr (by omega))
      · rw [if_pos hslot]
        refine h.refused _ rfl hread fun _ r hr hfree => ?_
        rw [hr.resolve_left hzero, EbrMap.Free, hsome] at hfree
        cases hfree.2
    · rw [if_pos hebi]
      refine h.refused _ rfl hread fun _ r hr hfree => ?_
      exact hebi (hr.resolve_left hzero ▸ hfree.1)

/-! ## Changes of the status, and releases -/

theorem Inv.setStatus (h : s.Inv) (ebi : Int) (status : EsmEbrState) (ue_requested : Bool) :
    ∃ r s', s.esmEbrSetStatus ebi status ue_requested = some (r, s') ∧ s'.Inv ∧
      MapStep s.map (.setStatus ebi status ue_requested) (.ofBool r) s'.map ∧
      ∀ j ∈ s'.used, j ∈ s.used ∨ 0 ≤ j ∧ j < (ESM_EBR_DATA_SIZE : Int) := by
  unfold esmEbrSetStatus
  by_cases hebi : EbiInRange ebi
  · rw [if_neg (not_not.2 hebi)]
    have hused : ∀ j ∈ (s.touch (ebi - ESM_EBI_MIN)).used, j ∈ s.used ∨ 0 ≤ j ∧
        j < (ESM_EBR_DATA_SIZE : Int) := by
      exact forall_mem_append.2 ⟨fun j hj => .inl hj,
        forall_mem_singleton.2 (.inr (inRange_sub hebi))⟩
    rcases h.contextOf hebi with ⟨hctx, hnone, -⟩ | ⟨ctx, hctx, hsome, -, hid, -⟩
    · rw [hctx]
      refine ⟨false, _, rfl, h.touch _, .kept fun old hold => ?_, hused⟩
      rw [hnone] at hold
      cases hold
    · rw [hctx]
      simp only [map_some]
      by_cases hset : status ≠ .stateMax ∧ status ≠ ctx.status
      · rw [if_pos hset]
        refine ⟨true, _, rfl, ⟨h.index, ?_⟩, ?_, hused⟩
        · have hnew : (EbrSlot.held { ctx with status }).Sound (ebi - ESM_EBI_MIN) :=
            ⟨by simp only; omega, hset.1⟩
          exact ((h.touch _).put hnew).sound
        · show MapStep _ _ _ ((s.touch (ebi - ESM_EBI_MIN)).put (ebi - ESM_EBI_MIN)
              (.held { ctx with status })).map
          rw [map_put hebi]
          exact .changed hsome hset.1 hset.2
      · rw [if_neg hset]
        refine ⟨false, _, rfl, h.touch _, .kept fun old hold => ?_, hused⟩
        rw [hsome] at hold
        cases hold
        simpa only [not_and_or, not_not] using hset
  · rw [if_pos hebi]
    refine ⟨false, s, rfl, h, .kept fun old hold => ?_, fun j hj => .inl hj⟩
    rw [map, if_neg hebi] at hold
    cases hold

theorem Inv.release (h : s.Inv) (ebi : Int) (hheld : s.map ebi ≠ some .inactive) :
    ∃ s', s.esmEbrRelease ebi = some (false, s') ∧ s'.Inv ∧ s'.map = s.map ∧
      ∀ j ∈ s'.used, j ∈ s.used ∨ 0 ≤ j ∧ j < (ESM_EBR_DATA_SIZE : Int) := by
  unfold esmEbrRelease
  by_cases hebi : EbiInRange ebi
  · rw [if_neg (not_not.2 hebi)]
    refine ⟨s.touch (ebi - ESM_EBI_MIN), ?_, h.touch _, rfl, fun j hj => ?_⟩
    · rcases h.contextOf hebi with ⟨hctx, -⟩ | ⟨ctx, hctx, hsome, -⟩
      · rw [hctx]
        rfl
      · rw [hctx, map_some]
        have hactive : ctx.status ≠ .inactive := fun heq => hheld (heq ▸ hsome)
        simp only [if_pos hactive]
    · rcases mem_append.1 hj with hj | hj
      · exact .inl hj
      · rw [mem_singleton.1 hj]
        exact .inr (inRange_sub hebi)
  · rw [if_pos hebi]
    exact ⟨s, rfl, h, rfl, fun j hj => .inl hj⟩

end EbrData

/-! ## Runs -/

/-- A release is of an identity that has no inactive context, so that none is freed. -/
def NoneFreed (u : EbrUse) : EbrCall → Prop
  | .release ebi => u.data.map ebi ≠ some .inactive
  | _ => True

instance (u : EbrUse) (c : EbrCall) : Decidable (NoneFreed u c) := by
  cases c <;> unfold NoneFreed <;> infer_instance

/-- An assignment names the identity it asks for. -/
def EbrCall.Named : EbrCall → Prop
  | .assign ebi .. => EbiInRange ebi
  | _ => True

namespace EbrData

variable {s s' : EbrData} {ebi : Int}

theorem Inv.call (h : s.Inv) {u : EbrUse} (hu : u.data = s) (c : EbrCall) (hc : NoneFreed u c) :
    ∃ r s', s.call c = some (r, s') ∧ s'.Inv ∧ MapStep s.map c r s'.map ∧
      (c.Named → ∀ j ∈ s'.used, j ∈ s.used ∨ 0 ≤ j ∧ j < (ESM_EBR_DATA_SIZE : Int)) := by
  cases c with
  | assign ebi cid default_ebr mem =>
    obtain ⟨hinv, hstep, hused⟩ := h.assign ebi cid default_ebr mem
    refine ⟨_, _, rfl, hinv, hstep, fun hnamed j hj => ?_⟩
    rcases hused j hj with hj | rfl | hj
    · exact .inl hj
    · exact .inr (inRange_sub hnamed)
    · exact .inr hj
  | setStatus ebi status ue_requested =>
    obtain ⟨r, s', hr, hinv, hstep, hused⟩ := h.setStatus ebi status ue_requested
    exact ⟨.ofBool r, s', by rw [EbrData.call, hr]; rfl, hinv, hstep, fun _ => hused⟩
  | release ebi =>
    have hheld : s.map ebi ≠ some .inactive := hu ▸ hc
    obtain ⟨s', hr, hinv, hmap, hused⟩ := h.release ebi hheld
    refine ⟨.error, s', by rw [EbrData.call, hr]; rfl, hinv, ?_, fun _ => hused⟩
    rw [hmap]
    exact .held hheld

end EbrData

open EbrData

variable {u t : EbrUse} {es : List EbrCall}

theorem ebrStep_eq_some {c : EbrCall} (h : ebrStep u c = some t) :
    ∃ r s', u.data.call c = some (r, s') ∧ t = ⟨s', u.log ++ [(c, r)]⟩ := by
  obtain ⟨⟨r, s'⟩, hr, rfl⟩ := map_eq_some_iff.1 h
  exact ⟨r, s', hr, rfl⟩

theorem log_calls (h : run ebrStep u es = some t) :
    t.log.map Prod.fst = u.log.map Prod.fst ++ es := by
  induction es generalizing u with
  | nil =>
    cases h
    simp
  | cons c es ih =>
    obtain ⟨v, hv, hrun⟩ := run_cons.1 h
    obtain ⟨r, s', -, rfl⟩ := ebrStep_eq_some hv
    rw [ih hrun]
    simp

/-- What the calls keep, for as long as none of them frees a context. -/
structure EbrUse.Good (u : EbrUse) : Prop where
  inv : u.data.Inv
  map : IsMap u.log u.data.map
  used : (∀ p ∈ u.log, p.1.Named) → ∀ j ∈ u.data.used, 0 ≤ j ∧ j < (ESM_EBR_DATA_SIZE : Int)

theorem good_init (beside : Int → EbrSlot) : EbrUse.Good ⟨esmEbrInitialize beside, []⟩ where
  inv := inv_init beside
  map := by
    rw [map_init]
    exact .nil
  used _ j hj := by cases hj

/-- A call that frees no context is one of the map. -/
theorem EbrUse.Good.step (h : u.Good) (c : EbrCall)
    (hc : NoneFreed u c) : ∃ v, ebrStep u c = some v ∧ v.Good := by
  obtain ⟨r, s', hr, hinv, hstep, hused⟩ := h.inv.call rfl c hc
  refine ⟨_, by rw [ebrStep, hr]; rfl, hinv, .snoc h.map hstep, fun hnamed j hj => ?_⟩
  have hall := forall_mem_append.1 hnamed
  rcases hused (hall.2 (c, r) (mem_singleton.2 rfl)) j hj with hj | hj
  · exact h.used hall.1 j hj
  · exact hj

/-- The table is a map: its calls return what those of the map return, an identity is assigned if
one is free, the status and the use are those of the map, and calls that name their identities stay
inside the table. -/
structure EbrTable (u : EbrUse) : Prop where
  map : IsMap u.log u.data.map
  free : (∃ ebi, u.data.map.Free ebi) → ∀ cid default_ebr,
    u.data.map.Free (u.data.esmEbrAssign ESM_EBI_UNASSIGNED cid default_ebr true).1
  status : ∀ ebi, u.data.esmEbrGetStatus ebi = some ((u.data.map ebi).getD .inactive)
  not_in_use : ∀ ebi, EbiInRange ebi → u.data.esmEbrIsNotInUse ebi = some (u.data.map ebi).isNone
  inside : (∀ p ∈ u.log, p.1.Named) → ∀ j ∈ u.data.used, 0 ≤ j ∧ j < (ESM_EBR_DATA_SIZE : Int)

theorem EbrUse.Good.table (h : u.Good) : EbrTable u where
  map := h.map
  free := by
    rintro ⟨ebi, hfree⟩ cid default_ebr
    obtain ⟨-, hstep, -⟩ := h.inv.assign ESM_EBI_UNASSIGNED cid default_ebr true
    generalize u.data.esmEbrAssign ESM_EBI_UNASSIGNED cid default_ebr true = r at hstep
    generalize hm : r.2.map = m at hstep
    generalize hr : r.1 = ebi' at hstep ⊢
    cases hstep with
    | assigned _ hfree' => exact hfree'
    | refused hnone => exact absurd hfree (hnone rfl ebi (.inl rfl))
  status ebi := by
    unfold esmEbrGetStatus
    by_cases hebi : EbiInRange ebi
    · rw [if_neg (not_not.2 hebi)]
      rcases h.inv.contextOf hebi with ⟨hctx, hnone, -⟩ | ⟨ctx, hctx, hsome, -⟩
      · rw [hctx, hnone]
        rfl
      · rw [hctx, hsome]
        rfl
    · rw [if_pos hebi, EbrData.map, if_neg hebi]
      rfl
  not_in_use ebi hebi := by
    have hne : ebi ≠ ESM_EBI_UNASSIGNED := by
      rintro rfl
      exact absurd hebi (by decide)
    rw [esmEbrIsNotInUse, if_neg hne]
    rcases h.inv.contextOf hebi with ⟨hctx, hnone, -⟩ | ⟨ctx, hctx, hsome, -⟩
    · rw [hctx, hnone]
      rfl
    · rw [hctx, hsome]
      rfl
  inside := h.used

/-- As long as no context is freed the table is a map, whatever the memory beside it holds. -/
theorem the_identities_are_a_map (beside : Int → EbrSlot) (es : List EbrCall)
    (h : Meets ebrStep NoneFreed ⟨esmEbrInitialize beside, []⟩ es) :
    ∃ t, run ebrStep ⟨esmEbrInitialize beside, []⟩ es = some t ∧ t.log.map Prod.fst = es ∧
      EbrTable t := by
  obtain ⟨t, ht, hgood⟩ :=
    run_survives (fun u c hu hc => EbrUse.Good.step hu c hc) (good_init beside) h
  exact ⟨t, ht, log_calls ht, hgood.table⟩

def twoIdentities : List EbrCall :=
  [.assign 5 1 true true, .assign 0 1 false true, .setStatus 5 .active true, .release 5, .release 9]

theorem twoIdentities_map : Meets ebrStep NoneFreed ⟨esmEbrInitialize fun _ => .null,
    []⟩ twoIdentities ∧
    ∃ t, run ebrStep ⟨esmEbrInitialize fun _ => .null, []⟩ twoIdentities = some t ∧
      t.log.map Prod.fst = twoIdentities ∧ EbrTable t := by
  have hmeets : Meets ebrStep NoneFreed ⟨esmEbrInitialize fun _ => .null, []⟩ twoIdentities := by
    decide +kernel
  exact ⟨hmeets, the_identities_are_a_map (fun _ => .null) twoIdentities hmeets⟩

theorem IsMap.snoc_inv {log : List (EbrCall × EbrResult)} {c : EbrCall} {r : EbrResult}
    {m' : EbrMap} (h : IsMap (log ++ [(c, r)]) m') : ∃ m, IsMap log m ∧ MapStep m c r m' := by
  generalize hl : log ++ [(c, r)] = l at h
  cases h with
  | nil => simp at hl
  | snoc hmap hstep =>
    obtain ⟨rfl, hlast⟩ := append_inj' hl rfl
    cases hlast
    exact ⟨_, hmap, hstep⟩

/-- An identity that is released and then refused: no map does this. -/
def refusedAgain : List EbrCall := [.assign 5 1 true true, .release 5, .assign 5 1 true true]

def releasedTwice : List EbrCall := [.assign 5 1 true true, .release 5, .release 5]

/-- A released identity is not assigned again and a second release frees its context twice. The
first search for a free identity reads before the table, and an identity that is assigned and
inactive is in use. -/
theorem the_identities_are_no_map :
    (∃ t, run ebrStep ⟨esmEbrInitialize fun _ => .null, []⟩ refusedAgain = some t ∧
      t.log.map Prod.snd = [.ebi 5, .ok, .ebi 0] ∧ ∀ m, ¬ IsMap t.log m) ∧
    run ebrStep ⟨esmEbrInitialize fun _ => .null, []⟩ releasedTwice = none ∧
      (∃ t, run ebrStep ⟨esmEbrInitialize fun _ => .null, []⟩ [.assign 0 1 true true] = some t ∧
      -5 ∈ t.data.used ∧
      t.data.esmEbrGetStatus 5 = some .inactive ∧ t.data.esmEbrIsNotInUse 5 = some false) := by
  have hfreed : (run ebrStep ⟨esmEbrInitialize fun _ => .null, []⟩ releasedTwice).isNone := by
    decide +kernel
  obtain ⟨t, ht, hlog⟩ : ∃ t, run ebrStep ⟨esmEbrInitialize fun _ => .null, []⟩ refusedAgain =
      some t ∧
      t.log = [] ++ [(.assign 5 1 true true, .ebi 5)] ++ [(.release 5, .ok)] ++
        [(.assign 5 1 true true, .ebi 0)] :=
    run_decided (by decide +kernel)
  refine ⟨⟨t, ht, by rw [hlog]; rfl, fun m hm => ?_⟩, isNone_iff_eq_none.1 hfreed,
    run_decided (by decide +kernel)⟩
  rw [hlog] at hm
  obtain ⟨m2, hm, hlast⟩ := hm.snoc_inv
  obtain ⟨m1, -, hrel⟩ := hm.snoc_inv
  -- after the release the identity is free, and an assignment that names it is not refused
  cases hrel with
  | released =>
    cases hlast with
    | assigned _ hfree => exact absurd hfree.1 (by decide)
    | refused hnone => exact hnone rfl 5 (.inr rfl) ⟨by decide, update_self ..⟩

end MacRlcSplit.Nas
