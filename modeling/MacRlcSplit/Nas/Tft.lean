-- The check of a new traffic flow template against those of a PDN connection,
-- `esm_ebr_context_check_tft`, and the filters that it compares.
import MacRlcSplit.Nas.Esm

open List

namespace MacRlcSplit.Nas

/-! ## The functions -/

/-- `esm_ebr_context_tft_t`. -/
inductive EsmEbrContextTft where
  | create | delete | addPacket | replacePacket | deletePacket
deriving DecidableEq, Repr

/-- The two loops of both checks. Each turn of the inner one compares the filters at the place of
the outer one. -/
def checkPkfs (field : NetworkPkf → Nat) (tft1 tft2 : List NetworkPkf) : Option Bool :=
  (List.range tft1.length).allM fun i => (List.range tft2.length).allM fun _ => do
    return field (← tft1[i]?) != field (← tft2[i]?)

def esmEbrContextCheckIdentifiers := checkPkfs (·.id)

def esmEbrContextCheckPrecedence := checkPkfs (·.precedence)

/-- The two checks at one bearer. -/
def EsmBearer.check (ebr : EsmBearer) (ebi : Nat) (tft : List NetworkPkf) : Option Bool :=
  (if ebr.ebi = ebi then esmEbrContextCheckIdentifiers tft ebr.tft else some true).bind fun rc =>
    if rc then esmEbrContextCheckPrecedence tft ebr.tft else some false

/-- The loop over the bearers, with `rc`. -/
def EsmPdn.checkBearers (pdn : EsmPdn) (ebi : Nat)
    (tft : List NetworkPkf) : List Nat → Bool → Option Bool
  | [], rc => some rc
  | i :: is, rc =>
    (pdn.bearerAt i).bind fun
      | none => pdn.checkBearers ebi tft is rc
      | some ebr => (ebr.check ebi tft).bind fun rc =>
          if rc then pdn.checkBearers ebi tft is true else some false

/-- `esm_ebr_context_check_tft`, with true for `RETURNok`. -/
def EsmData.esmEbrContextCheckTft (s : EsmData) (pid ebi : Nat) (tft : List NetworkPkf)
    (operation : EsmEbrContextTft) : Option Bool :=
  if pid < ESM_DATA_PDN_MAX ∧ pid = (s.pdn pid).pid ∧ operation = .create then
    match (s.pdn pid).data with
    | none => some false
    | some pdn => pdn.checkBearers ebi tft (List.range pdn.n_bearers.toNat) false
  else some false

/-! ## What it compares -/

/-- One of the pairs has two filters that must not stand beside each other. -/
def Clash (ebi : Nat) (ebr : EsmBearer) (pairs : List (NetworkPkf × NetworkPkf)) : Prop :=
  ∃ p ∈ pairs, ebr.ebi = ebi ∧ p.1.id = p.2.id ∨ p.1.precedence = p.2.precedence

/-- The template is in conflict with that of a bearer of the connection. -/
def EsmPdn.Conflict (pdn : EsmPdn) (ebi : Nat) (tft : List NetworkPkf) : Prop :=
  ∃ bid, ∃ ebr ∈ pdn.bearer bid, Clash ebi ebr (tft.product ebr.tft)

/-- Every filter of the new template has one at its place, or there is none to compare with. -/
def Covers (tft2 tft1 : List NetworkPkf) : Prop := tft2 = [] ∨ tft1.length ≤ tft2.length

/-- The checks read only filters of the bearer, and see no conflict. -/
def EsmBearer.Passes (ebr : EsmBearer) (ebi : Nat) (tft : List NetworkPkf) : Prop :=
  Covers ebr.tft tft ∧ ¬ Clash ebi ebr (tft.zip ebr.tft)

/-- The checks see filters with the same identifier or precedence at equal places. The precedences
are only looked at behind identifiers that were compared to the end. -/
def EsmBearer.Stops (ebr : EsmBearer) (ebi : Nat) (tft : List NetworkPkf) : Prop :=
  (ebr.ebi = ebi ∧ ∃ p ∈ tft.zip ebr.tft, p.1.id = p.2.id) ∨
    (ebr.ebi = ebi → Covers ebr.tft tft) ∧ ∃ p ∈ tft.zip ebr.tft, p.1.precedence = p.2.precedence

/-- The first bearer, in the order of the slots, that does not pass stops the check. -/
def EsmPdn.SeesConflict (pdn : EsmPdn) (ebi : Nat) (tft : List NetworkPkf) : Prop :=
  ∃ i, i < pdn.n_bearers.toNat ∧ i < ESM_DATA_EPS_BEARER_MAX ∧
    (∃ ebr ∈ pdn.bearer i, ebr.Stops ebi tft) ∧ ∀ j < i, ∀ ebr ∈ pdn.bearer j, ebr.Passes ebi tft

/-- All bearers pass. -/
def EsmPdn.AllPass (pdn : EsmPdn) (ebi : Nat) (tft : List NetworkPkf) : Prop :=
  pdn.n_bearers.toNat ≤ ESM_DATA_EPS_BEARER_MAX ∧
    ∀ i < pdn.n_bearers.toNat, ∀ ebr ∈ pdn.bearer i, ebr.Passes ebi tft

/-! ## The loops -/

theorem allM_const (c : Option Bool) {l : List Nat} (h : l ≠ []) : (l.allM fun _ => c) = c := by
  induction l with
  | nil => exact absurd rfl h
  | cons x l ih =>
    rcases c with _ | _ | _
    · rfl
    · rfl
    · cases l with
      | nil => rfl
      | cons y l => exact ih (cons_ne_nil y l)

theorem allM_range' {f : Nat → Option Bool} (a n : Nat) :
    ((range' a n).allM f = some true ↔ ∀ i, a ≤ i → i < a + n → f i = some true) ∧
      ((range' a n).allM f = some false ↔
        ∃ i, a ≤ i ∧ i < a + n ∧ f i = some false ∧ ∀ j, a ≤ j → j < i → f j = some true) := by
  induction n generalizing a with
  | zero => exact ⟨by simp; grind, by simp; grind⟩
  | succ n ih =>
    obtain ⟨htrue, hfalse⟩ := ih (a + 1)
    rw [range'_succ, allM]
    rcases hf : f a with _ | _ | _
    · simp
      grind
    · simp
      grind
    · simp
      grind

variable {tft tft2 : List NetworkPkf}

/-- The filters at place `i` have the same value of `field`. -/
def SameAt (field : NetworkPkf → Nat) (tft tft2 : List NetworkPkf) (i : Nat) : Prop :=
  ∃ a ∈ tft[i]?, ∃ b ∈ tft2[i]?, field a = field b

theorem exists_mem_zip {field : NetworkPkf → Nat} :
    (∃ p ∈ tft.zip tft2, field p.1 = field p.2) ↔ ∃ i, SameAt field tft tft2 i := by
  constructor
  · rintro ⟨p, hp, hfield⟩
    obtain ⟨i, hi⟩ := mem_iff_getElem?.1 hp
    obtain ⟨ha, hb⟩ := getElem?_zip_eq_some.1 hi
    exact ⟨i, p.1, ha, p.2, hb, hfield⟩
  · rintro ⟨i, a, ha, b, hb, hfield⟩
    exact ⟨(a, b), mem_of_getElem? (getElem?_zip_eq_some.2 ⟨ha, hb⟩), hfield⟩

/-- One turn of the two loops reads both templates at the same place. -/
theorem turn_iff {field : NetworkPkf → Nat} {i : Nat} (hi : i < tft.length) :
    ((do return field (← tft[i]?) != field (← tft2[i]?)) = some true ↔
        i < tft2.length ∧ ¬ SameAt field tft tft2 i) ∧
      ((do return field (← tft[i]?) != field (← tft2[i]?)) = some false ↔
        SameAt field tft tft2 i) := by
  by_cases hi2 : i < tft2.length
  · simp [SameAt, getElem?_eq_getElem hi, hi2]
  · simp [SameAt, getElem?_eq_getElem hi, hi2]

theorem checkPkfs_iff (tft tft2 : List NetworkPkf) (field : NetworkPkf → Nat) :
    (checkPkfs field tft tft2 = some true ↔
        Covers tft2 tft ∧ ¬ ∃ p ∈ tft.zip tft2, field p.1 = field p.2) ∧
      (checkPkfs field tft tft2 = some false ↔ ∃ p ∈ tft.zip tft2, field p.1 = field p.2) := by
  obtain ⟨htrue, hfalse⟩ := allM_range' (f := fun i => (List.range tft2.length).allM fun _ => do
    return field (← tft[i]?) != field (← tft2[i]?)) 0 tft.length
  rw [← range_eq_range', ← checkPkfs] at htrue hfalse
  rw [htrue, hfalse, exists_mem_zip]
  simp only [Nat.zero_le, Nat.zero_add, forall_const, true_and]
  by_cases hempty : tft2 = []
  · subst hempty
    simp [Covers, SameAt]
  have hne : List.range tft2.length ≠ [] := by simpa using hempty
  have hsame {i : Nat} (h : SameAt field tft tft2 i) : i < tft.length ∧ i < tft2.length := by
    obtain ⟨a, ha, b, hb, -⟩ := h
    exact ⟨(List.getElem?_eq_some_iff.1 ha).1, (List.getElem?_eq_some_iff.1 hb).1⟩
  simp only [allM_const _ hne]
  constructor
  · constructor
    · intro h
      refine ⟨.inr ?_, fun ⟨i, hi⟩ => ((turn_iff (hsame hi).1).1.1 (h i (hsame hi).1)).2 hi⟩
      by_contra hlt
      exact absurd ((turn_iff (by omega)).1.1 (h tft2.length (by omega))).1 (lt_irrefl _)
    · rintro ⟨hcovers, hno⟩ i hi
      exact (turn_iff hi).1.2 ⟨hi.trans_le (hcovers.resolve_left hempty), fun h => hno ⟨i, h⟩⟩
  · constructor
    · rintro ⟨i, hi, h, -⟩
      exact ⟨i, (turn_iff hi).2.1 h⟩
    · intro hex
      -- the loops stop at the first place with the same value
      classical
      obtain ⟨hi, hi2⟩ := hsame (Nat.find_spec hex)
      refine ⟨Nat.find hex, hi, (turn_iff hi).2.2 (Nat.find_spec hex), fun j hj => ?_⟩
      exact (turn_iff (hj.trans hi)).1.2 ⟨hj.trans hi2, Nat.find_min hex hj⟩

theorem EsmBearer.check_iff (ebr : EsmBearer) (ebi : Nat) (tft : List NetworkPkf) :
    (ebr.check ebi tft = some true ↔ ebr.Passes ebi tft) ∧
      (ebr.check ebi tft = some false ↔ ebr.Stops ebi tft) := by
  obtain ⟨hid, hid'⟩ := checkPkfs_iff tft ebr.tft (·.id)
  obtain ⟨hprec, hprec'⟩ := checkPkfs_iff tft ebr.tft (·.precedence)
  have hclash : Clash ebi ebr (tft.zip ebr.tft) ↔
      (ebr.ebi = ebi ∧ ∃ p ∈ tft.zip ebr.tft, p.1.id = p.2.id) ∨
        ∃ p ∈ tft.zip ebr.tft, p.1.precedence = p.2.precedence := by
    grind [Clash]
  simp only [check, esmEbrContextCheckIdentifiers, esmEbrContextCheckPrecedence, Passes, Stops,
    hclash]
  by_cases hebi : ebr.ebi = ebi
  · rcases hids : checkPkfs (·.id) tft ebr.tft with _ | _ | _
    · simp_all
      tauto
    · simp_all
    · simp_all
  · simp_all

/-- The loop from slot `a` on stops at the first bearer that does not pass. -/
theorem EsmPdn.checkBearers_iff (pdn : EsmPdn) (ebi : Nat) (tft : List NetworkPkf) (a n : Nat)
    (rc : Bool) : (pdn.checkBearers ebi tft (range' a n) rc = some true ↔
        (∀ i, a ≤ i → i < a + n → i < ESM_DATA_EPS_BEARER_MAX ∧ ∀ ebr ∈ pdn.bearer i,
          ebr.Passes ebi tft) ∧ (rc = true ∨ ∃ i, a ≤ i ∧ i < a + n ∧ pdn.bearer i ≠ none)) ∧
      (pdn.checkBearers ebi tft (range' a n) rc = some false ↔
        (∃ i, a ≤ i ∧ i < a + n ∧ i < ESM_DATA_EPS_BEARER_MAX ∧
          (∃ ebr ∈ pdn.bearer i, ebr.Stops ebi tft) ∧
          ∀ j, a ≤ j → j < i → ∀ ebr ∈ pdn.bearer j, ebr.Passes ebi tft) ∨
        rc = false ∧ ∀ i, a ≤ i → i < a + n → i < ESM_DATA_EPS_BEARER_MAX ∧
        pdn.bearer i = none) := by
  induction n generalizing a rc with
  | zero =>
    simp only [range'_zero, checkBearers]
    cases rc <;> simp <;> grind
  | succ n ih =>
    rw [range'_succ, checkBearers, bearerAt]
    by_cases ha : a < ESM_DATA_EPS_BEARER_MAX
    · rw [if_pos ha, Option.bind_some]
      rcases hbearer : pdn.bearer a with _ | ebr
      · obtain ⟨htrue, hfalse⟩ := ih (a + 1) rc
        simp only [htrue, hfalse]
        grind
      obtain ⟨htrue, hfalse⟩ := ih (a + 1) true
      obtain ⟨hpasses, hstops⟩ := ebr.check_iff ebi tft
      rcases hcheck : ebr.check ebi tft with _ | _ | _
      · simp [hcheck]
        grind
      · simp [hcheck]
        grind
      · simp [hcheck, htrue, hfalse]
        grind
    · rw [if_neg ha]
      constructor
      · simp only [Option.bind_none, reduceCtorEq, false_iff, not_and]
        exact fun h => absurd (h a le_rfl (by omega)).1 ha
      · simp only [Option.bind_none, reduceCtorEq, false_iff]
        rintro (⟨i, hi, _, hmax, _⟩ | ⟨_, h⟩)
        · omega
        · exact ha (h a le_rfl (by omega)).1

/-- What is seen at equal places is a conflict. -/
theorem EsmPdn.SeesConflict.conflict {pdn : EsmPdn} {ebi : Nat} (h : pdn.SeesConflict ebi tft) :
    pdn.Conflict ebi tft := by
  obtain ⟨i, _, _, ⟨ebr, hebr, hstops⟩, _⟩ := h
  have hpair {p : NetworkPkf × NetworkPkf} (hp : p ∈ tft.zip ebr.tft) : p ∈ tft.product ebr.tft :=
    pair_mem_product.2 (of_mem_zip hp)
  rcases hstops with ⟨hebi, p, hp, hid⟩ | ⟨_, p, hp, hprec⟩
  · exact ⟨i, ebr, hebr, p, hpair hp, .inl ⟨hebi, hid⟩⟩
  · exact ⟨i, ebr, hebr, p, hpair hp, .inr hprec⟩

/-- A template is checked rightly, and within the templates, if and only if the first bearer that
does not pass shows a conflict at an equal place, or all bearers pass and there is no conflict at
all; without any bearer the check fails. -/
theorem the_template_check_sees_equal_places {s : EsmData} {pdn : EsmPdn} {pid ebi : Nat}
    {active : Bool} (hpid : pid < ESM_DATA_PDN_MAX) (hentry : s.pdn pid = ⟨pid, active, some pdn⟩) :
    (∃ ok, s.esmEbrContextCheckTft pid ebi tft .create = some ok ∧
      (ok = false ↔ pdn.Conflict ebi tft)) ↔ pdn.SeesConflict ebi tft ∨ pdn.AllPass ebi tft ∧
        ((∃ i < pdn.n_bearers.toNat, pdn.bearer i ≠ none) ↔ ¬ pdn.Conflict ebi tft) := by
  have hcheck : s.esmEbrContextCheckTft pid ebi tft .create =
      pdn.checkBearers ebi tft (range' 0 pdn.n_bearers.toNat) false := by
    rw [EsmData.esmEbrContextCheckTft, hentry, if_pos ⟨hpid, rfl, rfl⟩]
    exact congrArg (pdn.checkBearers ebi tft · false) range_eq_range'
  obtain ⟨htrue, hfalse⟩ := pdn.checkBearers_iff ebi tft 0 pdn.n_bearers.toNat false
  simp only [Nat.zero_le, Nat.zero_add, forall_const, true_and, Bool.false_eq_true, false_or]
    at htrue hfalse
  rw [hcheck]
  constructor
  · rintro ⟨ok, hok, hright⟩
    cases ok with
    | true =>
      obtain ⟨hall, hex⟩ := htrue.1 hok
      refine .inr ⟨⟨?_, fun i hi => (hall i hi).2⟩, ?_⟩
      · by_contra hmax
        exact absurd (hall ESM_DATA_EPS_BEARER_MAX (by omega)).1 (lt_irrefl _)
      · exact iff_of_true hex fun h => Bool.noConfusion (hright.2 h)
    | false =>
      rcases hfalse.1 hok with hsees | hnone
      · exact .inl hsees
      refine .inr ⟨⟨?_, fun i hi ebr hebr => ?_⟩, ?_⟩
      · by_contra hmax
        exact absurd (hnone ESM_DATA_EPS_BEARER_MAX (by omega)).1 (lt_irrefl _)
      · exact absurd hebr (by simp [(hnone i hi).2])
      · exact iff_of_false (fun ⟨i, hi, h⟩ => h (hnone i hi).2) (not_not.2 (hright.1 rfl))
  · rintro (hsees | ⟨⟨hmax, hall⟩, hright⟩)
    · exact ⟨false, hfalse.2 (.inl hsees), iff_of_true rfl hsees.conflict⟩
    by_cases hex : ∃ i < pdn.n_bearers.toNat, pdn.bearer i ≠ none
    · exact ⟨true, htrue.2 ⟨fun i hi => ⟨by omega, hall i hi⟩, hex⟩, by simpa using hright.1 hex⟩
    · push Not at hex
      refine ⟨false, hfalse.2 (.inr fun i hi => ⟨by omega, hex i hi⟩), iff_of_true rfl ?_⟩
      by_contra hno
      obtain ⟨i, hi, h⟩ := hright.2 hno
      exact h (hex i hi)

/-- A filter with an identifier and an evaluation precedence. -/
def pkf (id precedence : Nat) : NetworkPkf := ⟨id, precedence⟩

/-- A connection with a default bearer that has these filters. -/
def withDefault (tft : List NetworkPkf) : EsmData :=
  (((esmMainInitialize.pdnConnectivityCreate 0 false).esmEbrContextCreate 0 5 true (some tft)).map
    Prod.snd).getD {}

theorem one_filter_is_checked : ∃ pdn ∈ ((withDefault [pkf 1 1]).pdn 0).data, ∃ ok,
    (withDefault [pkf 1 1]).esmEbrContextCheckTft 0 6 [pkf 2 1] .create = some ok ∧
      (ok = false ↔ pdn.Conflict 6 [pkf 2 1]) := by
  refine ⟨_, rfl, (the_template_check_sees_equal_places (by decide) rfl).2
    (.inl ⟨0, by decide, by decide, ?_, ?_⟩)⟩
  · exact ⟨_, rfl, .inr ⟨fun h => absurd h (by decide), (pkf 2 1, pkf 1 1), by decide, rfl⟩⟩
  · exact fun j hj => absurd hj (Nat.not_lt_zero j)

/-- The same precedence at two places is not seen, and a longer template is compared with a filter
that does not exist. -/
theorem a_conflict_is_not_seen : (∃ pdn ∈ ((withDefault [pkf 1 1, pkf 2 2]).pdn 0).data,
      pdn.Conflict 6 [pkf 3 2, pkf 4 5]) ∧
    (withDefault [pkf 1 1, pkf 2 2]).esmEbrContextCheckTft 0 6 [pkf 3 2, pkf 4 5] .create =
      some true ∧
    (withDefault [pkf 1 1]).esmEbrContextCheckTft 0 6 [pkf 3 2, pkf 4 5] .create = none :=
  ⟨⟨_, rfl, 0, _, rfl, (pkf 3 2, pkf 2 2), by decide, .inr rfl⟩, by decide⟩

end MacRlcSplit.Nas
