-- Tables that hold a value under some keys, as a hash table does: the set of
-- keys they hold, what a loop that fills one leaves alone, and pairs of tables
-- that lead back and forth.
import Mathlib.Algebra.Group.Int.Defs
import Mathlib.Algebra.GroupWithZero.Nat
import Mathlib.Data.Set.Insert
import Mathlib.Tactic.Tauto

open List Option

namespace MacRlcSplit.Lib

open Function

variable {κ α β σ : Type}

def domain (t : κ → Option α) : Set κ := { k | (t k).isSome = true }

theorem mem_domain {t : κ → Option α} {k : κ} : k ∈ domain t ↔ (t k).isSome := Iff.rfl

theorem not_mem_domain {t : κ → Option α} {k : κ} : k ∉ domain t ↔ t k = none := by
  simp [mem_domain]

variable [DecidableEq κ]

theorem domain_insert (t : κ → Option α) (k : κ)
    (a : α) : domain (update t k (some a)) = insert k (domain t) := by
  ext k'
  by_cases h : k' = k
  all_goals simp [mem_domain, h]

theorem domain_erase (t : κ → Option α) (k : κ) : domain (update t k none) = domain t \ {k} := by
  ext k'
  by_cases h : k' = k
  all_goals simp [mem_domain, h]

variable {step : σ → β → Option σ} {l : List β} {s s' : σ}

omit [DecidableEq κ] in
/-- A loop each turn of which fills the keys of its element and touches no other one, unless it
gives up. -/
theorem foldlM_fills (table : σ → κ → Option α) (keys : β → Set κ)
    (turn : ∀ s b s', step s b = some s' →
      domain (table s') = domain (table s) ∪ keys b ∧ ∀ k ∉ keys b, table s' k = table s k)
    (h : l.foldlM step s = some s') :
    domain (table s') = domain (table s) ∪ { k | ∃ b ∈ l, k ∈ keys b } ∧
      ∀ k, (∀ b ∈ l, k ∉ keys b) → table s' k = table s k := by
  induction l generalizing s with
  | nil =>
    cases h
    simp
  | cons b l ih =>
    obtain ⟨s₁, h₁, h⟩ := bind_eq_some_iff.1 h
    obtain ⟨hdom₁, hframe₁⟩ := turn s b s₁ h₁
    obtain ⟨hdom, hframe⟩ := ih h
    constructor
    · rw [hdom, hdom₁]
      ext k
      simp only [Set.mem_union, Set.mem_ofPred_eq, mem_cons, exists_eq_or_imp]
      tauto
    · intro k hk
      rw [hframe k fun b' hb' => hk b' (mem_cons_of_mem b hb')]
      exact hframe₁ k (hk b mem_cons_self)

theorem foldlM_inserts (table : σ → κ → Option α) (key : β → κ)
    (turn : ∀ s b s', step s b = some s' → ∃ a, table s' = update (table s) (key b) (some a))
    (h : l.foldlM step s = some s') :
    domain (table s') = domain (table s) ∪ { k | ∃ b ∈ l, key b = k } ∧
      ∀ k, (∀ b ∈ l, key b ≠ k) → table s' k = table s k := by
  have hfills := foldlM_fills table (fun b => {key b}) (fun s b s' hs => ?_) h
  · simpa only [Set.mem_singleton_iff, eq_comm, ne_eq] using hfills
  · obtain ⟨a, ha⟩ := turn s b s' hs
    rw [ha, domain_insert, Set.union_singleton]
    exact ⟨rfl, fun k hk => update_of_ne hk _ _⟩

theorem foldlM_erases {step : (κ → Option α) → β → Option (κ → Option α)} (key : β → κ)
    (turn : ∀ t b t', step t b = some t' → t' = update t (key b) none) {t t' : κ → Option α}
    (h : l.foldlM step t = some t') :
    domain t' = domain t \ { k | ∃ b ∈ l, key b = k } ∧ ∀ k, (∀ b ∈ l, key b ≠ k) → t' k = t k := by
  induction l generalizing t with
  | nil =>
    cases h
    constructor
    · ext k
      simp
    · intro k _
      rfl
  | cons b l ih =>
    obtain ⟨t₁, h₁, h⟩ := bind_eq_some_iff.1 h
    obtain ⟨hdom, hframe⟩ := ih h
    rw [turn t b t₁ h₁] at hdom hframe
    constructor
    · rw [hdom, domain_erase]
      ext k
      simp only [Set.mem_sdiff, Set.mem_singleton_iff, Set.mem_ofPred_eq, mem_cons,
        exists_eq_or_imp, not_or, eq_comm (a := k)]
      tauto
    · intro k hk
      rw [hframe k (fun b' hb' => hk b' (mem_cons_of_mem b hb'))]
      exact update_of_ne (Ne.symm (hk b mem_cons_self)) _ _

theorem foldl_erases (key : β → κ) (l : List β) (t : κ → Option α) :
    domain (l.foldl (fun t b => update t (key b) none) t) = domain t \ { k | ∃ b ∈ l, key b = k } ∧
      ∀ k, (∀ b ∈ l, key b ≠ k) → l.foldl (fun t b => update t (key b) none) t k = t k := by
  have hrun : l.foldlM (fun t b => some (update t (key b) none)) t =
      some (l.foldl (fun t b => update t (key b) none) t) := foldlM_pure
  exact foldlM_erases key (fun t b t' ht => (some.inj ht).symm) hrun

/-! ## Inverse tables -/

/-- Each of the two tables has what the other one leads to. -/
def Inverse (t : κ → Option α) (u : α → Option κ) : Prop := ∀ k a, t k = some a ↔ u a = some k

variable [DecidableEq α] {t : κ → Option α} {u : α → Option κ} {k : κ} {a : α}

theorem Inverse.insert (h : Inverse t u) (hk : t k = none) (ha : u a = none) :
    Inverse (update t k (some a)) (update u a (some k)) := by
  intro k' a'
  by_cases hk' : k' = k
  · subst hk'
    by_cases ha' : a' = a
    · simp [ha']
    · have hno : u a' ≠ some k' := fun h' => by
        rw [← h, hk] at h'
        cases h'
      simp [Ne.symm ha', update_of_ne ha', hno]
  · rw [update_of_ne hk']
    by_cases ha' : a' = a
    · have hno : t k' ≠ some a := fun h' => by
        rw [h, ha] at h'
        cases h'
      simp [ha', hno, Ne.symm hk']
    · rw [update_of_ne ha', h]

theorem Inverse.erase (h : Inverse t u) (ha : u a = some k) :
    Inverse (update t k none) (update u a none) := by
  intro k' a'
  by_cases hk' : k' = k
  · subst hk'
    by_cases ha' : a' = a
    · simp [ha']
    · have hno : u a' ≠ some k' := fun h' => by
        have hsame := ((h k' a').2 h').symm.trans ((h k' a).2 ha)
        exact ha' (some.inj hsame)
      simp [update_of_ne ha', hno]
  · rw [update_of_ne hk']
    by_cases ha' : a' = a
    · have hno : t k' ≠ some a := fun h' => by
        rw [h, ha] at h'
        exact hk' (some.inj h').symm
      simp [ha', hno]
    · rw [update_of_ne ha', h]

end MacRlcSplit.Lib
