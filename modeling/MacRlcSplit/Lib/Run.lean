-- Runs of a system given by a partial step function, and the rule that
-- carries an invariant from one step to a whole run. A step that gives
-- `none` is one the process does not survive.
import Mathlib.Algebra.Group.Int.Defs
import Mathlib.Algebra.GroupWithZero.Nat
import Mathlib.Data.Option.Basic
import Mathlib.Tactic.Common

open List Option

namespace MacRlcSplit.Lib

variable {σ ε : Type}

/-! ## Runs -/

/-- The state after a list of events, when every step survives. -/
def run (step : σ → ε → Option σ) : σ → List ε → Option σ
  | s, [] => some s
  | s, e :: es => (step s e).bind fun s' => run step s' es

/-- Every step of the run starts in a state that meets the condition for its event. -/
def Meets (step : σ → ε → Option σ) (C : σ → ε → Prop) : σ → List ε → Prop
  | _, [] => True
  | s, e :: es => C s e ∧ ∀ s' ∈ step s e, Meets step C s' es

instance Meets.decidable (step : σ → ε → Option σ) (C : σ → ε → Prop)
    [∀ s e, Decidable (C s e)] : ∀ s es, Decidable (Meets step C s es)
  | _, [] => isTrue trivial
  | s, e :: es =>
    have : ∀ s', Decidable (Meets step C s' es) := fun s' => Meets.decidable step C s' es
    inferInstanceAs (Decidable (C s e ∧ ∀ s' ∈ step s e, Meets step C s' es))

variable {step : σ → ε → Option σ}

theorem meets_of_forall {C : ε → Prop} {es : List ε} (h : ∀ e ∈ es, C e) (s : σ) :
    Meets step (fun _ e => C e) s es := by
  induction es generalizing s with
  | nil => trivial
  | cons e es ih =>
    rw [forall_mem_cons] at h
    exact ⟨h.1, fun s' _ => ih h.2 s'⟩

theorem Meets.and {C D : σ → ε → Prop} {s : σ} {es : List ε} (hC : Meets step C s es)
    (hD : Meets step D s es) : Meets step (fun s e => C s e ∧ D s e) s es := by
  induction es generalizing s with
  | nil => trivial
  | cons e es ih => exact ⟨⟨hC.1, hD.1⟩, fun s' hs' => ih (hC.2 s' hs') (hD.2 s' hs')⟩

theorem run_cons {s t : σ} {e : ε} {es : List ε} :
    run step s (e :: es) = some t ↔ ∃ u, step s e = some u ∧ run step u es = some t := by
  simp [run, bind_eq_some_iff]

theorem run_append {s t : σ} {es fs : List ε} :
    run step s (es ++ fs) = some t ↔ ∃ u, run step s es = some u ∧ run step u fs = some t := by
  induction es generalizing s with
  | nil => simp [run]
  | cons e es ih =>
    simp only [cons_append, run_cons, ih]
    constructor
    · rintro ⟨u, hu, v, hv, ht⟩
      exact ⟨v, ⟨u, hu, hv⟩, ht⟩
    · rintro ⟨v, ⟨u, hu, hv⟩, ht⟩
      exact ⟨u, hu, v, hv, ht⟩

theorem meets_append {C : σ → ε → Prop} {s : σ} {es fs : List ε} :
    Meets step C s (es ++ fs) ↔ Meets step C s es ∧ ∀ t, run step s es = some t →
    Meets step C t fs := by
  induction es generalizing s with
  | nil => simp [Meets, run]
  | cons e es ih =>
    simp only [cons_append, Meets, ih, run_cons, and_assoc]
    constructor
    · rintro ⟨hC, h⟩
      exact ⟨hC, fun u hu => (h u hu).1, fun t ⟨u, hu, ht⟩ => (h u hu).2 t ht⟩
    · rintro ⟨hC, hes, hfs⟩
      exact ⟨hC, fun u hu => ⟨hes u hu, fun t ht => hfs t ⟨u, hu, ht⟩⟩⟩

theorem run_total (h : ∀ s e, ∃ t, step s e = some t) (s : σ)
    (es : List ε) : ∃ t, run step s es = some t := by
  induction es generalizing s with
  | nil => exact ⟨s, rfl⟩
  | cons e es ih =>
    obtain ⟨t, ht⟩ := h s e
    obtain ⟨u, hu⟩ := ih t
    exact ⟨u, run_cons.2 ⟨t, ht, hu⟩⟩

theorem run_decided {s : σ} {es : List ε} {P : σ → Prop} [DecidablePred P]
    (h : (run step s es).any (fun t => decide (P t)) = true) :
    ∃ t, run step s es = some t ∧ P t := by
  cases hrun : run step s es with
  | none =>
    rw [hrun] at h
    cases h
  | some t =>
    rw [hrun] at h
    exact ⟨t, rfl, of_decide_eq_true h⟩

/-! ## Invariants -/

variable {C : σ → ε → Prop} {P : σ → Prop}

/-- What holds at the start and is kept by every step that meets the condition holds
after every run whose steps all meet it. -/
theorem run_invariant (keep : ∀ s e t, P s → C s e → step s e = some t → P t) {s t : σ}
    {es : List ε} (start : P s) (meets : Meets step C s es) (h : run step s es = some t) : P t := by
  induction es generalizing s with
  | nil =>
    cases h
    exact start
  | cons e es ih =>
    obtain ⟨u, hu, hrun⟩ := run_cons.1 h
    exact ih (keep s e u start meets.1 hu) (meets.2 u hu) hrun

theorem run_survives (keep : ∀ s e, P s → C s e → ∃ t, step s e = some t ∧ P t) {s : σ}
    {es : List ε} (start : P s)
    (meets : Meets step C s es) : ∃ t, run step s es = some t ∧ P t := by
  induction es generalizing s with
  | nil => exact ⟨s, rfl, start⟩
  | cons e es ih =>
    obtain ⟨u, hu, hP⟩ := keep s e start meets.1
    obtain ⟨t, ht, hPt⟩ := ih hP (meets.2 u hu)
    exact ⟨t, run_cons.2 ⟨u, hu, ht⟩, hPt⟩

theorem run_always (keep : ∀ s e t, P s → step s e = some t → P t) {s t : σ} {es : List ε}
    (start : P s) (h : run step s es = some t) : P t :=
  run_invariant (fun s e t hs _ => keep s e t hs) start
    (meets_of_forall (fun _ _ => trivial) s) h

/-- A condition that follows from the invariant is met along every run that keeps it. -/
theorem Meets.along {D : σ → ε → Prop} {s : σ} {es : List ε} (meets : Meets step C s es)
    (keep : ∀ s e t, P s → C s e → step s e = some t → P t) (holds : ∀ s e, P s → C s e → D s e)
    (start : P s) : Meets step D s es := by
  induction es generalizing s with
  | nil => trivial
  | cons e es ih => exact ⟨holds s e start meets.1, fun u hu =>
      ih (meets.2 u hu) (keep s e u start meets.1 hu)⟩

/-- Two conditions that say the same wherever the invariant holds are met by the same runs. -/
theorem meets_iff {D : σ → ε → Prop} (same : ∀ s e, P s → (C s e ↔ D s e))
    (keep : ∀ s e t, P s → C s e → step s e = some t → P t) {s : σ} {es : List ε} (start : P s) :
    Meets step C s es ↔ Meets step D s es := by
  induction es generalizing s with
  | nil => exact Iff.rfl
  | cons e es ih =>
    rw [Meets, Meets, ← same s e start]
    exact and_congr_right fun hC => forall₂_congr fun u hu => ih (keep s e u start hC hu)

/-! ## Loops -/

variable {f : σ → ε → Option σ}

theorem foldlM_keeps {xs : List ε} (keep : ∀ s t, ∀ x ∈ xs, P s → f s x = some t → P t) {s t : σ}
    (start : P s) (h : xs.foldlM f s = some t) : P t := by
  induction xs generalizing s with
  | nil =>
    cases h
    exact start
  | cons x xs ih =>
    obtain ⟨u, hu, hrest⟩ := bind_eq_some_iff.1 h
    exact ih (fun s t y hy => keep s t y (mem_cons_of_mem _ hy)) (keep s u x mem_cons_self start hu)
      hrest

theorem foldlM_all {Q : ε → Prop} {xs : List ε} {s t : σ} (h : xs.foldlM f s = some t)
    (turn : ∀ s x t, f s x = some t → Q x) : ∀ x ∈ xs, Q x := by
  induction xs generalizing s with
  | nil => nofun
  | cons x xs ih =>
    obtain ⟨u, hu, hrest⟩ := bind_eq_some_iff.1 h
    rw [forall_mem_cons]
    exact ⟨turn s x u hu, ih hrest⟩

theorem foldlM_reaches {R : σ → Prop} {Q : ε → Prop}
    (keep : ∀ s t x, P s → f s x = some t → P t ∧ (R s ∨ Q x → R t)) {xs : List ε} {s t : σ}
    (start : P s) (h : xs.foldlM f s = some t) :
    P t ∧ (R s ∨ (∃ x ∈ xs, Q x) → R t) := by
  induction xs generalizing s with
  | nil =>
    cases h
    exact ⟨start, fun hs => hs.resolve_right fun ⟨_, hx, _⟩ => by cases hx⟩
  | cons x xs ih =>
    obtain ⟨u, hu, hrest⟩ := bind_eq_some_iff.1 h
    obtain ⟨hPu, hRu⟩ := keep s u x start hu
    obtain ⟨hPt, hRt⟩ := ih hPu hrest
    refine ⟨hPt, fun hs => hRt ?_⟩
    rcases hs with hs | ⟨y, hy, hQ⟩
    · exact .inl (hRu (.inl hs))
    · rcases mem_cons.1 hy with rfl | hy
      · exact .inl (hRu (.inr hQ))
      · exact .inr ⟨y, hy, hQ⟩

end MacRlcSplit.Lib
