-- Messages sent as one stream of symbols, each of which knows whether it is
-- the first or the last one of its message, and where a front of the stream
-- ends.
import Mathlib.Algebra.Group.Int.Defs
import Mathlib.Algebra.GroupWithZero.Nat
import Mathlib.Data.List.Basic

open List Option

namespace MacRlcSplit.Lib

variable {α : Type}

/-- A symbol of the stream. -/
structure Cell (α : Type) where
  val : α
  first : Bool
  last : Bool
deriving DecidableEq, Repr

/-! ## A piece of one message -/

/-- The symbols of a piece of a message. `first` and `last` say whether the piece starts and
ends where the message does. -/
def mark (first last : Bool) : List α → List (Cell α)
  | [] => []
  | [x] => [⟨x, first, last⟩]
  | x :: y :: l => ⟨x, first, false⟩ :: mark false last (y :: l)

variable {first last : Bool} {l l' : List α}

@[simp] theorem length_mark : (mark first last l).length = l.length := by
  fun_induction mark first last l <;> simp_all

theorem mark_cons (x : α) (hne : l ≠ []) : mark first last (x :: l) =
    ⟨x, first, false⟩ :: mark false last l := by
  cases l with
  | nil => exact absurd rfl hne
  | cons y l => rfl

theorem mark_head (first last : Bool) (x : α) (l : List α) :
    ∃ b cs, mark first last (x :: l) = ⟨x, first, b⟩ :: cs := by
  cases l with
  | nil => exact ⟨last, [], rfl⟩
  | cons y l => exact ⟨false, _, rfl⟩

theorem mark_append (hne : l ≠ []) (hne' : l' ≠ []) :
    mark first last (l ++ l') = mark first false l ++ mark false last l' := by
  induction l generalizing first with
  | nil => exact absurd rfl hne
  | cons x l ih =>
    cases l with
    | nil => exact mark_cons x hne'
    | cons y l =>
      have tail : mark false last (y :: l ++ l') = mark false false (y :: l) ++
          mark false last l' :=
        ih (cons_ne_nil y l)
      rw [cons_append, mark_cons x (by simp), tail]
      rfl

variable {n : Nat} {msgs : List (List α)} {cells : List (Cell α)} {p : List α}

theorem take_mark (h : n < l.length) : (mark first last l).take n =
    mark first false (l.take n) := by
  cases n with
  | zero => rfl
  | succ n =>
    have hsplit : mark first last l = mark first false (l.take (n + 1)) ++
        mark false last (l.drop (n + 1)) := by
      rw [← mark_append, take_append_drop]
      · exact ne_nil_of_length_pos (by rw [length_take]; omega)
      · exact ne_nil_of_length_pos (by rw [length_drop]; omega)
    rw [hsplit, take_left' (by rw [length_mark, length_take]; omega)]

/-! ## Several pieces, by their lengths -/

/-- Pieces of consecutive messages: all but the last piece have their length in a list. -/
def pieces (first last : Bool) : List Nat → List α → List (Cell α)
  | [], l => mark first last l
  | n :: ns, l => mark first true (l.take n) ++ pieces true last ns (l.drop n)

/-! ## Fronts of the stream -/

/-- The stream of a list of messages. -/
def frames (msgs : List (List α)) : List (Cell α) := msgs.flatMap (mark true true)

theorem front_cases (h : cells <+: frames msgs) : ∃ n p,
    cells = frames (msgs.take n) ++ mark true false p ∧
      (p = [] ∨ ∃ m, msgs[n]? = some m ∧ p <+: m ∧ p.length < m.length) := by
  induction msgs generalizing cells with
  | nil =>
    refine ⟨0, [], ?_, .inl rfl⟩
    simpa [frames, mark] using h
  | cons m msgs ih =>
    rw [frames, flatMap_cons] at h
    rcases Nat.lt_or_ge cells.length m.length with hlt | hge
    · refine ⟨0, m.take cells.length, ?_, .inr ⟨m, rfl, take_prefix _ _, ?_⟩⟩
      · have htake : (mark true true m).take cells.length = mark true false (m.take cells.length) :=
          take_mark hlt
        rw [← htake]
        have hcells := prefix_iff_eq_take.1 h
        rw [take_append_of_le_length (by rw [length_mark]; omega)] at hcells
        simpa [frames] using hcells
      · rw [length_take]
        omega
    · obtain ⟨rest, rfl⟩ : mark true true m <+: cells :=
        prefix_of_prefix_length_le (prefix_append _ _) h (by rwa [length_mark])
      obtain ⟨n, p, rfl, hp⟩ := ih ((prefix_append_right_inj _).1 h)
      refine ⟨n + 1, p, ?_, hp⟩
      simp [frames]

/-! ## Positions in the stream -/

/-- The cells are the stream up to `n` messages and the beginning `p` of the next one. -/
structure Position (msgs : List (List α)) (cells : List (Cell α)) (n : Nat)
    (p : List α) : Prop where
  cells : cells = frames (msgs.take n) ++ mark true false p
  le : n ≤ msgs.length
  open_msg : p = [] ∨ ∃ m, msgs[n]? = some m ∧ p <+: m ∧ p.length < m.length

theorem position_of_front (h : cells <+: frames msgs) : ∃ n p, Position msgs cells n p := by
  obtain ⟨n, p, hcells, hp⟩ := front_cases h
  rcases Nat.lt_or_ge msgs.length n with hlt | hle
  · refine ⟨msgs.length, p, ?_, Nat.le_refl _, .inl ?_⟩
    · rw [hcells, take_of_length_le (Nat.le_of_lt hlt), take_length]
    · apply hp.resolve_right
      rintro ⟨m, hm, -⟩
      simp [getElem?_eq_none (Nat.le_of_lt hlt)] at hm
  · exact ⟨n, p, hcells, hle, hp⟩

theorem Position.append (pos : Position msgs cells n p)
    (more : List (List α)) : Position (msgs ++ more) cells n p := by
  refine ⟨?_, ?_, pos.open_msg.imp_right ?_⟩
  · rw [take_append_of_le_length pos.le]
    exact pos.cells
  · rw [length_append]
    exact Nat.le_trans pos.le (Nat.le_add_right _ _)
  · rintro ⟨m, hm, hp⟩
    refine ⟨m, ?_, hp⟩
    rw [getElem?_append_left (List.getElem?_eq_some_iff.1 hm).1, hm]

theorem mark_front {f : Bool} {q : List α} {rest : List (Cell α)} (hl : l ≠ []) (hq : q ≠ [])
    (h : mark first last l <+: mark f true q ++ rest) : l <+: q ∧ first = f ∧ (last ↔ l = q) := by
  induction l generalizing first f q with
  | nil => exact absurd rfl hl
  | cons x l ih =>
    obtain ⟨y, q, rfl⟩ := exists_cons_of_ne_nil hq
    by_cases hl' : l = []
    · subst hl'
      by_cases hq' : q = []
      · subst hq'
        simp only [mark, cons_append, nil_append, cons_prefix_cons, Cell.mk.injEq] at h
        obtain ⟨⟨rfl, rfl, rfl⟩, -⟩ := h
        simp
      · rw [mark_cons y hq'] at h
        simp only [mark, cons_append, cons_prefix_cons, Cell.mk.injEq] at h
        obtain ⟨⟨rfl, rfl, rfl⟩, -⟩ := h
        simp [Ne.symm hq']
    · by_cases hq' : q = []
      · subst hq'
        rw [mark_cons x hl'] at h
        simp [mark] at h
      · rw [mark_cons x hl', mark_cons y hq'] at h
        simp only [cons_append, cons_prefix_cons, Cell.mk.injEq] at h
        obtain ⟨⟨rfl, rfl, -⟩, h⟩ := h
        obtain ⟨hpre, -, hlast⟩ := ih hl' hq' h
        exact ⟨by simpa using hpre, rfl, by simpa using hlast⟩

theorem mark_split (p : List α) (hne : l ≠ []) :
    mark true last (p ++ l) = mark true false p ++ mark p.isEmpty last l := by
  cases p with
  | nil => rfl
  | cons x p => exact mark_append (cons_ne_nil x p) hne

/-- The next piece of the stream goes on with the message that is open. -/
theorem Position.piece (pos : Position msgs cells n p) (hne : ∀ m ∈ msgs, m ≠ []) (hl : l ≠ [])
    (h : cells ++ mark first last l <+: frames msgs) :
    ∃ m, msgs[n]? = some m ∧ p ++ l <+: m ∧ (first ↔ p = []) ∧
      Position msgs (cells ++ mark first last l) (if last then n + 1 else n)
        (if last then [] else p ++ l) ∧ (last → p ++ l = m) := by
  have hsplit : frames msgs = frames (msgs.take n) ++ frames (msgs.drop n) := by
    rw [frames, frames, frames, ← flatMap_append, take_append_drop]
  rw [pos.cells, hsplit, append_assoc, prefix_append_right_inj] at h
  cases hrest : msgs.drop n with
  | nil =>
    obtain ⟨x, l, rfl⟩ := exists_cons_of_ne_nil hl
    obtain ⟨b, cs, hmark⟩ := mark_head first last x l
    rw [hrest, hmark] at h
    simp [frames] at h
  | cons m rest =>
    have hm : msgs[n]? = some m := by rw [← head?_drop, hrest]; rfl
    have hmne : m ≠ [] := hne m (mem_of_getElem? hm)
    have hlt : n < msgs.length := (List.getElem?_eq_some_iff.1 hm).1
    obtain ⟨q, hq, hqne⟩ : ∃ q, m = p ++ q ∧ q ≠ [] := by
      rcases pos.open_msg with rfl | ⟨m', hm', ⟨q, rfl⟩, hlt⟩
      · exact ⟨m, rfl, hmne⟩
      · refine ⟨q, some.inj (hm.symm.trans hm'), ?_⟩
        rintro rfl
        simp at hlt
    have hmark : mark true true m = mark true false p ++ mark p.isEmpty true q := by
      rw [hq]
      exact mark_split p hqne
    rw [hrest, frames, flatMap_cons, hmark, append_assoc, prefix_append_right_inj] at h
    obtain ⟨hpre, hfirst, hlast⟩ := mark_front hl hqne h
    have hbytes : p ++ l <+: m := by
      rw [hq]
      exact (prefix_append_right_inj p).2 hpre
    have hcells : mark true false p ++ mark first last l = mark true last (p ++ l) := by
      rw [mark_split p hl, hfirst]
    refine ⟨m, hm, hbytes, by simp [hfirst], ?_, ?_⟩
    · cases last with
      | true =>
        have htake : msgs.take (n + 1) = msgs.take n ++ [m] := by
          rw [take_add_one, hm]
          rfl
        refine ⟨?_, hlt, .inl rfl⟩
        rw [pos.cells, append_assoc, hcells, hlast.1 rfl, ← hq]
        simp [htake, frames, mark]
      | false =>
        refine ⟨by rw [pos.cells, append_assoc, hcells]; rfl, pos.le, .inr ⟨m, hm, hbytes, ?_⟩⟩
        have hproper : l.length ≠ q.length := fun hlen => by
          simpa using hlast.2 (hpre.eq_of_length hlen)
        have hle := hpre.length_le
        simp only [hq, Bool.false_eq_true, if_false, length_append]
        omega
    · intro hlast'
      rw [hlast.1 hlast', hq]

theorem Position.mono {cells' : List (Cell α)} {n' : Nat} {p' : List α}
    (pos : Position msgs cells n p) (pos' : Position msgs cells' n' p') (hne : ∀ m ∈ msgs, m ≠ [])
    (h : cells <+: cells') : n ≤ n' := by
  by_contra hlt
  rw [Nat.not_le] at hlt
  have hin : n' < msgs.length := Nat.lt_of_lt_of_le hlt pos.le
  have hm : msgs[n']? = some msgs[n'] := getElem?_eq_getElem hin
  have hmsg : p'.length < msgs[n'].length := by
    rcases pos'.open_msg with rfl | ⟨m, hm', -, hlen⟩
    · exact length_pos_iff.2 (hne _ (getElem_mem hin))
    · rwa [some.inj (hm.symm.trans hm')]
  obtain ⟨rest, hrest⟩ : msgs.take (n' + 1) <+: msgs.take n := take_prefix_take_left hlt
  have hframes : frames (msgs.take n) = frames (msgs.take n') ++ mark true true msgs[n'] ++
      frames rest := by
    rw [← hrest, take_add_one, hm]
    simp only [frames, toList_some, flatMap_append, flatMap_cons, flatMap_nil, append_nil]
  have hlen := h.length_le
  rw [pos.cells, pos'.cells, hframes] at hlen
  simp only [length_append, length_mark] at hlen
  omega

end MacRlcSplit.Lib
