-- Ordered trees with unique keys, such as a red-black tree, given by the list
-- of their elements in order.
import Mathlib.Algebra.Group.Int.Defs
import Mathlib.Algebra.GroupWithZero.Nat
import Mathlib.Data.List.Nodup

open List

namespace MacRlcSplit.Lib

structure Tree (α : Type) (key : α → Nat) where
  elems : List α
  sorted : elems.Pairwise fun a b => key a < key b

namespace Tree

variable {α : Type} {key : α → Nat}

/-- The list with one more element, unless there is one with its key. -/
def insertList (key : α → Nat) (a : α) : List α → List α
  | [] => [a]
  | b :: l => if key a < key b then a :: b :: l else if key a =
    key b then b :: l else b :: insertList key a l

theorem mem_of_mem_insertList {a b : α} {l : List α}
    (h : b ∈ insertList key a l) : b = a ∨ b ∈ l := by
  induction l with
  | nil => simpa [insertList] using h
  | cons c l ih =>
    unfold insertList at h
    split at h
    · simpa using h
    split at h
    · exact .inr h
    · rcases mem_cons.1 h with rfl | h
      · exact .inr mem_cons_self
      · rcases ih h with rfl | h
        · exact .inl rfl
        · exact .inr (mem_cons_of_mem c h)

theorem insertList_sorted (a : α) {l : List α} (h : l.Pairwise fun a b => key a < key b) :
    (insertList key a l).Pairwise fun a b => key a < key b := by
  induction l with
  | nil => exact pairwise_singleton _ a
  | cons b l ih =>
    obtain ⟨hb, hl⟩ := pairwise_cons.1 h
    unfold insertList
    split
    · rename_i hlt
      refine pairwise_cons.2 ⟨fun c hc => ?_, h⟩
      rcases mem_cons.1 hc with rfl | hc
      · exact hlt
      · exact Nat.lt_trans hlt (hb c hc)
    · split
      · exact h
      · refine pairwise_cons.2 ⟨fun c hc => ?_, ih hl⟩
        rcases mem_of_mem_insertList hc with rfl | hc
        · omega
        · exact hb c hc

theorem insertList_perm {a : α} {l : List α} (h : ∀ b ∈ l, key b ≠ key a) :
    (insertList key a l).Perm (a :: l) := by
  induction l with
  | nil => exact List.Perm.refl _
  | cons b l ih =>
    rw [forall_mem_cons] at h
    unfold insertList
    split
    · exact List.Perm.refl _
    · rw [if_neg (Ne.symm h.1)]
      exact ((ih h.2).cons b).trans (List.Perm.swap a b l)

/-! ## The operations -/

def empty : Tree α key := ⟨[], List.Pairwise.nil⟩

def find (t : Tree α key) (k : Nat) : Option α := t.elems.find? fun a => key a == k

def insert (t : Tree α key) (a : α) : Tree α key :=
  ⟨insertList key a t.elems, insertList_sorted a t.sorted⟩

def remove (t : Tree α key) (k : Nat) : Tree α key :=
  ⟨t.elems.filter fun a => key a != k, t.sorted.filter _⟩

variable {t : Tree α key} {a b : α} {k : Nat}

@[simp] theorem elems_empty : (empty : Tree α key).elems = [] := rfl

theorem nodup_keys (t : Tree α key) : (t.elems.map key).Nodup :=
  (pairwise_map.2 t.sorted).imp Nat.ne_of_lt

theorem eq_of_key_eq (ha : a ∈ t.elems) (hb : b ∈ t.elems) (h : key a = key b) : a = b :=
  inj_on_of_nodup_map t.nodup_keys ha hb h

theorem find_eq_some : t.find k = some a ↔ a ∈ t.elems ∧ key a = k := by
  constructor
  · intro h
    exact ⟨mem_of_find?_eq_some h, by simpa using find?_some h⟩
  rintro ⟨ha, rfl⟩
  cases h : t.find (key a) with
  | none =>
    have := find?_eq_none.1 h a ha
    simp at this
  | some b =>
    have hb := mem_of_find?_eq_some h
    have hkey : key b = key a := by simpa using find?_some h
    rw [eq_of_key_eq hb ha hkey]

theorem find_eq_none : t.find k = none ↔ ∀ a ∈ t.elems, key a ≠ k := by
  simp [find, find?_eq_none]

theorem insert_perm (h : t.find (key a) = none) : (t.insert a).elems.Perm (a :: t.elems) :=
  insertList_perm (find_eq_none.1 h)

theorem mem_remove : b ∈ (t.remove k).elems ↔ b ∈ t.elems ∧ key b ≠ k := by
  simp [remove]

theorem find_remove (t : Tree α key) (k k' : Nat) :
    (t.remove k).find k' = if k' = k then none else t.find k' := by
  by_cases hk : k' = k
  · rw [if_pos hk, find_eq_none, hk]
    exact fun a ha => (mem_remove.1 ha).2
  rw [if_neg hk]
  ext b
  rw [find_eq_some, find_eq_some, mem_remove]
  constructor
  · rintro ⟨⟨hb, -⟩, hkey⟩
    exact ⟨hb, hkey⟩
  · rintro ⟨hb, hkey⟩
    exact ⟨⟨hb, hkey ▸ hk⟩, hkey⟩

theorem remove_perm (ha : a ∈ t.elems) : t.elems.Perm (a :: (t.remove (key a)).elems) := by
  have hnodup := t.nodup_keys.of_map key
  rw [perm_ext_iff_of_nodup hnodup]
  · intro b
    rw [mem_cons, mem_remove]
    constructor
    · intro hb
      by_cases hkey : key b = key a
      · exact .inl (eq_of_key_eq hb ha hkey)
      · exact .inr ⟨hb, hkey⟩
    · rintro (rfl | ⟨hb, -⟩)
      · exact ha
      · exact hb
  · exact nodup_cons.2 ⟨fun h => (mem_remove.1 h).2 rfl, (t.remove (key a)).nodup_keys.of_map key⟩

end Tree

end MacRlcSplit.Lib
