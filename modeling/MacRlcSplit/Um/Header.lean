-- The LIs of a UMD PDU on the air, two in three bytes: what the fill loop
-- writes, `rlc_um_read_length_indicators` reads back.
import MacRlcSplit.Am.Memory
import MacRlcSplit.Am.Segment
import MacRlcSplit.Um.Receiver

namespace MacRlcSplit.Um

open Am List

/-! ## Places -/

/-- How many bytes the LI after `t` others takes. -/
def liLen (t : Nat) : Nat := if t % 2 = 0 then 2 else 1

/-- How many bytes `n` LIs take. -/
def liBytes (n : Nat) : Nat := (n * 3 + 1) / 2

theorem liBytes_succ (t : Nat) : liBytes (t + 1) = liBytes t + liLen t := by
  unfold liBytes liLen
  split <;> omega

theorem liLen_succ (t : Nat) : liLen (t + 1) = 3 - liLen t := by
  unfold liLen
  split <;> split <;> omega

variable {m m' : Mem} {base t v r : Nat} {more last : Bool}

/-- The LI after `t` others, `more` being its E bit: it takes the bytes `b1` and half of `b2` of an
`rlc_um_e_li_t`, or the other half and `b3`. -/
def LiAt (m : Mem) (base t v : Nat) (more : Bool) : Prop :=
  if t % 2 = 0 then
    (m (base + 3 * (t / 2))).toNat = (if more then 128 else 0) + v / 16 ∧
      (m (base + 3 * (t / 2) + 1)).toNat / 16 = v % 16
  else
    (m (base + 3 * (t / 2) + 1)).toNat % 16 = (if more then 8 else 0) + v / 256 ∧
      (m (base + 3 * (t / 2) + 2)).toNat = v % 256

/-- The LIs from the one after `t` others on. -/
def LisAt (m : Mem) (base : Nat) : Nat → List Nat → Prop
  | _, [] => True
  | t, l :: ls => LiAt m base t l (!ls.isEmpty) ∧ LisAt m base (t + 1) ls

theorem liAt_congr (h : ∀ k, base ≤ k → k < base + liBytes (t + 1) → m' k = m k)
    (li : LiAt m base t v more) : LiAt m' base t v more := by
  unfold liBytes at h
  unfold LiAt at li ⊢
  split at li
  · next heven =>
    rw [if_pos heven, h _ (by omega) (by omega), h _ (by omega) (by omega)]
    exact li
  · next hodd =>
    rw [if_neg hodd, h _ (by omega) (by omega), h _ (by omega) (by omega)]
    exact li

theorem lisAt_congr {lis : List Nat}
    (h : ∀ k, base ≤ k → k < base + liBytes (t + lis.length) → m' k = m k)
    (lisAt : LisAt m base t lis) : LisAt m' base t lis := by
  induction lis generalizing t with
  | nil => trivial
  | cons l ls ih =>
    rw [length_cons] at h
    refine ⟨liAt_congr (fun k hk hk' => h k hk ?_) lisAt.1, ih (fun k hk hk' => h k hk ?_) lisAt.2⟩
    all_goals
      unfold liBytes at hk' ⊢
      omega

/-! ## Reading -/

theorem readLengthIndicators_eq {n j : Nat} {lis : List Nat} (hne : lis ≠ [])
    (few : lis.length < 2 * n) (small : ∀ l ∈ lis, l < 2048) (lisAt : LisAt m base (2 * j) lis) :
    readLengthIndicators m n (base + 3 * j) = some lis := by
  induction n generalizing j lis with
  | zero => omega
  | succ n ih =>
    obtain ⟨l₁, ls, rfl⟩ := exists_cons_of_ne_nil hne
    obtain ⟨li₁, lisAt⟩ := lisAt
    have hl₁ := small l₁ mem_cons_self
    simp only [LiAt, Nat.mul_mod_right, if_true, Nat.mul_div_cancel_left j (Nat.succ_pos 1)] at li₁
    have hv₁ : (m (base + 3 * j)).toNat % 128 * 16 + (m (base + 3 * j + 1)).toNat / 16 = l₁ := by
      cases ls <;> simp at li₁ <;> omega
    unfold readLengthIndicators
    simp only [hv₁]
    cases ls with
    | nil =>
      simp at li₁
      rw [if_pos (by omega)]
    | cons l₂ ls =>
      obtain ⟨li₂, lisAt⟩ := lisAt
      have hl₂ := small l₂ (by simp)
      have hodd : (2 * j + 1) % 2 ≠ 0 := by omega
      have hhalf : (2 * j + 1) / 2 = j := by omega
      simp only [LiAt, if_neg hodd, hhalf] at li₂
      have hv₂ : (m (base + 3 * j + 1)).toNat % 8 * 256 + (m (base + 3 * j + 2)).toNat = l₂ := by
        cases ls <;> simp at li₂ <;> omega
      simp at li₁ few
      simp only [hv₂]
      rw [if_neg (by omega), if_neg (by omega)]
      cases ls with
      | nil =>
        simp at li₂
        rw [if_pos (by omega)]
      | cons l₃ ls =>
        simp at li₂ few
        have hnext := ih (j := j + 1) (cons_ne_nil l₃ ls) (by simp; omega)
          (fun l hl => small l (by simp at hl ⊢; tauto)) lisAt
        rw [if_neg (by omega), add_assoc, show 3 * j + 3 = 3 * (j + 1) by omega, hnext]
        rfl

/-! ## Writing -/

theorem writeLi_two (m : Mem) (e_li : Nat) (last : Bool) (hr : r < 2048) :
    (writeLi m e_li 2 r last e_li).toNat = (if last then 0 else 128) + r / 16 ∧
      (writeLi m e_li 2 r last (e_li + 1)).toNat = r % 16 * 16 := by
  have or_add : ∀ x < 128, 128 ||| x = 128 + x := by decide
  have hsmall : r / 16 % 256 = r / 16 := Nat.mod_eq_of_lt (by omega)
  rw [writeLi, if_pos rfl, set_other (by omega), set_self, set_self, UInt8.toNat_or,
    UInt8.toNat_ofNat', UInt8.toNat_ofNat', hsmall]
  refine ⟨?_, by omega⟩
  cases last with
  | true => simp
  | false => exact or_add (r / 16) (by omega)

theorem writeLi_one {e_li : Nat} (last : Bool) (hr : r < 2048)
    (clear : (m (e_li + 1)).toNat % 16 = 0) :
    (writeLi m e_li 1 r last (e_li + 1)).toNat =
      (m (e_li + 1)).toNat + ((if last then 0 else 8) + r / 256) ∧
      (writeLi m e_li 1 r last (e_li + 2)).toNat = r % 256 := by
  have or_add : ∀ k < 16, ∀ e ∈ [0, 8], ∀ x < 8, 16 * k ||| e ||| x = 16 * k + (e + x) := by decide
  have hsmall : r / 256 % 256 = r / 256 := Nat.mod_eq_of_lt (by omega)
  have hbyte : (m (e_li + 1)).toNat < 256 := UInt8.toNat_lt _
  have hhigh : 16 * ((m (e_li + 1)).toNat / 16) = (m (e_li + 1)).toNat := by omega
  rw [writeLi, if_neg (by decide), set_other (by omega), set_self, set_self, UInt8.toNat_or,
    UInt8.toNat_or, UInt8.toNat_ofNat', hsmall]
  refine ⟨?_, rfl⟩
  rw [← hhigh]
  cases last with
  | true => exact or_add _ (by omega) 0 (by decide) _ (by omega)
  | false => exact or_add _ (by omega) 8 (by decide) _ (by omega)

/-- Nothing is written before the LI, but for its half of a byte, or after it. -/
theorem writeLi_outside (r : Nat) (last : Bool) {k : Nat}
    (h : k < base + 3 * (t / 2) + t % 2 ∨ base + liBytes (t + 1) ≤ k) :
    writeLi m (base + 3 * (t / 2)) (liLen t) r last k = m k := by
  unfold liBytes at h
  unfold writeLi liLen
  split
  · rw [if_pos rfl, set_other (by omega), set_other (by omega)]
  · rw [if_neg (by decide), set_other (by omega), set_other (by omega)]

/-- The half of a byte that the next LI needs is clear. -/
def HalfClear (m : Mem) (base t : Nat) : Prop := t % 2 = 1 →
    (m (base + 3 * (t / 2) + 1)).toNat % 16 = 0

theorem writeLi_liAt (hr : r < 2048) (clear : HalfClear m base t) :
    LiAt (writeLi m (base + 3 * (t / 2)) (liLen t) r last) base t r (!last) := by
  unfold LiAt liLen
  split
  · obtain ⟨hb1, hb2⟩ := writeLi_two m (base + 3 * (t / 2)) last hr
    rw [hb1]
    exact ⟨by cases last <;> rfl, by omega⟩
  · next hodd =>
    have clear := clear (by omega)
    obtain ⟨hb2, hb3⟩ := writeLi_one last hr clear
    rw [hb2, hb3]
    refine ⟨?_, rfl⟩
    cases last <;> simp <;> omega

theorem writeLi_halfClear (hr : r < 2048) :
    HalfClear (writeLi m (base + 3 * (t / 2)) (liLen t) r last) base (t + 1) := by
  intro hodd
  have heven : t % 2 = 0 := by omega
  have hhalf : (t + 1) / 2 = t / 2 := by omega
  rw [hhalf, liLen, if_pos heven, (writeLi_two _ _ _ hr).2]
  omega

/-- The LIs before keep what they say: the one that shares a byte with the new LI has the other
half of it. -/
theorem writeLi_keeps {t' : Nat} (hr : r < 2048) (ht : t' < t) (clear : HalfClear m base t)
    (li : LiAt m base t' v more) :
    LiAt (writeLi m (base + 3 * (t / 2)) (liLen t) r last) base t' v more := by
  by_cases hshared : t' % 2 = 0 ∧ t = t' + 1
  · obtain ⟨heven, rfl⟩ := hshared
    have hodd : (t' + 1) % 2 ≠ 0 := by omega
    have hhalf : (t' + 1) / 2 = t' / 2 := by omega
    have clear := clear (by omega)
    rw [hhalf] at clear ⊢
    have hb1 : writeLi m (base + 3 * ((t' + 1) / 2)) (liLen (t' + 1)) r last (base + 3 * (t' / 2)) =
        m (base + 3 * (t' / 2)) := writeLi_outside r last (Or.inl (by omega))
    have hb2 := (writeLi_one last hr clear).1
    rw [liLen, if_neg hodd, hhalf] at hb1
    rw [liLen, if_neg hodd]
    simp only [LiAt, if_pos heven] at li ⊢
    rw [hb1, hb2]
    refine ⟨li.1, ?_⟩
    cases last <;> simp <;> omega
  · have same : ∀ k, k < base + 3 * (t / 2) + t % 2 →
        writeLi m (base + 3 * (t / 2)) (liLen t) r last k = m k := fun k hk =>
      writeLi_outside r last (Or.inl hk)
    unfold LiAt at li ⊢
    split at li
    · next heven =>
      rw [if_pos heven, same _ (by omega), same _ (by omega)]
      exact li
    · next hodd =>
      rw [if_neg hodd, same _ (by omega), same _ (by omega)]
      exact li

end MacRlcSplit.Um
