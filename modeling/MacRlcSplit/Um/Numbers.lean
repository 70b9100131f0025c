-- The receiver in numbers that do not wrap. An SN is the residue of such a
-- number. While a PDU is near VR(UH), the window tests of the code compare
-- the numbers, and `rlc_um_try_reassembly` visits one after the other.
import MacRlcSplit.Lib.Window
import MacRlcSplit.Um.System

namespace MacRlcSplit.Um

open Lib Function Option
open Am (Ctxt Timer MacTbInd)

variable {rx rx' : Rx} {ur uh i a b : Nat} {buf : Nat → Option MacTbInd}

/-- Half of the SNs, which is UM_Window_Size unless the bearer is an MBMS one. -/
def Rx.half (rx : Rx) : Nat := rx.cfg.rx_sn_length.windowSize

theorem sizes (rx : Rx) : rx.modulo = 2 * rx.half ∧ 16 ≤ rx.half ∧
    (rx.windowSize = 0 ∨ rx.windowSize = rx.half) := by
  unfold Rx.modulo Rx.half Rx.windowSize
  cases rx.cfg.is_mxch <;> cases rx.cfg.rx_sn_length <;> simp [SnLength.modulo, SnLength.windowSize]

/-! ## The window tests -/

section Tests

variable (top : rx.vr_uh = uh % rx.modulo)
include top

theorem fromEdge_within (low : uh ≤ i + rx.windowSize) (high : i ≤ uh) :
    rx.fromEdge (i % rx.modulo : Nat) = (i + rx.windowSize : Nat) - (uh : Int) := by
  have := sizes rx
  rw [Rx.fromEdge, top]
  exact tmod_within (by omega) low high

theorem fromEdge_ahead (low : uh < i) (high : i + rx.windowSize < uh + rx.modulo) :
    rx.fromEdge (i % rx.modulo : Nat) = (i + rx.windowSize : Nat) - (uh : Int) ∨
      rx.fromEdge (i % rx.modulo : Nat) = (i + rx.windowSize : Nat) - (uh : Int) - rx.modulo := by
  rw [Rx.fromEdge, top]
  exact tmod_ahead low high

theorem inReorderingWindow_iff (low : uh ≤ i + rx.windowSize)
    (high : i + rx.windowSize < uh + rx.modulo) :
    rlcUmInReorderingWindow rx (i % rx.modulo) ↔ i < uh := by
  unfold rlcUmInReorderingWindow
  simp only [Bool.and_eq_true, decide_eq_true_eq]
  rcases Nat.lt_or_ge uh i with hlt | hle
  · rcases fromEdge_ahead top hlt high with heq | heq <;> omega
  · have := fromEdge_within top low hle
    omega

/-- What has fallen out of the window stands, as an SN, for a number one turn ahead. -/
theorem fell_out (low : i + rx.windowSize < uh) (high : uh ≤ i + rx.modulo) :
    ¬rlcUmInReorderingWindow rx (i % rx.modulo) := by
  rw [← Nat.add_mod_right, inReorderingWindow_iff top (by omega) (by omega)]
  omega

theorem old_iff (hlow : uh ≤ ur + rx.windowSize) (hhigh : ur ≤ uh) (low : uh ≤ i + rx.windowSize)
    (high : i + rx.windowSize < uh + rx.modulo) :
    (rlcUmInWindow rx ((rx.vr_uh : Int) - rx.windowSize) (i % rx.modulo : Nat)
      (ur % rx.modulo : Nat) = .atLower ∨
      rlcUmInWindow rx ((rx.vr_uh : Int) - rx.windowSize) (i % rx.modulo : Nat)
        (ur % rx.modulo : Nat) = .inside) ↔ i < ur := by
  have hedge : rx.fromEdge ((rx.vr_uh : Int) - rx.windowSize) = 0 := by simp [Rx.fromEdge]
  have hur := fromEdge_within top hlow hhigh
  unfold rlcUmInWindow
  rcases Nat.lt_or_ge uh i with hlt | hle
  · rcases fromEdge_ahead top hlt high with heq | heq <;> rw [heq] <;> split_ifs <;> simp <;> omega
  · rw [fromEdge_within top low hle]
    split_ifs <;> simp <;> omega

/-- VR(UX) is not after VR(UR), except where both are VR(UH). -/
theorem passed_iff (hlow : uh ≤ ur + rx.windowSize) (hhigh : ur ≤ uh) (low : uh ≤ i + rx.windowSize)
    (high : i ≤ uh) :
    (rlcUmInWindow rx (ur % rx.modulo : Nat) (i % rx.modulo : Nat) (uh % rx.modulo : Nat) =
      .belowLower ∨
      rlcUmInWindow rx (ur % rx.modulo : Nat) (i % rx.modulo : Nat) (uh % rx.modulo : Nat) =
        .atLower) ↔ i < ur ∨ (i = ur ∧ ur < uh) := by
  have hur := fromEdge_within top hlow hhigh
  have huh := fromEdge_within top (Nat.le_add_right uh _) (Nat.le_refl uh)
  unfold rlcUmInWindow
  rw [fromEdge_within top low high]
  split_ifs <;> simp <;> omega

end Tests

/-! ## Slots -/

/-- The slots of the numbers from `a` on hold what `buf` says. -/
def Slots (rx : Rx) (a b : Nat) (buf : Nat → Option MacTbInd) : Prop :=
  ∀ k, a ≤ k → k < b → rx.dar_buffer (k % rx.modulo) = buf k

/-- The visits to `n` numbers from `a` on. -/
def visitAll (cfg : Config) (buf : Nat → Option MacTbInd) : Nat → Nat → Output → Option Output
  | _, 0, o => some o
  | a, n + 1, o =>
    (visitSlot cfg o (a % cfg.rx_sn_length.modulo) (buf a)).bind (visitAll cfg buf (a + 1) n)

theorem visitAll_add {cfg : Config} {n m : Nat} {o : Output} :
    visitAll cfg buf a (n + m) o = (visitAll cfg buf a n o).bind (visitAll cfg buf (a + n) m) := by
  induction n generalizing a o with
  | zero => simp [visitAll]
  | succ n ih =>
    rw [Nat.succ_add, visitAll, visitAll, bind_assoc]
    congr
    funext o
    rw [ih, add_assoc, add_comm 1 n]

/-! ## Visits -/

/-- The receiver after some visits. -/
def Rx.after (rx : Rx) (o : Output) (d : Nat → Option MacTbInd) : Rx :=
  { rx with out := o, dar_buffer := d }

section After

variable {o : Output} {d : Nat → Option MacTbInd}

@[simp] theorem after_cfg : (rx.after o d).cfg = rx.cfg := rfl
@[simp] theorem after_vr_uh : (rx.after o d).vr_uh = rx.vr_uh := rfl
@[simp] theorem after_out : (rx.after o d).out = o := rfl
@[simp] theorem after_dar_buffer : (rx.after o d).dar_buffer = d := rfl
@[simp] theorem after_modulo : (rx.after o d).modulo = rx.modulo := rfl
@[simp] theorem after_windowSize : (rx.after o d).windowSize = rx.windowSize := rfl

end After

variable {sn fuel : Nat} {ctxt : Ctxt}

theorem visitSn_eq (h : visitSn rx sn = some rx') : ∃ o,
    visitSlot rx.cfg rx.out sn (rx.dar_buffer sn) = some o ∧
      rx' = rx.after o (update rx.dar_buffer sn none) := by
  obtain ⟨o, ho, rfl⟩ := map_eq_some_iff.1 h
  exact ⟨o, ho, rfl⟩

theorem visitUntil_visits {c : Nat} (slots : Slots rx a c buf) (hab : a < b) (hbc : b ≤ c)
    (turn : c ≤ a + rx.modulo) (top : rx.vr_uh = uh % rx.modulo) (hb : b ≤ uh)
    (hturn : uh ≤ a + rx.modulo)
    (h : visitUntil (b % rx.modulo) fuel (a % rx.modulo) rx = some rx') :
    ∃ o d, visitAll rx.cfg buf a (b - a) rx.out = some o ∧ rx' = rx.after o d ∧
      (∀ k, a ≤ k → k < b → d (k % rx.modulo) = none) ∧
      ∀ sn, (∀ k, a ≤ k → k < b → k % rx.modulo ≠ sn) → d sn = rx.dar_buffer sn := by
  induction fuel generalizing a rx with
  | zero => cases h
  | succ fuel ih =>
    obtain ⟨rx₁, h₁, h⟩ := bind_eq_some_iff.1 h
    obtain ⟨o, ho, rfl⟩ := visitSn_eq h₁
    rw [slots a (Nat.le_refl a) (by omega)] at ho
    obtain ⟨n, hn⟩ : ∃ n, b - a = n + 1 := ⟨b - a - 1, by omega⟩
    have hvisit : visitAll rx.cfg buf a (b - a) rx.out = visitAll rx.cfg buf (a + 1) n o := by
      rw [hn]
      exact congrArg (Option.bind · _) ho
    simp only [after_modulo, after_vr_uh, Nat.mod_add_mod] at h
    rw [hvisit]
    by_cases hlast : a + 1 = b
    · rw [if_pos (.inr (by rw [hlast]))] at h
      cases h
      obtain rfl : n = 0 := by omega
      refine ⟨o, _, rfl, rfl, ?_, ?_⟩
      · intro k hk hk'
        obtain rfl : k = a := by omega
        simp
      · intro sn hsn
        exact update_of_ne (hsn a (Nat.le_refl a) hab).symm _ _
    · -- neither VR(UH) nor the end is met before a whole turn
      have hgo : ¬((a + 1) % rx.modulo = rx.vr_uh ∨ (a + 1) % rx.modulo = b % rx.modulo) := by
        rw [top]
        rintro (heq | heq)
        all_goals exact residue_ne (by omega) (by omega) heq
      rw [if_neg hgo] at h
      have apart : ∀ k, a + 1 ≤ k → k < c → k % rx.modulo ≠ a % rx.modulo :=
        fun k hk hk' => (residue_ne hk (by omega)).symm
      have slots' : Slots (rx.after o (update rx.dar_buffer (a % rx.modulo) none)) (a + 1) c
          buf := by
        intro k hk hk'
        simp only [after_dar_buffer, after_modulo, update_of_ne (apart k hk hk')]
        exact slots k (by omega) hk'
      obtain ⟨o', d, hall, rfl, hnone, hsame⟩ :=
        ih slots' (by omega) (by simp; omega) top (by simp; omega) h
      refine ⟨o', d, ?_, rfl, ?_, ?_⟩
      · rwa [show b - (a + 1) = n by omega] at hall
      · intro k hk hk'
        by_cases hka : k = a
        · rw [hka, hsame (a % rx.modulo) fun j hj hj' => apart j hj (by omega)]
          simp
        · exact hnone k (by omega) hk'
      · intro sn hsn
        rw [hsame sn fun k hk hk' => hsn k (by omega) hk']
        exact update_of_ne (hsn a (Nat.le_refl a) hab).symm _ _

/-- `rlc_um_try_reassembly` from VR(UR) visits the numbers up to its end, and leaves the slots
from there on. -/
theorem tryReassembly_visits (slots : Slots rx ur (ur + rx.modulo) buf) (hab : ur ≤ b)
    (hlt : b < ur + rx.modulo) (top : rx.vr_uh = uh % rx.modulo) (hb : b ≤ uh)
    (hturn : uh ≤ ur + rx.modulo) (empty : ∀ k, uh ≤ k → buf k = none)
    (h : rlcUmTryReassembly rx (ur % rx.modulo) (b % rx.modulo) = some rx') :
    ∃ o d, visitAll rx.cfg buf ur (b - ur) rx.out = some o ∧ rx' = rx.after o d ∧
      Slots rx' b (b + rx.modulo) buf ∧ ∀ sn, rx.modulo ≤ sn → d sn = rx.dar_buffer sn := by
  unfold rlcUmTryReassembly at h
  by_cases heq : ur = b
  · rw [if_pos (by rw [heq])] at h
    cases h
    refine ⟨rx.out, rx.dar_buffer, by simp [heq, visitAll], rfl, ?_, fun _ _ => rfl⟩
    intro k hk hk'
    exact slots k (by omega) (by omega)
  · have hne : ur % rx.modulo ≠ b % rx.modulo := residue_ne (by omega) hlt
    rw [if_neg hne] at h
    obtain ⟨o, d, hall, rfl, hnone, hsame⟩ :=
      visitUntil_visits slots (by omega) (Nat.le_of_lt hlt) (Nat.le_refl _) top hb hturn h
    refine ⟨o, d, hall, rfl, ?_, fun sn hsn => hsame sn fun k hk hk' => ?_⟩
    swap
    · have := Nat.mod_lt k (show 0 < rx.modulo by omega)
      omega
    intro k hk hk'
    simp only [after_dar_buffer, after_modulo]
    rcases Nat.lt_or_ge k (ur + rx.modulo) with hin | hout
    · rw [hsame]
      · exact slots k (by omega) hin
      · intro j hj hj'
        exact residue_ne (by omega) (by omega)
    · -- the slots that have been visited are those of the numbers one turn later
      rw [empty k (by omega)]
      rw [Nat.mod_eq_sub_mod (by omega)]
      exact hnone (k - rx.modulo) (by omega) (by omega)

/-! ## Walks to the next empty slot -/

theorem firstMissing_walks (slots : Slots rx ur (ur + rx.modulo) buf) (hlow : ur ≤ a)
    (hhigh : a ≤ uh) (hturn : uh < ur + rx.modulo) (empty : buf uh = none)
    (h : firstMissing rx fuel (a % rx.modulo) = some sn) :
    ∃ b, a ≤ b ∧ b ≤ uh ∧ buf b = none ∧ sn = b % rx.modulo := by
  induction fuel generalizing a with
  | zero => cases h
  | succ fuel ih =>
    rw [firstMissing, slots a hlow (by omega)] at h
    split at h
    · next hsome =>
      have hne : a ≠ uh := fun heq => by
        rw [heq, empty] at hsome
        cases hsome
      rw [Nat.mod_add_mod] at h
      obtain ⟨b, hb, hb', hnone, rfl⟩ := ih (by omega) (by omega) h
      exact ⟨b, by omega, hb', hnone, rfl⟩
    · next hnone =>
      cases h
      exact ⟨a, Nat.le_refl a, hhigh, by simpa using hnone, rfl⟩

theorem nextMissing_walks (slots : Slots rx ur (ur + rx.modulo) buf)
    (top : rx.vr_uh = uh % rx.modulo) (hlow : ur ≤ a) (hhigh : a < uh) (hturn : uh < ur + rx.modulo)
    (empty : buf uh = none) (h : nextMissing rx fuel (a % rx.modulo) = some sn) :
    ∃ b, a < b ∧ b ≤ uh ∧ buf b = none ∧ sn = b % rx.modulo := by
  induction fuel generalizing a with
  | zero => cases h
  | succ fuel ih =>
    rw [nextMissing, Nat.mod_add_mod] at h
    simp only [top] at h
    rw [slots (a + 1) (by omega) (by omega)] at h
    split at h
    · next hgo =>
      have hne : a + 1 ≠ uh := fun heq => hgo.2 (by rw [heq])
      obtain ⟨b, hb, hb', hnone, rfl⟩ := ih (by omega) (by omega) h
      exact ⟨b, by omega, hb', hnone, rfl⟩
    · next hstop =>
      cases h
      refine ⟨a + 1, by omega, hhigh, ?_, rfl⟩
      by_cases heq : a + 1 = uh
      · rw [heq, empty]
      · have hne : (a + 1) % rx.modulo ≠ uh % rx.modulo := residue_ne (by omega) (by omega)
        simpa [hne] using hstop

/-! ## The receiver in numbers -/

/-- VR(UR) and VR(UH) are the residues of `ur` and `uh`, and the PDUs in `dar_buffer` are those
of the numbers between them that `buf` says. -/
structure Numbered (rx : Rx) (ur uh : Nat) (buf : Nat → Option MacTbInd) : Prop where
  vr_ur : rx.vr_ur = ur % rx.modulo
  vr_uh : rx.vr_uh = uh % rx.modulo
  low : uh ≤ ur + rx.windowSize
  high : ur ≤ uh
  edge : rx.windowSize ≤ uh
  slots : Slots rx ur (ur + rx.modulo) buf
  empty : ∀ k, uh ≤ k → buf k = none
  beyond : ∀ sn, rx.modulo ≤ sn → rx.dar_buffer sn = none

theorem Numbered.timer (num : Numbered rx ur uh buf) (t : Timer) (ux : Nat) :
    Numbered { rx with t_reordering := t, vr_ux := ux } ur uh buf :=
  ⟨num.vr_ur, num.vr_uh, num.low, num.high, num.edge, num.slots, num.empty, num.beyond⟩

/-- VR(UX) is an SN, and while t-Reordering runs it is between VR(UR) and VR(UH). -/
structure Timed (rx : Rx) (ur uh : Nat) : Prop where
  vr_ux : rx.vr_ux < rx.modulo
  running : rx.t_reordering.running = true → ∃ ux, ur ≤ ux ∧ ux ≤ uh ∧ rx.vr_ux = ux % rx.modulo

theorem numbered_configure (cfg : Config) :
    Numbered (rlcUmConfigure cfg).rx cfg.rx_sn_length.modulo cfg.rx_sn_length.modulo fun _ =>
      none := by
  have hsizes := sizes (rlcUmConfigure cfg).rx
  have hmod : (rlcUmConfigure cfg).rx.modulo = cfg.rx_sn_length.modulo := rfl
  have hzero : 0 = cfg.rx_sn_length.modulo % (rlcUmConfigure cfg).rx.modulo := by
    rw [hmod, Nat.mod_self]
  refine ⟨hzero, hzero, by omega, Nat.le_refl _, by omega, ?_, fun _ _ => rfl, fun _ _ => rfl⟩
  intro k _ _
  rfl

theorem timed_configure (cfg : Config) :
    Timed (rlcUmConfigure cfg).rx cfg.rx_sn_length.modulo cfg.rx_sn_length.modulo := by
  have hsizes := sizes (rlcUmConfigure cfg).rx
  exact ⟨show 0 < (rlcUmConfigure cfg).rx.modulo by omega, fun hrun => by cases hrun⟩

/-- A PDU near VR(UH) is neither older than the window nor more than half of the SNs ahead. -/
def Near (rx : Rx) (uh i : Nat) : Prop := uh ≤ i + rx.windowSize ∧ i < uh + rx.half

theorem Near.ahead (h : Near rx uh i) : i + rx.windowSize < uh + rx.modulo := by
  have := sizes rx
  have := h.2
  omega

theorem edge_eq {e : Nat} (top : rx.vr_uh = uh % rx.modulo)
    (h : e + rx.windowSize = uh) : rx.edge = e % rx.modulo := by
  have hsizes := sizes rx
  have hlt := Nat.mod_lt uh (show 0 < rx.modulo by omega)
  have hedge : rx.edge < rx.modulo := by
    unfold Rx.edge
    split <;> omega
  have hres : (rx.edge + rx.windowSize) % rx.modulo =
      (e % rx.modulo + rx.windowSize) % rx.modulo := by
    rw [Nat.mod_add_mod, h, ← top]
    unfold Rx.edge
    split
    · rw [Nat.sub_add_cancel (by omega), Nat.add_mod_right, Nat.mod_eq_of_lt (by omega)]
    · rw [Nat.sub_add_cancel (by omega), Nat.mod_eq_of_lt (by omega)]
  have he := Nat.mod_lt e (show 0 < rx.modulo by omega)
  have := residue_inj (a := rx.windowSize) (by omega) (by omega) (by omega) (by omega) hres
  omega

/-- What a part of `rlc_um_receive_process_dar` that moves VR(UR) from `ur` to `ur'` leaves as it
was, and what it visits. -/
structure Moves (rx rx' : Rx) (buf : Nat → Option MacTbInd) (ur ur' : Nat) : Prop where
  cfg : rx'.cfg = rx.cfg
  vr_ux : rx'.vr_ux = rx.vr_ux
  timer : rx'.t_reordering = rx.t_reordering
  le : ur ≤ ur'
  out : visitAll rx.cfg buf ur (ur' - ur) rx.out = some rx'.out

theorem Moves.modulo {ur' : Nat} (h : Moves rx rx' buf ur ur') : rx'.modulo = rx.modulo := by
  simp [Rx.modulo, h.cfg]

theorem moves_none (hcfg : rx'.cfg = rx.cfg) (hux : rx'.vr_ux = rx.vr_ux)
    (htimer : rx'.t_reordering = rx.t_reordering)
    (hout : rx'.out = rx.out) : Moves rx rx' buf ur ur :=
  ⟨hcfg, hux, htimer, Nat.le_refl ur, by simp [visitAll, hout]⟩

theorem Moves.trans {rx'' : Rx} {ur' ur'' : Nat} (h : Moves rx rx' buf ur ur')
    (h' : Moves rx' rx'' buf ur' ur'') : Moves rx rx'' buf ur ur'' where
  cfg := h'.cfg.trans h.cfg
  vr_ux := h'.vr_ux.trans h.vr_ux
  timer := h'.timer.trans h.timer
  le := Nat.le_trans h.le h'.le
  out := by
    have hle := h.le
    have hle' := h'.le
    have hout := h'.out
    rw [show ur'' - ur = (ur' - ur) + (ur'' - ur') by omega, visitAll_add, h.out,
      Nat.add_sub_cancel' hle, ← h.cfg]
    exact hout

/-! ## The window moves -/

theorem moveWindow_spec (slots : Slots rx ur (ur + rx.modulo) buf)
    (vr_ur : rx.vr_ur = ur % rx.modulo) (top : rx.vr_uh = uh % rx.modulo)
    (low : uh ≤ ur + rx.windowSize) (high : ur ≤ uh) (edge : rx.windowSize ≤ uh)
    (near : Near rx uh i) (empty : ∀ k, max uh (i + 1) ≤ k → buf k = none)
    (beyond : ∀ sn, rx.modulo ≤ sn → rx.dar_buffer sn = none)
    (h : moveWindow rx (i % rx.modulo) = some rx') :
    ∃ ur', Moves rx rx' buf ur ur' ∧ Numbered rx' ur' (max uh (i + 1)) buf ∧
      (ur' = ur ∨ uh ≤ i ∧ ur + rx.windowSize < i + 1 ∧ ur' + rx.windowSize = i + 1) := by
  have hsizes := sizes rx
  have hnear := near.2
  unfold moveWindow at h
  by_cases hin : i < uh
  · rw [if_pos ((inReorderingWindow_iff top near.1 near.ahead).2 hin)] at h
    cases h
    have hmax : max uh (i + 1) = uh := by omega
    rw [hmax] at empty ⊢
    exact ⟨ur, moves_none rfl rfl rfl rfl, ⟨vr_ur, top, low, high, edge, slots, empty, beyond⟩,
      .inl rfl⟩
  · rw [if_neg (mt (inReorderingWindow_iff top near.1 near.ahead).1 hin)] at h
    have hmax : max uh (i + 1) = i + 1 := by omega
    rw [hmax] at empty ⊢
    rw [Nat.mod_add_mod] at h
    have top' : ({ rx with vr_uh := (i + 1) % rx.modulo } : Rx).vr_uh = (i + 1) % rx.modulo := rfl
    generalize hrx₁ : ({ rx with vr_uh := (i + 1) % rx.modulo } : Rx) = rx₁ at h top'
    dsimp only at h
    have hmod : rx₁.modulo = rx.modulo := by rw [← hrx₁]; rfl
    have hwin : rx₁.windowSize = rx.windowSize := by rw [← hrx₁]; rfl
    have vr_ur' : rx₁.vr_ur = ur % rx₁.modulo := by rw [hmod, ← vr_ur, ← hrx₁]
    have slots' : Slots rx₁ ur (ur + rx₁.modulo) buf := by rw [← hrx₁]; exact slots
    have beyond' : ∀ sn, rx₁.modulo ≤ sn → rx₁.dar_buffer sn = none := by rw [← hrx₁]; exact beyond
    have moves : Moves rx rx₁ buf ur ur := by
      rw [← hrx₁]
      exact moves_none rfl rfl rfl rfl
    rw [← hmod] at top'
    by_cases hstay : i + 1 ≤ ur + rx.windowSize
    · -- VR(UR) is still in the window
      rw [vr_ur', if_pos ((inReorderingWindow_iff top' (by omega) (by omega)).2 (by omega))] at h
      cases h
      exact ⟨ur, moves, ⟨vr_ur', top', by omega, by omega, by omega, slots', empty, beyond'⟩,
        .inl rfl⟩
    · have hout : ¬rlcUmInReorderingWindow rx₁ (ur % rx₁.modulo) :=
        fell_out top' (by omega) (by omega)
      obtain ⟨e, he⟩ : ∃ e, e + rx₁.windowSize = i + 1 := ⟨i + 1 - rx₁.windowSize, by omega⟩
      rw [vr_ur', if_neg hout, edge_eq top' he] at h
      obtain ⟨rx₂, h₂, rfl⟩ := map_eq_some_iff.1 h
      obtain ⟨o, d, hall, rfl, hslots, hsame⟩ := tryReassembly_visits slots' (by omega)
        (by omega) top' (by omega) (by omega) empty h₂
      have hedge : (rx₁.after o d).edge = e % rx₁.modulo := edge_eq top' he
      have hle : rx₁.windowSize ≤ i + 1 := by omega
      exact ⟨e, moves.trans ⟨rfl, rfl, rfl, by omega, hall⟩,
        ⟨hedge, top', Nat.le_of_eq he.symm, by omega, hle, hslots, empty,
          fun sn hsn => (hsame sn hsn).trans (beyond' sn hsn)⟩, .inr (by omega)⟩

theorem jump_spec (num : Numbered rx ur uh buf) (low : ur ≤ b) (high : b ≤ uh)
    (h : rlcUmTryReassembly { rx with vr_ur := b % rx.modulo } (ur % rx.modulo) (b % rx.modulo) =
      some rx') : Moves rx rx' buf ur b ∧ Numbered rx' b uh buf := by
  have hsizes := sizes rx
  have hlow := num.low
  have hlt : b < ur + rx.modulo := by omega
  have hturn : uh ≤ ur + rx.modulo := by omega
  have hlow' : uh ≤ b + rx.windowSize := by omega
  have slots : Slots { rx with vr_ur := b % rx.modulo } ur (ur + rx.modulo) buf := num.slots
  obtain ⟨o, d, hall, rfl, hslots, hsame⟩ :=
    tryReassembly_visits slots low hlt num.vr_uh high hturn num.empty h
  exact ⟨⟨rfl, rfl, rfl, low, hall⟩, ⟨rfl, num.vr_uh, hlow', high, num.edge, hslots, num.empty,
    fun sn hsn => (hsame sn hsn).trans (num.beyond sn hsn)⟩⟩

theorem moveVrUr_spec (num : Numbered rx ur uh buf)
    (same : i % rx.modulo = ur % rx.modulo → i = ur ∧ ur < uh)
    (h : moveVrUr rx (i % rx.modulo) = some rx') :
    ∃ ur', Moves rx rx' buf ur ur' ∧ Numbered rx' ur' uh buf ∧
      (buf ur' = none ∨ ur' = ur ∧ (i = ur → buf ur = none)) := by
  have hsizes := sizes rx
  have hlow := num.low
  unfold moveVrUr at h
  rw [num.vr_ur] at h
  split at h
  · next hgo =>
    obtain ⟨hi, hlt⟩ := same hgo.1
    obtain ⟨sn, hsn, h⟩ := bind_eq_some_iff.1 h
    obtain ⟨b, hb, hb', hnone, rfl⟩ := nextMissing_walks num.slots num.vr_uh (Nat.le_refl ur) hlt
      (by omega) (num.empty uh (Nat.le_refl uh)) hsn
    rw [hi] at h
    obtain ⟨moves, num'⟩ := jump_spec num (Nat.le_of_lt hb) hb' h
    exact ⟨b, moves, num', .inl hnone⟩
  · next hstay =>
    cases h
    refine ⟨ur, moves_none rfl rfl rfl rfl, num, .inr ⟨rfl, ?_⟩⟩
    rintro rfl
    rw [num.slots i (Nat.le_refl i) (by omega)] at hstay
    simpa using hstay

/-! ## t-Reordering -/

theorem timed_start (num : Numbered rx ur uh buf) (t : Timer) :
    Timed { rx with t_reordering := t, vr_ux := rx.vr_uh } ur uh := by
  have hsizes := sizes rx
  refine ⟨?_, fun _ => ⟨uh, num.high, Nat.le_refl uh, num.vr_uh⟩⟩
  simp only [num.vr_uh]
  exact Nat.mod_lt _ (show 0 < rx.modulo by omega)

/-- The end of `rlc_um_receive_process_dar` stops the timer unless VR(UX) is between VR(UR) and
VR(UH). -/
theorem reordering_spec (num : Numbered rx ur uh buf) (hux : rx.vr_ux < rx.modulo) (ctxt : Ctxt) :
    ∃ t ux, reordering rx ctxt = { rx with t_reordering := t, vr_ux := ux } ∧
    Timed (reordering rx ctxt) ur uh := by
  have hedge := num.edge
  obtain ⟨ux, hlow, hhigh, hres⟩ := exists_residue (uh - rx.windowSize) hux
  have hin : rlcUmInReorderingWindow rx rx.vr_ux ↔ ux < uh := by
    rw [← hres]
    exact inReorderingWindow_iff num.vr_uh (by omega) (by omega)
  unfold reordering
  extract_lets t₁ place t₂
  have runs : t₂.running → ∃ ux, ur ≤ ux ∧ ux ≤ uh ∧ rx.vr_ux = ux % rx.modulo := by
    intro hrun
    have hgo : t₁.running ∧ ¬(place = .belowLower ∨ place = .atLower) := by
      simp only [t₂] at hrun
      split at hrun
      · cases hrun
      · next hstay => exact ⟨hrun, fun hplace => hstay ⟨hrun, hplace⟩⟩
    have hwin : ¬(rx.vr_uh ≠ rx.vr_ux ∧ rlcUmInReorderingWindow rx rx.vr_ux = false) := by
      have hrun₁ := hgo.1
      simp only [t₁] at hrun₁
      split at hrun₁
      · cases hrun₁
      · next hstay => exact fun hout => hstay ⟨hrun₁, hout⟩
    by_cases heq : rx.vr_uh = rx.vr_ux
    · exact ⟨uh, num.high, Nat.le_refl uh, heq ▸ num.vr_uh⟩
    · have hux' : ux < uh := hin.1 (by simpa [heq] using hwin)
      have hplace := hgo.2
      simp only [place] at hplace
      rw [num.vr_ur, ← hres, num.vr_uh, passed_iff num.vr_uh num.low num.high (by omega) (by omega)]
        at hplace
      exact ⟨ux, by omega, by omega, hres.symm⟩
  split
  · exact ⟨_, _, rfl, timed_start num _⟩
  · exact ⟨_, _, rfl, ⟨hux, runs⟩⟩

/-! ## A UMD PDU -/

/-- The receiver after a PDU with number `i` was stored, with VR(UR) now at `ur'`. -/
structure Stored (rx rx' : Rx) (ur uh i : Nat) (buf : Nat → Option MacTbInd)
    (ur' : Nat) : Prop where
  cfg : rx'.cfg = rx.cfg
  num : Numbered rx' ur' (max uh (i + 1)) buf
  timed : Timed rx' ur' (max uh (i + 1))
  le : ur ≤ ur'
  out : visitAll rx.cfg buf ur (ur' - ur) rx.out = some rx'.out
  /-- VR(UR) is where it was or at a number without a PDU, unless the window dragged it. -/
  rests : buf ur' = none ∨ (ur' = ur ∧ i ≠ ur) ∨
    (uh ≤ i ∧ ur + rx.windowSize < i + 1 ∧ ur' + rx.windowSize = i + 1)

theorem placed_spec {tb : MacTbInd} (num : Numbered rx ur uh buf) (hux : rx.vr_ux < rx.modulo)
    (near : Near rx uh i) (hnew : ur ≤ i) (h : placed rx ctxt tb (i % rx.modulo) = some rx') :
    ∃ ur', Stored rx rx' ur uh i (update buf i (some tb)) ur' := by
  have hsizes := sizes rx
  have hnear := near.2
  have hlow := num.low
  have hhigh := num.high
  generalize hbuf : update buf i (some tb) = buf'
  obtain ⟨rx₂, h₂, h⟩ := bind_eq_some_iff.1 h
  obtain ⟨rx₃, h₃, rfl⟩ := map_eq_some_iff.1 h
  have slots : Slots (rx.after rx.out (update rx.dar_buffer (i % rx.modulo) (some tb))) ur
      (ur + rx.modulo) buf' := by
    intro k hk hk'
    simp only [after_dar_buffer, after_modulo, ← hbuf]
    by_cases hki : k = i
    · simp [hki]
    · have hres : k % rx.modulo ≠ i % rx.modulo := fun hres =>
        hki (residue_inj hk hk' hnew (by omega) hres)
      rw [update_of_ne hki, update_of_ne hres]
      exact num.slots k hk hk'
  have empty : ∀ k, max uh (i + 1) ≤ k → buf' k = none := by
    intro k hk
    rw [← hbuf, update_of_ne (by omega)]
    exact num.empty k (by omega)
  have beyond : ∀ sn, rx.modulo ≤ sn → update rx.dar_buffer (i % rx.modulo) (some tb) sn =
      none := by
    intro sn hsn
    have := Nat.mod_lt i (show 0 < rx.modulo by omega)
    rw [update_of_ne (by omega)]
    exact num.beyond sn hsn
  obtain ⟨ur₁, moves₁, num₁, hur₁⟩ := moveWindow_spec slots num.vr_ur num.vr_uh num.low num.high
    num.edge near empty beyond h₂
  have hmod : rx₂.modulo = rx.modulo := moves₁.modulo
  simp only [after_windowSize] at hur₁
  have same : i % rx₂.modulo = ur₁ % rx₂.modulo → i = ur₁ ∧ ur₁ < max uh (i + 1) := by
    rw [hmod]
    intro hres
    have hle := moves₁.le
    have := residue_inj (a := min i ur₁) (by omega) (by omega) (by omega) (by omega) hres
    omega
  rw [← hmod] at h₃
  obtain ⟨ur₂, moves₂, num₂, hur₂⟩ := moveVrUr_spec num₁ same h₃
  have moves := moves₁.trans moves₂
  have hux₂ : rx₃.vr_ux < rx₃.modulo := by
    rw [moves.vr_ux, moves.modulo]
    exact hux
  obtain ⟨t, ux, heq, timed⟩ := reordering_spec num₂ hux₂ ctxt
  refine ⟨ur₂, ?_⟩
  rw [heq] at timed ⊢
  refine ⟨moves.cfg, num₂.timer t ux, timed, moves.le, moves.out, ?_⟩
  rcases hur₂ with hnone | ⟨rfl, hstay⟩
  · exact .inl hnone
  · rcases hur₁ with rfl | hdrag
    · by_cases hi : i = ur₂
      · exact .inl (hstay hi)
      · exact .inr (.inl ⟨rfl, hi⟩)
    · exact .inr (.inr hdrag)

/-- What `rlc_um_receive_process_dar` does with a PDU that is near: it drops one that is old or
that it has, and otherwise stores it and moves on. -/
theorem processDar_spec {tb : MacTbInd} (num : Numbered rx ur uh buf) (timed : Timed rx ur uh)
    (near : Near rx uh i) (hsn : rx.cfg.rx_sn_length.sn tb.data = i % rx.modulo)
    (h : rlcUmReceiveProcessDar rx ctxt tb = some rx') :
    rx' = rx ∧ i < uh ∨ ur ≤ i ∧ ∃ ur', Stored rx rx' ur uh i (update buf i (some tb)) ur' := by
  have hsizes := sizes rx
  have hlow := num.low
  have hhigh := num.high
  have hnear := near.2
  unfold rlcUmReceiveProcessDar at h
  rw [hsn] at h
  dsimp only at h
  split at h
  · next hold =>
    rw [num.vr_ur, old_iff num.vr_uh num.low num.high near.1 near.ahead] at hold
    cases h
    exact .inl ⟨rfl, by omega⟩
  · next hnew =>
    rw [num.vr_ur, old_iff num.vr_uh num.low num.high near.1 near.ahead] at hnew
    split at h
    · next hagain =>
      cases h
      refine .inl ⟨rfl, ?_⟩
      by_contra hge
      have hslot := num.slots i (by omega) (by omega)
      rw [num.empty i (by omega)] at hslot
      simp [hslot] at hagain
    · exact .inr ⟨Nat.le_of_not_lt hnew, placed_spec num timed.vr_ux near (Nat.le_of_not_lt hnew) h⟩

/-! ## t-Reordering expires -/

theorem checkTimer_spec (num : Numbered rx ur uh buf) (timed : Timed rx ur uh)
    (h : rlcUmCheckTimerDarTimeOut rx ctxt = some rx') :
    ∃ ur', rx'.cfg = rx.cfg ∧ Numbered rx' ur' uh buf ∧ Timed rx' ur' uh ∧ ur ≤ ur' ∧
      visitAll rx.cfg buf ur (ur' - ur) rx.out = some rx'.out ∧
      (ur' = ur ∧ rx' = rx ∨ buf ur' = none) := by
  have hsizes := sizes rx
  have hlow := num.low
  unfold rlcUmCheckTimerDarTimeOut at h
  split at h
  · next hrun =>
    obtain ⟨ux, hux, hux', hres⟩ := timed.running hrun.1
    obtain ⟨sn, hsn, h⟩ := bind_eq_some_iff.1 h
    obtain ⟨rx₁, h₁, rfl⟩ := map_eq_some_iff.1 h
    rw [hres] at hsn
    obtain ⟨b, hb, hb', hnone, rfl⟩ := firstMissing_walks num.slots hux hux' (by omega)
      (num.empty uh (Nat.le_refl uh)) hsn
    rw [num.vr_ur] at h₁
    obtain ⟨moves, num₁⟩ := jump_spec num (by omega) hb' h₁
    refine ⟨b, ?_⟩
    split
    · exact ⟨moves.cfg, num₁.timer _ _, timed_start num₁ _, moves.le, moves.out, .inr hnone⟩
    refine ⟨moves.cfg, num₁.timer _ _, ⟨?_, fun hrun => by cases hrun⟩, moves.le, moves.out,
      .inr hnone⟩
    have hux₁ : rx₁.vr_ux < rx₁.modulo := by
      rw [moves.vr_ux, moves.modulo]
      exact timed.vr_ux
    exact hux₁
  · cases h
    exact ⟨ur, rfl, num, timed, Nat.le_refl ur, by simp [visitAll], .inl ⟨rfl, rfl⟩⟩

end MacRlcSplit.Um
