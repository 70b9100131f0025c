-- The holes of a NACKed PDU as a set of bytes: when calls of `rlc_am_add_hole`
-- and `rlc_am_remove_hole` add and remove just the bytes that they name.
import MacRlcSplit.Am.Retransmit
import MacRlcSplit.Lib.Run

namespace MacRlcSplit.Am

open Lib List

/-! ## The bytes of a hole list -/

/-- The payload bytes that are to be sent again; without holes `nack_so_start` and
`nack_so_stop` are their range. -/
def TxPdu.Missing (p : TxPdu) (x : Int) : Prop := x < p.payload_size ∧
  ∃ h ∈ if p.holes = [] then [(p.nack_so_start, p.nack_so_stop)] else p.holes, h.1 ≤ x ∧ x ≤ h.2

/-- The holes are sorted and disjoint, inside the payload, and `nack_so_start` and
`nack_so_stop` are the first start and the last stop. -/
structure TxPdu.Sound (p : TxPdu) : Prop where
  payload : p.payload_size ≤ 0x7FFF
  sorted : p.holes.Pairwise (·.2 < ·.1)
  few : p.holes.length < 32
  holes : ∀ h ∈ p.holes, 0 ≤ h.1 ∧ h.1 ≤ h.2 ∧ h.2 < p.payload_size
  start : ∀ h ∈ p.holes.head?, p.nack_so_start = h.1
  stop : ∀ h ∈ p.holes.getLast?, p.nack_so_stop = h.2
  range : p.holes = [] → 0 ≤ p.nack_so_start ∧ p.nack_so_start < p.payload_size ∧
    p.nack_so_start ≤ p.nack_so_stop

/-- The two calls. -/
inductive HoleCall where
  | add (so_start so_stop : Int)
  | remove (so_start so_stop : Int)

def HoleCall.apply (p : TxPdu) : HoleCall → Option TxPdu
  | .add so_start so_stop => rlcAmAddHole p so_start so_stop
  | .remove so_start so_stop => rlcAmRemoveHole p so_start so_stop

/-- Offsets of a payload of `n` bytes; 0x7FFF is its end. -/
def HoleCall.InRange (n : Nat) : HoleCall → Prop
  | .add a b | .remove a b => 0 ≤ a ∧ a ≤ b ∧ a < n ∧ (b < n ∨ b = 0x7FFF)

/-- The bytes that the call is to leave. -/
def HoleCall.Leaves (p : TxPdu) (x : Int) : HoleCall → Prop
  | .add a b => p.Missing x ∨ a ≤ x ∧ x ≤ b ∧ x < p.payload_size
  | .remove a b => p.Missing x ∧ ¬ (a ≤ x ∧ x ≤ b)

/-- A range of all bytes, one around those NACKed without holes, or a hole between others is
added; the holes from some place on are removed, but not the first, or a front of the range. -/
def HoleCall.Fits (p : TxPdu) : HoleCall → Prop
  | .add a b => a = 0 ∧ p.payload_size ≤ b + 1 ∨
    p.holes = [] ∧ a ≤ p.nack_so_start ∧ min p.nack_so_stop (p.payload_size - 1) ≤ b ∨
    p.holes ≠ [] ∧ p.holes.length < 31 ∧ ∃ pre post, p.holes = pre ++ post ∧ (∀ h ∈ pre, h.2 < a) ∧
    ∀ h ∈ post, b < h.1
  | .remove a b =>
    p.holes = [] ∧ a = p.nack_so_start ∧ b + 1 < p.nack_so_stop ∧ b + 1 < p.payload_size ∨
    ∃ pre post, p.holes = pre ++ post ∧ pre ≠ [] ∧ (∀ h ∈ pre, h.2 < a) ∧ ∀ h ∈ post, a ≤ h.1 ∧
    h.2 ≤ b

/-- The call returns, with a list of the bytes that it is to leave. -/
def HoleCall.Exact (p : TxPdu) (c : HoleCall) (p' : TxPdu) : Prop :=
  c.apply p = some p' ∧ p'.Sound ∧ p'.payload_size = p.payload_size ∧ ∀ x, p'.Missing x ↔
  c.Leaves p x

/-- So does every call, each with what the one before has left. -/
def HoleCall.ExactRun : TxPdu → List HoleCall → Prop
  | _, [] => True
  | p, c :: cs => ∃ p', c.Exact p p' ∧ ExactRun p' cs

variable {p : TxPdu} {a b : Int} {pre post l : List (Int × Int)} {x : Int}

theorem missing_of_nil (hp : p.holes = []) :
    p.Missing x ↔ x < p.payload_size ∧ p.nack_so_start ≤ x ∧ x ≤ p.nack_so_stop := by
  simp [TxPdu.Missing, hp]

theorem missing_of_holes (hp : p.holes ≠ []) : p.Missing x ↔
    x < p.payload_size ∧ ∃ h ∈ p.holes, h.1 ≤ x ∧ x ≤ h.2 := by
  simp [TxPdu.Missing, hp]

theorem TxPdu.Sound.nonneg (h : p.Sound) (hx : p.Missing x) : 0 ≤ x := by
  by_cases hp : p.holes = []
  · have := missing_of_nil hp |>.1 hx
    have := h.range hp
    omega
  · obtain ⟨-, g, hg, hx⟩ := (missing_of_holes hp).1 hx
    have := h.holes g hg
    omega

theorem withHoles_eq (hl : l ≠ []) : p.withHoles l =
    { p with holes := l, nack_so_start := (l.head hl).1, nack_so_stop := (l.getLast hl).2 } := by
  unfold TxPdu.withHoles
  rw [head?_eq_some_head hl, getLast?_eq_some_getLast hl]

theorem sound_withHoles (h : p.Sound) (hl : l ≠ []) (sorted : l.Pairwise (·.2 < ·.1))
    (few : l.length < 32) (valid : ∀ h ∈ l, 0 ≤ h.1 ∧ h.1 ≤ h.2 ∧ h.2 < p.payload_size) :
    (p.withHoles l).Sound ∧ (p.withHoles l).payload_size = p.payload_size ∧
      ∀ x, (p.withHoles l).Missing x ↔ x < p.payload_size ∧ ∃ h ∈ l, h.1 ≤ x ∧ x ≤ h.2 := by
  rw [withHoles_eq hl]
  refine ⟨⟨h.payload, sorted, few, valid, fun h hh => ?_, fun h hh => ?_, fun h => absurd h hl⟩,
    rfl, fun x => ?_⟩
  · rw [(head_eq_iff_head?_eq_some hl).2 hh]
  · rw [(getLast_eq_iff_getLast?_eq_some hl).2 hh]
  · exact missing_of_holes hl

/-! ## The two calls -/

theorem insertHole_between (hpre : ∀ h ∈ pre, h.1 ≤ b ∧ h.2 < a) (hpost : ∀ h ∈ post, b < h.1)
    {prev : Option Int} (hprev : prev.all (· < a)) : insertHole a b prev (pre ++ post) =
      some (pre ++ (a, b) :: post) := by
  induction pre generalizing prev with
  | nil => cases post <;> simp_all [insertHole]
  | cons h pre ih =>
    obtain ⟨hh, hpre⟩ := forall_mem_cons.1 hpre
    rw [cons_append, insertHole, if_neg (Int.not_lt.2 hh.1), ih hpre (by simpa using hh.2)]
    rfl

/-- The list with a hole between two others, and what `nack_so_start` and `nack_so_stop` become. -/
theorem between_ends (h : p.Sound) {g : Int × Int} (hg : g ∈ p.holes.head?)
    (hholes : p.holes = pre ++ post) (hpre : ∀ h ∈ pre, h.1 ≤ b ∧ h.2 < a)
    (hpost : ∀ h ∈ post, b < h.1) :
    p.withHoles (pre ++ (a, b) :: post) =
      { p with
        holes := pre ++ (a, b) :: post
        nack_so_start := if b < g.1 then a else p.nack_so_start
        nack_so_stop := if p.holes.all (fun h => h.1 ≤ b) then b else p.nack_so_stop } := by
  have hstart := h.start g hg
  rw [withHoles_eq (append_ne_nil_of_right_ne_nil _ (cons_ne_nil _ _))]
  congr 1
  · cases pre with
    | nil =>
      rw [hholes] at hg
      rw [if_pos (hpost g (mem_of_mem_head? hg))]
      rfl
    | cons h' pre =>
      rw [hholes] at hg
      cases hg
      rw [if_neg (Int.not_lt.2 (hpre _ mem_cons_self).1), hstart]
      rfl
  · cases post with
    | nil =>
      rw [if_pos (by simpa [hholes] using fun x y hh => (hpre (x, y) hh).1)]
      simp
    | cons h' post =>
      rw [if_neg (by simp [hholes, hpost h' mem_cons_self]),
        h.stop ((h' :: post).getLast (cons_ne_nil _ _))]
      · simp
      · rw [hholes, getLast?_append]
        rfl

theorem removeHoles_behind (hpre : ∀ h ∈ pre, h.1 ≤ h.2 ∧ h.2 < a)
    (hpost : ∀ h ∈ post, a ≤ h.1 ∧ h.2 ≤ b)
    (kept : Nat) : removeHoles a b kept (pre ++ post) = some (pre, false) := by
  induction pre generalizing kept with
  | nil =>
    induction post generalizing kept with
    | nil => rfl
    | cons h post ih =>
      obtain ⟨hh, hpost⟩ := forall_mem_cons.1 hpost
      rw [nil_append, removeHoles, if_pos hh.1, if_pos hh.2]
      exact ih hpost kept
  | cons h pre ih =>
    obtain ⟨hh, hpre⟩ := forall_mem_cons.1 hpre
    rw [cons_append, removeHoles, if_neg (by omega), if_neg (by omega), ih hpre]
    rfl

theorem add_exact (h : p.Sound) (hin : (HoleCall.add a b).InRange p.payload_size)
    (fits : (HoleCall.add a b).Fits p) : ∃ p', (HoleCall.add a b).Exact p p' := by
  obtain ⟨ha, hab, hlt, hb⟩ := hin
  have hpay := h.payload
  unfold HoleCall.Exact HoleCall.apply HoleCall.Leaves
  dsimp only
  by_cases whole : a = 0 ∧ p.payload_size ≤ b + 1
  · refine ⟨{ p with holes := [], nack_so_start := a, nack_so_stop := b }, ?_,
      ⟨hpay, .nil, by simp, nofun, nofun, nofun, fun _ => ⟨ha, hlt, hab⟩⟩, rfl, fun x => ?_⟩
    · unfold rlcAmAddHole
      rw [if_neg (by omega), if_pos (by omega), if_pos (by omega)]
    · have : p.Missing x → 0 ≤ x := h.nonneg
      have : p.Missing x → x < p.payload_size := And.left
      rw [missing_of_nil rfl]
      grind
  -- `c` is the last byte
  obtain ⟨c, hc⟩ : ∃ c, b = c ∧ c < p.payload_size ∨ b = 0x7FFF ∧
      c = (p.payload_size : Int) - 1 := by
    rcases hb with hb | hb
    · exact ⟨b, .inl ⟨rfl, hb⟩⟩
    · exact ⟨_, .inr ⟨hb, rfl⟩⟩
  have hend : (if b = 0x7FFF then (p.payload_size : Int) - 1 else b) = c := by split <;> omega
  unfold rlcAmAddHole
  rw [if_neg (by omega), if_neg (by omega)]
  dsimp only
  rw [hend]
  rcases fits.resolve_left whole with ⟨hp, hstart, hstop⟩ | ⟨hp, few, pre, post, hholes, hpre,
    hpost⟩
  · rw [hp, if_pos hlt]
    refine ⟨_, rfl, ⟨hpay, pairwise_singleton _ _, by simp, by simp; omega, by simp, by simp,
      nofun⟩, rfl, fun x => ?_⟩
    rw [missing_of_nil hp, missing_of_holes (cons_ne_nil _ _)]
    simp
    omega
  · have hpre' : ∀ h ∈ pre, h.1 ≤ c ∧ h.2 < a := fun g hg => by
      have := h.holes g (hholes ▸ mem_append_left _ hg)
      have := hpre g hg
      omega
    have hpost' : ∀ h ∈ post, c < h.1 := fun g hg => by
      have := hpost g hg
      omega
    have hL : pre ++ (a, c) :: post ≠ [] := append_ne_nil_of_right_ne_nil _ (cons_ne_nil _ _)
    have valid : ∀ h ∈ pre ++ (a, c) :: post, 0 ≤ h.1 ∧ h.1 ≤ h.2 ∧ h.2 < p.payload_size := by
      have := h.holes
      rw [hholes, forall_mem_append] at this
      exact forall_mem_append.2 ⟨this.1, forall_mem_cons.2 ⟨by dsimp only; omega, this.2⟩⟩
    have sorted : (pre ++ (a, c) :: post).Pairwise (·.2 < ·.1) := by
      have := h.sorted
      simp only [pairwise_append, pairwise_cons, mem_cons]
      grind
    obtain ⟨sound, hsize, missing⟩ :=
      sound_withHoles h hL sorted (by simp [hholes] at few ⊢; omega) valid
    refine ⟨_, ?_, sound, hsize, fun x => ?_⟩
    · split
      · exact absurd ‹_› hp
      · next g rest hg =>
        have hstart := h.start g (by rw [hg]; rfl)
        rw [hholes, insertHole_between hpre' hpost' rfl, ← hholes,
          between_ends h (by rw [hg]; rfl) hholes hpre' hpost']
        exact if_pos ⟨by simp [hholes] at few ⊢; omega, by split <;> omega⟩
    · have : x < p.payload_size → (x ≤ c ↔ x ≤ b) := by omega
      rw [missing, missing_of_holes hp, hholes]
      simp only [mem_append, mem_cons, or_and_right, exists_or, exists_eq_left]
      clear * - this
      grind

theorem remove_exact (h : p.Sound) (hin : (HoleCall.remove a b).InRange p.payload_size)
    (fits : (HoleCall.remove a b).Fits p) : ∃ p', (HoleCall.remove a b).Exact p p' := by
  obtain ⟨ha, hab, hlt, hb⟩ := hin
  unfold HoleCall.Exact HoleCall.apply HoleCall.Leaves rlcAmRemoveHole
  dsimp only
  rw [if_neg (by omega)]
  rcases fits with ⟨hp, rfl, hstop, hlt⟩ | ⟨pre, post, hholes, hne, hpre, hpost⟩
  · rw [if_pos hp, if_neg (by omega), if_neg (by omega : ¬ b + 1 ≥ p.nack_so_stop), if_pos hlt]
    refine ⟨_, rfl, ⟨h.payload, h.sorted, h.few, h.holes, by simp [hp], by simp [hp], fun _ => ?_⟩,
      rfl, fun x => ?_⟩
    · dsimp only
      omega
    · rw [missing_of_nil hp, @missing_of_nil { p with nack_so_start := b + 1 } x hp]
      dsimp only
      omega
  · have hp : p.holes ≠ [] := hholes ▸ append_ne_nil_of_left_ne_nil hne post
    have mem : ∀ g ∈ pre, g ∈ p.holes := fun g hg => hholes ▸ mem_append_left _ hg
    obtain ⟨sound, hsize, missing⟩ :=
      sound_withHoles h hne (pairwise_append.1 (hholes ▸ h.sorted)).1
      (Nat.lt_of_le_of_lt (by simp [hholes]) h.few) fun g hg => h.holes g (mem g hg)
    have inside : (p.withHoles pre).nack_so_start < p.payload_size := by
      have := h.holes _ (mem _ (head_mem hne))
      rw [withHoles_eq hne]
      dsimp only
      omega
    refine ⟨_, ?_, sound, hsize, fun x => ?_⟩
    · rw [if_neg hp, hholes,
        removeHoles_behind (fun g hg => ⟨(h.holes g (mem g hg)).2.1, hpre g hg⟩) hpost]
      exact if_pos (.inr (hsize ▸ inside))
    · rw [missing_of_holes hp]
      grind

/-- Every call of a run leaves a sound list, which marks the bytes that it should and no others. -/
theorem the_holes_are_exact (h : p.Sound) {cs : List HoleCall}
    (hin : ∀ c ∈ cs, c.InRange p.payload_size)
    (meets : Meets HoleCall.apply HoleCall.Fits p cs) : HoleCall.ExactRun p cs := by
  induction cs generalizing p with
  | nil => trivial
  | cons c cs ih =>
    obtain ⟨hc, hcs⟩ := forall_mem_cons.1 hin
    obtain ⟨p', exact⟩ : ∃ p', c.Exact p p' := by
      cases c with
      | add a b => exact add_exact h hc meets.1
      | remove a b => exact remove_exact h hc meets.1
    exact ⟨p', exact, ih exact.2.1 (exact.2.2.1 ▸ hcs) (meets.2 p' exact.1)⟩

/-- Ten bytes, all of them NACKed. -/
def tenMissing : TxPdu := { payload_size := 10, nack_so_stop := 0x7FFF }

/-- Ten bytes, four of them NACKed. -/
def fourMissing : TxPdu :=
  { payload_size := 10, holes := [(2, 5)], nack_so_start := 2, nack_so_stop := 5 }

theorem fourMissing_sound : fourMissing.Sound := by
  refine ⟨by decide, pairwise_singleton _ _, by decide, ?_, ?_, ?_, nofun⟩ <;> simp [fourMissing]

theorem two_holes_are_exact : HoleCall.ExactRun fourMissing [.add 7 8, .remove 6 9] := by
  refine the_holes_are_exact fourMissing_sound ?_ ⟨.inr (.inr ⟨?_, ?_, [(2, 5)], [], ?_⟩),
    fun p hp => ?_⟩
  · simp [HoleCall.InRange, fourMissing]
  · decide
  · decide
  · simp [fourMissing]
  · cases hp
    exact ⟨.inr ⟨[(2, 5)], [(7, 8)], rfl, by simp⟩, fun _ _ => trivial⟩

theorem a_removed_byte_is_sent_again :
    (∃ p ∈ rlcAmRemoveHole fourMissing 2 3, p.Missing 3) ∧
      (∃ p ∈ rlcAmRemoveHole fourMissing 2 5, p.Missing 3) ∧
      tenMissing.Missing 7 ∧ ∃ p ∈ rlcAmAddHole tenMissing 2 5, ¬ p.Missing 7 := by
  refine ⟨⟨_, rfl, ?_⟩, ⟨_, rfl, ?_⟩, ?_, _, rfl, ?_⟩
  all_goals simp [TxPdu.Missing, fourMissing, tenMissing, TxPdu.withHoles]

end MacRlcSplit.Am
