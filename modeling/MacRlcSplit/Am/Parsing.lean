-- The parser of AMD PDUs against the bytes it is given: it follows the E bits
-- wherever they lead, so it stays inside the PDU only for a header that does.
import MacRlcSplit.Am.Memory
import MacRlcSplit.Am.Receiver

open Option

namespace MacRlcSplit.Am

/-! ## What is touched -/

/-- The LI loop once more: the bytes it reads, and how many entries of `li_list` it writes. The
number of LIs is checked behind the write, so the loop is left in turn 33 at the latest. -/
def liTouches (m : Mem) : Nat → Nat → Nat → List Nat × Nat
  | 0, _, _ => ([], 0)
  | n + 1, e_li, li =>
    if li = 2 then
      let (bytes, lis) := if (m e_li).toNat / 128 = 1 then liTouches m n e_li 1 else ([], 0)
      (e_li :: (e_li + 1) :: bytes, lis + 1)
    else
      let (bytes, lis) := if (m (e_li + 1)).toNat / 8 % 2 =
        1 then liTouches m n (e_li + 3) 2 else ([], 0)
      ((e_li + 1) :: (e_li + 2) :: bytes, lis + 1)

def fixedSize (m : Mem) : Nat := if (m 0).toNat / 64 % 2 = 1 then 4 else 2

/-- The bytes that `rlc_am_get_data_pdu_infos` reads of a data PDU, and the entries of `li_list` it
writes. -/
def dataPduTouches (m : Mem) : List Nat × Nat :=
  let (bytes, lis) := if (m 0).toNat / 4 % 2 = 1 then liTouches m 33 (fixedSize m) 2 else ([], 0)
  (List.range (fixedSize m) ++ bytes, lis)

/-- The parser stays inside the `n` bytes of a PDU, and so does what is done with the result. -/
structure StaysInside (m : Mem) (n : Nat) : Prop where
  bytes : ∀ i ∈ (dataPduTouches m).1, i < n
  lis : (dataPduTouches m).2 ≤ 32
  header : ∀ info, rlcAmGetDataPduInfos m n = some info → info.header_size ≤ n
  payload : ∀ info, rlcAmGetDataPduInfos m n = some info →
    info.payload_size = n - info.header_size ∧ (info.li_list.sum : Int) ≤ info.payload_size
  reassembly : ∀ info, rlcAmGetDataPduInfos m n = some info → ∀ rx m', (∀ i < n, m' i = m i) →
    rlcAmReassemblePdu rx ⟨info, m', true⟩ = rlcAmReassemblePdu rx ⟨info, m, true⟩

/-- The E bits announce these LIs, and the header ends at `stop`. The arguments are those of
`readLis`. -/
inductive Announces (m : Mem) : Nat → Nat → List Nat → Nat → Prop
  | last_long {e} : (m e).toNat / 128 ≠ 1 →
  Announces m e 2 [(m e).toNat % 128 * 16 + (m (e + 1)).toNat / 16] (e + 2)
  | long {e l stop} : (m e).toNat / 128 = 1 → Announces m e 1 l stop →
    Announces m e 2 (((m e).toNat % 128 * 16 + (m (e + 1)).toNat / 16) :: l) stop
  | last_short {e} : (m (e + 1)).toNat / 8 % 2 ≠ 1 →
    Announces m e 1 [(m (e + 1)).toNat % 8 * 256 + (m (e + 2)).toNat] (e + 3)
  | short {e l stop} : (m (e + 1)).toNat / 8 % 2 = 1 → Announces m (e + 3) 2 l stop →
    Announces m e 1 (((m (e + 1)).toNat % 8 * 256 + (m (e + 2)).toNat) :: l) stop

variable {m : Mem} {e li stop k : Nat} {l : List Nat}

theorem Announces.loop (h : Announces m e li l stop) (hk : l.length ≤ k) : e + 4 ≤ stop + li ∧
    readLis m k e li = some ⟨l, stop + 2 * li - e - 4, stop⟩ ∧
      (liTouches m k e li).2 = l.length ∧ ∀ i ∈ (liTouches m k e li).1, i < stop := by
  induction h generalizing k with
  | last_long hlast =>
    obtain _ | k := k
    · cases hk
    unfold readLis liTouches
    simp [hlast]
    omega
  | long hmore _ ih =>
    obtain _ | k := k
    · cases hk
    obtain ⟨hle, hread, hcount, hbytes⟩ := ih (Nat.le_of_succ_le_succ hk)
    unfold readLis liTouches
    simp [hmore, hread, hcount]
    exact ⟨by omega, by omega, by omega, by omega, hbytes⟩
  | last_short hlast =>
    obtain _ | k := k
    · cases hk
    unfold readLis liTouches
    simp [hlast]
    omega
  | short hmore _ ih =>
    obtain _ | k := k
    · cases hk
    obtain ⟨hle, hread, hcount, hbytes⟩ := ih (Nat.le_of_succ_le_succ hk)
    unfold readLis liTouches
    simp [hmore, hread, hcount]
    exact ⟨by omega, by omega, by omega, by omega, hbytes⟩

theorem announces_of_touches (hli : li = 1 ∨ li = 2) (h : (liTouches m (k + 1) e li).2 ≤ k) :
    ∃ l stop, Announces m e li l stop ∧ l.length ≤ k := by
  induction k generalizing e li with
  | zero =>
    unfold liTouches at h
    split at h <;> simp at h
  | succ k ih =>
    unfold liTouches at h
    rcases hli with rfl | rfl
    · by_cases hmore : (m (e + 1)).toNat / 8 % 2 = 1
      · simp [hmore] at h
        obtain ⟨l, stop, hl, hlen⟩ := ih (.inr rfl) h
        exact ⟨_, stop, .short hmore hl, Nat.succ_le_succ hlen⟩
      · exact ⟨_, _, .last_short hmore, Nat.succ_le_succ (Nat.zero_le k)⟩
    · by_cases hmore : (m e).toNat / 128 = 1
      · simp [hmore] at h
        obtain ⟨l, stop, hl, hlen⟩ := ih (.inl rfl) h
        exact ⟨_, stop, .long hmore hl, Nat.succ_le_succ hlen⟩
      · exact ⟨_, _, .last_long hmore, Nat.succ_le_succ (Nat.zero_le k)⟩

/-! ## What is done with the result -/

theorem reassembly_congr {m' : Mem} {off : Nat} {length : Int} (rx : Rx)
    (h : ∀ i, off ≤ i → i < off + length.toNat → m' i = m i) :
    reassembly rx m' off length = reassembly rx m off length := by
  unfold reassembly
  rw [read_congr h]

theorem reassembleLis_congr {m' : Mem} {j : Nat} (rx : Rx) (h : ∀ i < j + l.sum, m' i = m i) :
    reassembleLis m' j l rx = reassembleLis m j l rx ∧
      ∀ rx' j', reassembleLis m j l rx = some (rx', j') → j' = j + l.sum := by
  induction l generalizing j rx with
  | nil => exact ⟨rfl, fun _ _ h => by cases h; rfl⟩
  | cons a l ih =>
    rw [List.sum_cons] at h ⊢
    have ih := fun rx => ih (j := j + a) rx fun i hi => h i (by omega)
    unfold reassembleLis
    rw [reassembly_congr rx fun i _ hi => h i (by omega), funext fun rx => (ih rx).1]
    refine ⟨rfl, fun rx' j' h' => ?_⟩
    obtain ⟨rx₁, -, h'⟩ := bind_eq_some_iff.1 h'
    obtain ⟨rx₂, -, h'⟩ := bind_eq_some_iff.1 h'
    rw [(ih rx₂).2 rx' j' h', add_assoc]

def Header (m : Mem) (l : List Nat) (stop : Nat) : Prop :=
  if (m 0).toNat / 4 % 2 = 1 then Announces m (fixedSize m) 2 l stop else l = [] ∧
    stop = fixedSize m

theorem Header.infos (h : Header m l stop) (few : l.length ≤ 32) (data : (m 0).toNat / 128 = 1)
    (n : Int) :
    ∃ info, rlcAmGetDataPduInfos m n = some info ∧ info.header_size = stop ∧ info.payload = stop ∧
      info.li_list = l ∧ info.payload_size = int16 (int16 n - stop) ∧ info.hidden_size =
        if info.payload_size > int16 l.sum then
        int16 (info.payload_size - int16 l.sum) else 0 := by
  have lis : (if (m 0).toNat / 4 % 2 = 1 then readLis m 32 (fixedSize m) 2 else some ⟨[], 0,
      fixedSize m⟩) = some ⟨l, stop - fixedSize m, stop⟩ ∧ fixedSize m ≤ stop := by
    unfold Header at h
    split at h
    · obtain ⟨hle, hread, -⟩ := h.loop few
      rw [if_pos ‹_›, hread, show stop + 2 * 2 - fixedSize m - 4 = stop - fixedSize m by omega]
      exact ⟨rfl, by omega⟩
    · rw [if_neg ‹_›, h.1, h.2, Nat.sub_self]
      exact ⟨rfl, Nat.le_refl _⟩
  unfold rlcAmGetDataPduInfos
  simp only [decide_eq_true_eq, data]
  change ∃ info, Option.map _ (if (m 0).toNat / 4 % 2 = 1 then readLis m 32 (fixedSize m) 2
    else some ⟨[], 0, fixedSize m⟩) = some info ∧ _
  rw [lis.1]
  have hsize : fixedSize m + (stop - fixedSize m) = stop := by omega
  refine ⟨_, rfl, hsize, rfl, rfl, ?_, rfl⟩
  change int16 (int16 n - (fixedSize m + (stop - fixedSize m) : Nat)) = _
  rw [hsize]

theorem Header.touches (h : Header m l stop) (few : l.length ≤ 32) :
    (dataPduTouches m).2 ≤ 32 ∧ ∀ i ∈ (dataPduTouches m).1, i < stop := by
  unfold dataPduTouches
  unfold Header at h
  split at h
  · obtain ⟨hle, -, hcount, hbytes⟩ := h.loop (k := 33) (Nat.le_succ_of_le few)
    rw [if_pos ‹_›]
    dsimp only
    refine ⟨by omega, fun i hi => ?_⟩
    rcases List.mem_append.1 hi with hi | hi
    · have := List.mem_range.1 hi
      omega
    · exact hbytes i hi
  · rw [if_neg ‹_›, h.2]
    simp

/-- The parser checks nothing against the size of the PDU: it stays inside when the header with its
LIs lies in the PDU, there are at most 32 of them, and no SDU ends behind the PDU. -/
theorem the_parser_stays_inside_iff {n : Nat} (data : (m 0).toNat / 128 = 1) (hn : n < 2 ^ 15) :
    StaysInside m n ↔ ∃ l stop, Header m l stop ∧ l.length ≤ 32 ∧ stop + l.sum ≤ n := by
  constructor
  · intro inside
    obtain ⟨l, stop, header, few⟩ : ∃ l stop, Header m l stop ∧ l.length ≤ 32 := by
      have hlis := inside.lis
      unfold dataPduTouches at hlis
      unfold Header
      by_cases he : (m 0).toNat / 4 % 2 = 1
      · simp only [if_pos he] at hlis ⊢
        exact announces_of_touches (.inr rfl) hlis
      · simp only [if_neg he]
        exact ⟨[], _, ⟨rfl, rfl⟩, Nat.zero_le _⟩
    obtain ⟨info, hinfo, hsize, -, hlis, -⟩ := header.infos few data n
    obtain ⟨hpayload, hsum⟩ := inside.payload info hinfo
    rw [hlis] at hsum
    exact ⟨l, stop, header, few, by omega⟩
  · rintro ⟨l, stop, header, few, hfit⟩
    obtain ⟨info, hinfo, hsize, hpayload, hlis, hpayload_size, hhidden⟩ := header.infos few data n
    have hpayload_size : info.payload_size = n - stop := by
      rw [hpayload_size]
      unfold int16
      omega
    have hhidden : info.hidden_size = n - stop - l.sum := by
      rw [hhidden]
      unfold int16
      split <;> omega
    obtain ⟨count, bytes⟩ := header.touches few
    refine ⟨fun i hi => ?_, count, ?_, ?_, ?_⟩
    · have := bytes i hi
      omega
    all_goals
      intro x hx
      obtain rfl : info = x := some.inj (hinfo.symm.trans hx)
    · omega
    · rw [hsize, hlis, hpayload_size]
      exact ⟨rfl, by omega⟩
    intro rx m' hm
    unfold rlcAmReassemblePdu
    dsimp only
    rw [hlis]
    congr 1
    funext rx
    split
    · rw [(reassembleLis_congr rx fun i hi => hm i (by omega)).1]
      refine Option.bind_congr fun ⟨rx', j⟩ hj => ?_
      rw [(reassembleLis_congr rx fun i hi => hm i (by omega)).2 rx' j hj,
        reassembly_congr rx' fun i _ hi => hm i (by omega)]
    · rw [reassembly_congr rx fun i _ hi => hm i (by omega)]

/-- One SDU of two bytes and the start of another in a PDU of seven. -/
def twoSduPdu : Mem := fun i => [0x8c, 0, 0, 0x20, 1, 2, 3].getD i 0

theorem twoSduPdu_inside : StaysInside twoSduPdu 7 := by
  refine (the_parser_stays_inside_iff (by decide) (by decide)).2 ⟨[2], 4, ?_, by decide, by decide⟩
  exact .last_long (by decide)

/-- The first byte alone of a data PDU, and a length beyond the PDU. -/
theorem the_parser_leaves_the_pdu :
    ¬ StaysInside (fun i => [0x80].getD i 0) 1 ∧
    ¬ StaysInside (fun i => [0x84, 0, 0x7F, 0xF0, 1].getD i 0) 5 := by
  constructor
  · intro h
    exact absurd (h.bytes 1 (by decide)) (by decide)
  · intro h
    exact absurd (h.payload _ rfl).2 (by decide)

end MacRlcSplit.Am
