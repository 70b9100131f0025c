-- STATUS PDUs on the air: `rlc_am_get_control_pdu_infos` reads what
-- `rlc_am_write_status_pdu` has written, whatever bit a field starts at.
import MacRlcSplit.Am.Memory
import MacRlcSplit.Am.Report

namespace MacRlcSplit.Am

/-! ## Bits -/

/-- Bit `j` of a PDU, counted from the left. -/
def bitAt (m : Mem) (j : Nat) : Bool := (m (j / 8)).toNat.testBit (7 - j % 8)

theorem bitAt_or (m : Mem) (byte v j : Nat) : bitAt (m.set byte (m byte ||| UInt8.ofNat v)) j ↔
    bitAt m j ∨ (j / 8 = byte ∧ v.testBit (7 - j % 8)) := by
  unfold bitAt
  by_cases h : j / 8 = byte
  · have hlt : 7 - j % 8 < 8 := by omega
    simp [h, Nat.testBit_or, Nat.testBit_mod_two_pow (j := 8), hlt]
  · simp [h, set_other h]

theorem lt_of_testBit {value bits k : Nat} (hv : value < 2 ^ bits)
    (h : value.testBit k) : k < bits :=
  (Nat.pow_lt_pow_iff_right (by decide)).1 (lt_of_le_of_lt (Nat.ge_two_pow_of_testBit h) hv)

/-- The bits of `value` are or-ed in as a field of `bits` bits. -/
def Ored (bits value : Nat) (mp mp' : Mem × BitPos) : Prop := ∀ j, bitAt mp'.1 j = true ↔
  bitAt mp.1 j = true ∨ (mp.2.at ≤ j ∧ j < mp.2.at + bits ∧
    value.testBit (mp.2.at + bits - 1 - j) = true)

variable {mp mp' : Mem × BitPos} {bits value : Nat}

/-- The loop goes to a second byte at its start, where no bit of `value` can come before the
field. -/
theorem write8BitField_ored (n : Nat) (hpos : mp.2.bit < 8) (hbits : mp.2.bit + bits ≤ 8 * n)
    (hv : value < 2 ^ bits ∨ mp.2.bit = 0) :
    Ored bits value mp (write8BitField n mp bits value) := by
  intro j
  induction n generalizing mp bits with
  | zero =>
    exact ⟨.inl, fun h => h.resolve_right fun h => by omega⟩
  | succ n ih =>
    obtain ⟨m, pos⟩ := mp
    have inside : ∀ k, value.testBit k = true → k < bits ∨ pos.bit = 0 :=
      fun k h => hv.imp_left (lt_of_testBit · h)
    unfold write8BitField BitPos.at
    dsimp only at *
    split
    · rw [bitAt_or]
      grind
    split
    · rw [bitAt_or]
      grind
    · rw [ih (Nat.zero_lt_succ 7) (by dsimp only; omega) (.inr rfl), bitAt_or]
      unfold BitPos.at
      grind

theorem write16BitField_ored (hpos : mp.2.bit < 8) (hlow : 8 < bits) (hbits : bits ≤ 16)
    (hv : value < 2 ^ bits) : Ored bits value mp (write16BitField mp bits value) := by
  intro j
  have high : ∀ k, (value / 256 % 256).testBit k = (decide (k < 8) && value.testBit (8 + k)) := by
    intro k
    rw [Nat.testBit_mod_two_pow (value / 256) 8, add_comm]
    exact congrArg _ (Nat.testBit_div_two_pow (n := 8) value k)
  have hhigh : value / 256 % 256 < 2 ^ (bits - 8) := by
    refine lt_of_le_of_lt (Nat.mod_le _ _) (Nat.div_lt_of_lt_mul ?_)
    rwa [← Nat.pow_add 2 8, Nat.add_sub_cancel' (by omega)]
  obtain ⟨hat, hbit⟩ := write8BitField_writes mp (by omega : bits - 8 ≤ 8) (value / 256 % 256) hpos
  have hlow' : value % 256 < 2 ^ 8 := Nat.mod_lt _ (by decide)
  rw [write16BitField, if_pos hlow, write8BitField_ored 2 hbit (by omega) (.inl hlow'),
    write8BitField_ored 2 hpos (by omega) (.inl hhigh), hat, high]
  generalize mp.2.at = a
  clear * - hlow hbits
  grind

theorem readBitField_bits (m : Mem) (n : Nat) {pos : BitPos} (hpos : pos.bit < 8) (value : Nat)
    (hbits : pos.bit + bits ≤ 8 * n) (hone : 0 < bits) :
    (readBitField m n pos bits value).2.at = pos.at + bits ∧
      (readBitField m n pos bits value).2.bit < 8 ∧
      ∀ k, (readBitField m n pos bits value).1.testBit k =
        if k < bits then bitAt m (pos.at + bits - 1 - k) else value.testBit (k - bits) := by
  induction n generalizing pos bits value with
  | zero => omega
  | succ n ih =>
    have hb := Nat.mod_lt (m pos.byte).toNat (Nat.two_pow_pos (8 - pos.bit))
    unfold readBitField BitPos.at bitAt
    split
    · have hlt : (m pos.byte).toNat % 2 ^ (8 - pos.bit) / 2 ^ (8 - pos.bit - bits) < 2 ^ bits := by
        apply Nat.div_lt_of_lt_mul
        rwa [← Nat.pow_add, Nat.sub_add_cancel (by omega)]
      refine ⟨by dsimp only; omega, by dsimp only; omega, fun k => ?_⟩
      rw [mul_comm, Nat.testBit_two_pow_mul_add _ hlt]
      grind
    split
    · rename_i heq
      subst heq
      refine ⟨by dsimp only; omega, by dsimp only; omega, fun k => ?_⟩
      rw [mul_comm, Nat.testBit_two_pow_mul_add _ hb]
      grind
    · obtain ⟨hat, hbit, h⟩ := @ih (bits - (8 - pos.bit)) ⟨pos.byte + 1, 0⟩ (Nat.zero_lt_succ 7)
        (value * 2 ^ (8 - pos.bit) + (m pos.byte).toNat % 2 ^ (8 - pos.bit)) (by dsimp only; omega)
          (by omega)
      unfold BitPos.at at hat
      refine ⟨by dsimp only at hat ⊢; omega, hbit, fun k => ?_⟩
      rw [h, mul_comm value, Nat.testBit_two_pow_mul_add _ hb]
      unfold BitPos.at bitAt
      grind

/-! ## Fields -/

/-- `m'` has the bits of `m` up to `i`. -/
def Fixed (m m' : Mem) (i : Nat) : Prop := ∀ j < i, bitAt m' j = bitAt m j

/-- Nothing is written from the place on. -/
structure Ready (mp : Mem × BitPos) : Prop where
  bit : mp.2.bit < 8
  clear : ∀ j, mp.2.at ≤ j → bitAt mp.1 j = false

/-- What was written is what `read` gives, whatever comes behind it. -/
structure Wrote {α : Type} (read : Mem → BitPos → α) (v : BitPos → α) (mp mp' : Mem × BitPos) : Prop
    extends Ready mp' where
  before : ∀ {m}, Fixed mp'.1 m mp'.2.at → Fixed mp.1 m mp.2.at
  reads : ∀ {m}, Fixed mp'.1 m mp'.2.at → read m mp.2 = v mp'.2

theorem BitPos.eq_of_at {p q : BitPos} (h : p.at = q.at) (hp : p.bit < 8)
    (hq : q.bit < 8) : p = q := by
  obtain ⟨byte, bit⟩ := p
  obtain ⟨byte', bit'⟩ := q
  unfold BitPos.at at h
  dsimp only at h hp hq
  rw [BitPos.mk.injEq]
  omega

theorem wrote_field (h : Ready mp) (hone : 0 < bits) (hbits : bits ≤ 16) (hv : value < 2 ^ bits)
    (w : Writes bits mp mp') (hw : Ored bits value mp mp') :
    Wrote (fun m pos => readBitField m 3 pos bits 0) (value, ·) mp mp' := by
  have hpos := h.bit
  obtain ⟨hat, hbit⟩ := w hpos
  refine ⟨⟨hbit, fun j hj => ?_⟩, fun hm j hj => ?_, fun {m} hm => ?_⟩
  · rw [Bool.eq_false_iff, Ne, hw, h.clear j (by omega)]
    rintro (hf | ⟨-, hj', -⟩)
    · cases hf
    · omega
  · rw [hm j (by omega), Bool.eq_iff_iff, hw]
    exact ⟨fun h => h.resolve_right fun h => by omega, .inl⟩
  · obtain ⟨hat', hbit', hread⟩ := readBitField_bits m 3 h.bit 0 (by omega) hone
    refine Prod.ext (Nat.eq_of_testBit_eq fun k => ?_) ?_
    · rw [hread]
      split
      · rw [hm _ (by omega), Bool.eq_iff_iff, hw, h.clear _ (by omega)]
        rw [show mp.2.at + bits - 1 - (mp.2.at + bits - 1 - k) = k by omega]
        exact ⟨fun h => (h.resolve_left nofun).2.2, fun h => .inr ⟨by omega, by omega, h⟩⟩
      · rw [Nat.zero_testBit, Nat.testBit_lt_two_pow]
        exact lt_of_lt_of_le hv (Nat.pow_le_pow_right (by decide) (by omega))
    · exact BitPos.eq_of_at (hat'.trans hat.symm) hbit' hbit

theorem write8BitField_wrote (h : Ready mp) (hone : 0 < bits) (hbits : bits ≤ 8)
    (hv : value < 2 ^ bits) :
    Wrote (fun m pos => readBitField m 3 pos bits 0) (value,
      ·) mp (write8BitField 2 mp bits value) :=
  wrote_field h hone (by omega) hv (write8BitField_writes mp hbits value)
    (write8BitField_ored 2 h.bit (by have := h.bit; omega) (.inl hv))

theorem write16BitField_wrote (h : Ready mp) (hlow : 8 < bits) (hbits : bits ≤ 16)
    (hv : value < 2 ^ bits) :
    Wrote (fun m pos => readBitField m 3 pos bits 0) (value,
      ·) mp (write16BitField mp bits value) :=
  wrote_field h (by omega) hbits hv (write16BitField_writes mp hlow hbits value)
    (write16BitField_ored h.bit hlow hbits hv)

/-! ## STATUS PDUs -/

/-- The fields of an entry have their sizes. -/
structure NackSn.Sized (n : NackSn) : Prop where
  nack_sn : n.nack_sn < 1024
  so_start : n.e2 → n.so_start < 2 ^ 15
  so_end : n.e2 → n.so_end < 2 ^ 15

/-- An entry as it is read: without SOs it is about the whole PDU. -/
def NackSn.shown (n : NackSn) : NackSn :=
  if n.e2 then n else { n with so_start := 0, so_end := 0x7FFF }

theorem writeNack_wrote (ready : Ready mp) {n : NackSn} (h : n.Sized) :
    Wrote readNack (n.shown, ·) mp (writeNack mp n) := by
  have w₁ := write16BitField_wrote ready (by decide : 8 < 10) (by decide) h.nack_sn
  have w₂ := write8BitField_wrote w₁.toReady (by decide : 0 < 1) (by decide) n.e1.toNat_lt
  have w₃ := write8BitField_wrote w₂.toReady (by decide : 0 < 1) (by decide) n.e2.toNat_lt
  unfold writeNack NackSn.shown readNack
  split
  · have w₄ := write16BitField_wrote w₃.toReady (by decide : 8 < 15) (by decide) (h.so_start ‹_›)
    have w₅ := write16BitField_wrote w₄.toReady (by decide : 8 < 15) (by decide) (h.so_end ‹_›)
    refine ⟨w₅.toReady, fun hm => w₁.before (w₂.before (w₃.before (w₄.before (w₅.before hm)))),
      fun {m} hm => ?_⟩
    have f₄ := w₅.before hm
    have f₃ := w₄.before f₄
    have f₂ := w₃.before f₃
    simp only [w₁.reads (w₂.before f₂), w₂.reads f₂, w₃.reads f₃, w₄.reads f₄, w₅.reads hm]
    obtain ⟨_, e1, e2, _, _⟩ := n
    simp_all
  · refine ⟨w₃.toReady, fun hm => w₁.before (w₂.before (w₃.before hm)), fun {m} hm => ?_⟩
    have f₂ := w₃.before hm
    simp only [w₁.reads (w₂.before f₂), w₂.reads f₂, w₃.reads hm]
    simp_all

/-- E1 is set in all entries but the last. -/
def Chained (l : List NackSn) : Prop := ∀ k n, l[k]? = some n → n.e1 = decide (k + 1 < l.length)

theorem writeNacks_wrote (ready : Ready mp) {l : List NackSn} (hsized : ∀ n ∈ l, n.Sized)
    (hchained : Chained l) {room : Nat} (hroom : l.length ≤ room) :
    Wrote (fun m pos => if l.length > 0 then readNacks m room pos else ([], true, pos))
      (l.map NackSn.shown, true, ·) mp (l.foldl writeNack mp) := by
  induction l generalizing mp room with
  | nil => exact ⟨ready, id, fun _ => rfl⟩
  | cons n l ih =>
    obtain _ | room := room
    · cases hroom
    have w := writeNack_wrote ready (hsized n List.mem_cons_self)
    have ws := ih w.toReady (fun n hn => hsized n (List.mem_cons_of_mem _ hn))
      (fun k n hn => by simpa using hchained (k + 1) n hn) (Nat.le_of_succ_le_succ hroom)
    have he1 : n.shown.e1 = decide (0 < l.length) := by
      rw [show n.shown.e1 = n.e1 by unfold NackSn.shown; split <;> rfl, hchained 0 n rfl]
      simp
    refine ⟨ws.toReady, fun hm => w.before (ws.before hm), fun {m} hm => ?_⟩
    have rs := ws.reads hm
    rw [if_pos (by simp), readNacks, w.reads (ws.before hm)]
    simp only [he1, decide_eq_true_eq]
    split
    · rw [if_pos ‹_›] at rs
      rw [rs]
      rfl
    · rw [if_neg ‹_›, Prod.mk.injEq, Prod.mk.injEq] at rs
      rw [List.map_cons, ← rs.1, List.foldl_cons, ← rs.2.2]

/-- What a control PDU info has to be to be sent. -/
structure ControlPduInfo.Sized (info : ControlPduInfo) : Prop where
  ack_sn : info.ack_sn < 1024
  few : info.nack_list.length ≤ 1022
  nacks : ∀ n ∈ info.nack_list, n.Sized
  chained : Chained info.nack_list

theorem cpt_of_fixed {m : Mem} (hm : Fixed (fun _ => 0) m 4) : (m 0).toNat / 16 = 0 := by
  apply Nat.eq_of_testBit_eq
  intro k
  change ((m 0).toNat / 2 ^ 4).testBit k = _
  rw [Nat.testBit_div_two_pow, Nat.zero_testBit]
  by_cases hk : k < 4
  · have := hm (3 - k) (by omega)
    simp only [bitAt, show (3 - k) / 8 = 0 by omega, show 7 - (3 - k) % 8 = k + 4 by omega] at this
    simpa using this
  · refine Nat.testBit_lt_two_pow (lt_of_lt_of_le (m 0).toNat_lt ?_)
    exact Nat.pow_le_pow_right (by decide) (by omega : 8 ≤ k + 4)

theorem rlcAmGetControlPduInfos_of_reads {m : Mem} {ack_sn : Nat} {l : List NackSn}
    {pos₁ pos₂ pos : BitPos} (hcpt : (m 0).toNat / 16 = 0)
    (r₁ : readBitField m 3 ⟨0, 4⟩ 10 0 = (ack_sn, pos₁))
    (r₂ : readBitField m 3 pos₁ 1 0 = (if l.length > 0 then 1 else 0, pos₂))
    (r₃ : (if l.length > 0 then readNacks m 1023 pos₂ else ([], true, pos₂)) =
      (l.map NackSn.shown, true, pos)) (total_size : Int) : rlcAmGetControlPduInfos m total_size =
      (some ⟨ack_sn, l.map NackSn.shown⟩, total_size - (pos.byte + (pos.bit + 7) / 8 : Nat)) := by
  have h1 := (m 1).toNat_lt
  -- ACK_SN and E1 are read from the first two bytes as a whole
  obtain ⟨rfl, rfl⟩ := r₁
  unfold readBitField at r₂
  simp only [zero_add, Nat.reduceSub, if_pos (by decide : 2 > 1), Prod.mk.injEq] at r₂
  obtain ⟨hmore, rfl⟩ := r₂
  have hack : (0 * 2 ^ (8 - 4) + (m 0).toNat % 2 ^ (8 - 4)) * 2 ^ (10 - (8 - 4)) +
      (m 1).toNat % 2 ^ (8 - 0) / 2 ^ (8 - 0 - (10 - (8 - 4))) =
        (m 1).toNat / 4 + (m 0).toNat % 16 * 64 := by omega
  unfold rlcAmGetControlPduInfos
  dsimp only
  rw [hcpt, if_neg (by decide), hack]
  split at hmore
  · rw [if_pos ‹_›] at r₃
    rw [if_pos (by omega), r₃]
    rfl
  · rw [if_neg ‹_›] at r₃
    obtain ⟨hnil, -, rfl⟩ := by simpa using r₃
    rw [if_neg (by omega), hnil]
    rfl

/-- What is written is read again, to its last byte. -/
theorem a_status_pdu_is_read_as_written {info : ControlPduInfo} (h : info.Sized)
    (total_size : Int) : rlcAmGetControlPduInfos (rlcAmWriteStatusPdu info).1 total_size =
      (some ⟨info.ack_sn, info.nack_list.map NackSn.shown⟩,
        total_size - (rlcAmWriteStatusPdu info).2) := by
  obtain ⟨ack_sn, l⟩ := info
  unfold rlcAmWriteStatusPdu
  generalize hmp : ((fun _ => 0 : Mem), (⟨0, 4⟩ : BitPos)) = mp
  have ready : Ready mp := hmp ▸ ⟨by decide, fun j _ => by simp [bitAt]⟩
  have w₁ := write16BitField_wrote ready (by decide : 8 < 10) (by decide) h.ack_sn
  have w₂ := write8BitField_wrote w₁.toReady (by decide : 0 < 1) (by decide)
    (by split <;> decide : (if l.length > 0 then 1 else 0) < 2 ^ 1)
  have w₃ := writeNacks_wrote w₂.toReady h.nacks h.chained (Nat.le_succ_of_le h.few)
  dsimp only at w₁ w₂ w₃ ⊢
  generalize l.foldl writeNack _ = mp₃ at w₃ ⊢
  generalize write8BitField 2 _ 1 _ = mp₂ at w₂ w₃
  have f₂ := w₃.before fun _ _ => rfl
  have f₁ := w₂.before f₂
  subst hmp
  rw [rlcAmGetControlPduInfos_of_reads (cpt_of_fixed (w₁.before f₁)) (w₁.reads f₁) (w₂.reads f₂)
    (w₃.reads fun _ _ => rfl)]
  have := w₃.bit
  congr 3
  split <;> omega

theorem two_nacks_are_read_as_written :
    let info : ControlPduInfo := ⟨3, [⟨1, true, false, 0, 0⟩, ⟨2, false, true, 5, 9⟩]⟩
    info.Sized ∧ rlcAmGetControlPduInfos (rlcAmWriteStatusPdu info).1 9 =
      (some ⟨3, [⟨1, true, false, 0, 0x7FFF⟩, ⟨2, false, true, 5, 9⟩]⟩, 0) := by
  have h : (⟨3, [⟨1, true, false, 0, 0⟩, ⟨2, false, true, 5, 9⟩]⟩ : ControlPduInfo).Sized :=
    ⟨by decide, by decide, by simp [NackSn.Sized.mk], fun k n hk => by
      obtain _ | _ | k := k <;> cases hk <;> rfl⟩
  exact ⟨h, a_status_pdu_is_read_as_written h 9⟩

end MacRlcSplit.Am
