-- The sender as the source of one stream of SDUs: each PDU carries the next
-- symbols of it, and the queue holds what is left.
import MacRlcSplit.Um.Header
import MacRlcSplit.Um.Reading

namespace MacRlcSplit.Um

open Lib Am List

/-! ## The queue -/

def TxSdu.rest (x : TxSdu) : List Byte := x.data.drop x.sdu_segmented_size

theorem TxSdu.length_rest (x : TxSdu) : x.rest.length = x.sdu_remaining_size := by
  simp [rest, sdu_remaining_size]

theorem TxSdu.remaining_pos (x : TxSdu) : 0 < x.sdu_remaining_size := by
  have := x.more
  unfold sdu_remaining_size
  omega

theorem TxSdu.rest_ne_nil (x : TxSdu) : x.rest ≠ [] :=
  ne_nil_of_length_pos (by rw [length_rest]; exact x.remaining_pos)

def TxSdu.whole (x : TxSdu) : Bool := x.sdu_segmented_size = 0

def queueCells (q : List TxSdu) : List (Cell Byte) := q.flatMap fun x => mark x.whole true x.rest

@[simp] theorem queueCells_cons (x : TxSdu) (l : List TxSdu) :
    queueCells (x :: l) = mark x.whole true x.rest ++ queueCells l := flatMap_cons

theorem queueCells_append (q q' : List TxSdu) : queueCells (q ++ q') =
    queueCells q ++ queueCells q' := flatMap_append

def queueBytes (q : List TxSdu) : Nat := (q.map TxSdu.sdu_remaining_size).sum

@[simp] theorem queueBytes_cons (x : TxSdu) (l : List TxSdu) :
    queueBytes (x :: l) = x.sdu_remaining_size + queueBytes l := by
  simp [queueBytes]

/-- The bytes that the queue takes, with the LIs between the SDUs, after `k` LIs. -/
def need (k : Nat) : List TxSdu → Nat
  | [] => 0
  | [x] => x.sdu_remaining_size
  | x :: y :: l => x.sdu_remaining_size + liLen k + need (k + 1) (y :: l)

theorem need_eq (k : Nat) (x : TxSdu) (l : List TxSdu) :
    need k (x :: l) + liBytes k = queueBytes (x :: l) + liBytes (k + l.length) := by
  induction l generalizing k x with
  | nil => simp [need, queueBytes]
  | cons y l ih =>
    have hnext := ih (k + 1) y
    rw [liBytes_succ, add_assoc k 1, add_comm 1] at hnext
    rw [need, queueBytes_cons, length_cons]
    omega

/-! ## The test loop -/

variable {x : TxSdu} {n : Nat}

/-- The loop never counts back, counts no LI for the last SDU, and leaves a byte at least. -/
theorem planPdu_bounds {rem k unused : Nat} {l : List TxSdu} {plan : Plan} (hrem : 0 < rem)
    (hneed : rem ≤ need k (x :: l)) (hplan : planPdu rem (liLen k) unused k (x :: l) = plan) :
    k ≤ plan.test_num_li ∧ plan.test_num_li ≤ k + l.length ∧ plan.shrink < rem ∧
    plan.sizeShrink = plan.shrink := by
  induction l generalizing rem k unused x with
  | nil =>
    rw [need] at hneed
    rw [planPdu, if_pos hneed] at hplan
    subst hplan
    exact ⟨Nat.le_refl k, Nat.le_add_right .., hrem, rfl⟩
  | cons y l ih =>
    have hr := x.remaining_pos
    rw [need] at hneed
    rw [planPdu] at hplan
    split_ifs at hplan with h₁ h₂ h₃
    · subst hplan
      exact ⟨Nat.le_refl k, Nat.le_add_right .., hrem, rfl⟩
    · subst hplan
      exact ⟨Nat.le_refl k, Nat.le_add_right .., by dsimp only; omega, rfl⟩
    · rw [← liLen_succ] at hplan
      obtain ⟨hle, hmany, hlt, hsize⟩ := ih (by omega) (by omega) hplan
      rw [length_cons]
      exact ⟨by omega, by omega, by omega, hsize⟩
    · subst hplan
      exact ⟨Nat.le_refl k, Nat.le_add_right .., by dsimp only; omega, rfl⟩

/-! ## The fill loop -/

/-- What the fill loop makes of a queue that starts with `x`, when `num_li` LIs are planned and
the PDU has room for `room` more bytes, with `k` LIs behind it. -/
structure Filled (base k num_li room : Nat) (x : TxSdu) (l : List TxSdu) (f f' : Fill)
    (lis : List Nat) (bytes : List Byte) : Prop where
  count : k + lis.length = num_li
  filled : f'.fill_num_li = num_li
  full : f'.pdu_remaining_size = 0
  size : bytes.length + liBytes num_li = room + liBytes k
  pos : ∀ n ∈ lis, 0 < n
  small : ∀ n ∈ lis, n < 2048
  sum : lis.sum < bytes.length
  cells : queueCells (x :: l) = pieces x.whole f'.last_byte_is_last lis bytes ++
    queueCells f'.input_sdus
  tail : ∀ y ∈ f'.input_sdus.tail, y.whole
  left : f.buffer_occupancy = queueBytes (x :: l) → f'.buffer_occupancy = queueBytes f'.input_sdus
  lisAt : LisAt f'.mem base k lis
  payload : f'.mem.read f.data bytes.length = bytes
  keeps : ∀ t < k, ∀ v more, LiAt f.mem base t v more → LiAt f'.mem base t v more
  stays : ∀ a, base + liBytes num_li ≤ a → a < f.data → f'.mem a = f.mem a

theorem TxSdu.bytes_all (x : TxSdu) : x.bytes x.sdu_remaining_size = x.rest := by
  rw [← length_rest]
  exact take_length

theorem TxSdu.length_bytes (h : n ≤ x.sdu_remaining_size) : (x.bytes n).length = n := by
  unfold bytes
  rw [length_take, length_drop]
  unfold sdu_remaining_size at h
  omega

theorem TxSdu.rest_cut (h : n < x.sdu_remaining_size) : x.rest = x.bytes n ++ (x.cut n h).rest := by
  simp [bytes, rest, cut, ← drop_drop]

theorem TxSdu.cells_cut (hn : 0 < n) (h : n < x.sdu_remaining_size) : mark x.whole true x.rest =
      mark x.whole false (x.bytes n) ++ mark (x.cut n h).whole true (x.cut n h).rest := by
  have hcut : (x.cut n h).whole = false := by
    simp [whole, cut, Nat.ne_of_gt hn]
  have hbytes : x.bytes n ≠ [] :=
    ne_nil_of_length_pos (by rw [length_bytes (Nat.le_of_lt h)]; exact hn)
  rw [hcut, rest_cut h]
  exact mark_append hbytes (x.cut n h).rest_ne_nil

section FillPdu

variable {base k test_num_li li : Nat} {x : TxSdu} {l : List TxSdu} {f : Fill}

/-- The last SDU of a PDU fills what is left of it. The SDU is then done, or its rest stays in the
queue. -/
theorem fillPdu_end (test_num_li li : Nat) (hpos : 0 < f.pdu_remaining_size)
    (hrem : f.pdu_remaining_size ≤ x.sdu_remaining_size) (tail : ∀ y ∈ l, y.whole) :
    ∃ q done, fillPdu test_num_li li (x :: l) f =
        { f with
          mem := f.mem.copy f.data (x.bytes f.pdu_remaining_size)
          input_sdus := q
          buffer_occupancy := f.buffer_occupancy - f.pdu_remaining_size
          last_byte_is_last := done
          pdu_remaining_size := 0 } ∧
      queueCells (x :: l) = mark x.whole done (x.bytes f.pdu_remaining_size) ++ queueCells q ∧
      (∀ y ∈ q.tail, y.whole) ∧ queueBytes (x :: l) = f.pdu_remaining_size + queueBytes q := by
  rcases Nat.lt_or_eq_of_le hrem with hlt | heq
  · refine ⟨x.cut _ hlt :: l, false, by rw [fillPdu]; simp [hlt], ?_, tail, ?_⟩
    · rw [queueCells_cons, TxSdu.cells_cut hpos hlt]
      simp
    · simp only [queueBytes_cons, TxSdu.cut, TxSdu.sdu_remaining_size] at hlt ⊢
      omega
  · rw [heq]
    exact ⟨l, true, by rw [fillPdu]; simp [heq, x.bytes_all], by rw [x.bytes_all, queueCells_cons],
      fun y hy => tail y (mem_of_mem_tail hy), queueBytes_cons x l⟩

theorem fillPdu_last (hk : f.fill_num_li = k) (hpos : 0 < f.pdu_remaining_size)
    (hrem : f.pdu_remaining_size ≤ x.sdu_remaining_size) (tail : ∀ y ∈ l, y.whole)
    (data : base + liBytes k ≤ f.data) :
    ∃ lis bytes, Filled base k k f.pdu_remaining_size x l f (fillPdu test_num_li li (x :: l) f)
      lis bytes := by
  have hlen := TxSdu.length_bytes hrem
  obtain ⟨q, done, heq, cells, tail, hbytes⟩ := fillPdu_end test_num_li li hpos hrem tail
  rw [heq]
  exact ⟨[], x.bytes f.pdu_remaining_size, {
    count := rfl
    filled := hk
    full := rfl
    size := by rw [hlen]
    pos := by simp
    small := by simp
    sum := by simpa [hlen] using hpos
    cells := cells
    tail := tail
    left := fun h => by rw [h, hbytes, Nat.add_sub_cancel_left]
    lisAt := trivial
    payload := read_copy f.mem f.data _
    keeps := fun t ht v more => liAt_congr fun a _ ha => copy_outside (.inl (by
      unfold liBytes at ha data
      omega))
    stays := fun a _ ha => copy_outside (.inl ha) }⟩

/-- The variables of the loop after an SDU that another one follows. -/
def Fill.next (f : Fill) (test_num_li li : Nat) (x : TxSdu) (l : List TxSdu) : Fill :=
  { f with
    input_sdus := l
    buffer_occupancy := f.buffer_occupancy - x.sdu_remaining_size
    data := f.data + x.sdu_remaining_size
    mem := writeLi (f.mem.copy f.data x.rest) f.e_li li x.sdu_remaining_size (f.fill_num_li + 1 =
      test_num_li)
    e_li := if li = 2 then f.e_li else f.e_li + 3
    fill_num_li := f.fill_num_li + 1
    pdu_remaining_size := f.pdu_remaining_size - (x.sdu_remaining_size + li) }

theorem fillPdu_next (h : x.sdu_remaining_size + li < f.pdu_remaining_size) :
    fillPdu test_num_li li (x :: l) f =
      fillPdu test_num_li (3 - li) l (f.next test_num_li li x l) := by
  rw [fillPdu]
  have h₁ : ¬ f.pdu_remaining_size < x.sdu_remaining_size := by omega
  have h₂ : x.sdu_remaining_size ≠ f.pdu_remaining_size := by omega
  simp [h, h₁, h₂, x.bytes_all, Fill.next]

theorem Filled.cons {y : TxSdu} {num_li room : Nat} {f' : Fill} {lis : List Nat} {bytes : List Byte}
    (hk : f.fill_num_li = k) (hli : f.e_li = base + 3 * (k / 2)) (hy : y.whole)
    (data : base + liBytes num_li ≤ f.data) (clear : HalfClear f.mem base k)
    (hsmall : x.sdu_remaining_size < 2048)
    (h : Filled base (k + 1) num_li room y l (f.next num_li (liLen k) x (y :: l)) f' lis bytes) :
    Filled base k num_li (x.sdu_remaining_size + liLen k + room) x (y :: l) f f'
      (x.sdu_remaining_size :: lis) (x.rest ++ bytes) := by
  have hcount := h.count
  have hstart : base + liBytes (k + 1) ≤ f.data := by
    unfold liBytes at data ⊢
    omega
  have hlast : (!decide (f.fill_num_li + 1 = num_li)) = !lis.isEmpty := by
    cases lis with
    | nil => simp at hcount; simp [hk, hcount]
    | cons n lis => simp at hcount ⊢; omega
  have copied : ∀ a < base + liBytes (k + 1), f.mem.copy f.data x.rest a = f.mem a := fun a ha =>
    copy_outside (.inl (by omega))
  have clear' : HalfClear (f.mem.copy f.data x.rest) base k := by
    intro hodd
    rw [copied _ (by unfold liBytes; omega)]
    exact clear hodd
  have hmem : (f.next num_li (liLen k) x (y :: l)).mem =
      writeLi (f.mem.copy f.data x.rest) (base + 3 * (k / 2)) (liLen k) x.sdu_remaining_size
        (f.fill_num_li + 1 = num_li) := by
    simp [Fill.next, hli]
  -- the LI and the bytes of the SDU, which the rest of the loop leaves alone
  have hthis : LiAt f'.mem base k x.sdu_remaining_size (!lis.isEmpty) := by
    apply h.keeps k (Nat.lt_succ_self k)
    rw [hmem, ← hlast]
    exact writeLi_liAt hsmall clear'
  have hrest : f'.mem.read f.data x.sdu_remaining_size = x.rest := by
    have hread := read_copy f.mem f.data x.rest
    rw [x.length_rest] at hread
    rw [← hread]
    apply read_congr
    intro a ha ha'
    rw [h.stays a (by omega) ha', hmem]
    exact writeLi_outside _ _ (.inr (by omega))
  exact {
    count := by simp; omega
    filled := h.filled
    full := h.full
    size := by
      have hsize := h.size
      rw [liBytes_succ] at hsize
      rw [length_append, x.length_rest]
      omega
    pos := by
      simp only [mem_cons, forall_eq_or_imp]
      exact ⟨x.remaining_pos, h.pos⟩
    small := by
      simp only [mem_cons, forall_eq_or_imp]
      exact ⟨hsmall, h.small⟩
    sum := by
      have hsum := h.sum
      rw [sum_cons, length_append, x.length_rest]
      omega
    cells := by
      rw [queueCells_cons, h.cells, hy, pieces, ← x.length_rest, take_left, drop_left, append_assoc]
    tail := h.tail
    left := fun hall => h.left (by simp [Fill.next, hall])
    lisAt := ⟨hthis, h.lisAt⟩
    payload := by
      rw [length_append, read_append, x.length_rest, hrest]
      exact congrArg (x.rest ++ ·) h.payload
    keeps := by
      intro t ht v more hat
      apply h.keeps t (Nat.lt_succ_of_lt ht)
      rw [hmem]
      apply writeLi_keeps hsmall ht clear'
      exact liAt_congr (fun a _ ha => copied a (by unfold liBytes at ha ⊢; omega)) hat
    stays := by
      intro a ha ha'
      rw [h.stays a ha (Nat.lt_add_right _ ha'), hmem, writeLi_outside _ _ (.inr ?_)]
      · exact copy_outside (.inl ha')
      · unfold liBytes at ha ⊢
        omega }

/-- What the fill loop does with the plan of the test loop. -/
theorem fillPdu_spec {rem unused : Nat} {plan : Plan} (hrem : 0 < rem)
    (hneed : rem ≤ need k (x :: l)) (hplan : planPdu rem (liLen k) unused k (x :: l) = plan)
    (hk : f.fill_num_li = k) (hli : f.e_li = base + 3 * (k / 2))
    (hroom : f.pdu_remaining_size = rem - plan.shrink) (tail : ∀ y ∈ l, y.whole)
    (data : base + liBytes plan.test_num_li ≤ f.data) (clear : HalfClear f.mem base k)
    (small : ∀ y ∈ (x :: l).take (plan.test_num_li - k), y.sdu_remaining_size < 2048) :
    ∃ lis bytes, Filled base k plan.test_num_li (rem - plan.shrink) x l f
      (fillPdu plan.test_num_li (liLen k) (x :: l) f) lis bytes := by
  induction l generalizing rem k unused x f with
  | nil =>
    rw [need] at hneed
    rw [planPdu, if_pos hneed] at hplan
    subst hplan
    rw [← hroom]
    dsimp only at hroom
    exact fillPdu_last hk (by omega) (by omega) tail data
  | cons y l ih =>
    have hli_le : liLen k ≤ 2 := by
      unfold liLen
      split <;> omega
    have hr := x.remaining_pos
    rw [need] at hneed
    rw [planPdu] at hplan
    split_ifs at hplan with h₁ h₂ h₃
    iterate 2
      · subst hplan
        rw [← hroom]
        dsimp only at hroom
        exact fillPdu_last hk (by omega) (by omega) tail data
    · -- another SDU follows in this PDU
      rw [← liLen_succ] at hplan
      obtain ⟨hle, -, hlt, -⟩ := planPdu_bounds (by omega) (by omega) hplan
      have htake : plan.test_num_li - k = plan.test_num_li - (k + 1) + 1 := by omega
      rw [htake] at small
      have hsmall := small x mem_cons_self
      have clear' : HalfClear (f.next plan.test_num_li (liLen k) x (y :: l)).mem base (k + 1) := by
        simp only [Fill.next, hli]
        exact writeLi_halfClear hsmall
      obtain ⟨lis, bytes, h⟩ := ih (by omega)
        (by omega) hplan (by simp [Fill.next, hk]) (by
          simp only [Fill.next, hli, liLen]
          split <;> split <;> omega)
        (by simp only [Fill.next]; omega)
        (fun z hz => tail z (mem_cons_of_mem y hz))
        (by simp only [Fill.next]; omega) clear' (fun z hz => small z (mem_cons_of_mem x hz))
      rw [fillPdu_next (by omega), ← liLen_succ]
      have hfilled := h.cons hk hli (tail y mem_cons_self) data clear hsmall
      have hsum : x.sdu_remaining_size + liLen k +
          (rem - (x.sdu_remaining_size + liLen k) - plan.shrink) = rem - plan.shrink := by omega
      rw [hsum] at hfilled
      exact ⟨_, _, hfilled⟩
    · subst hplan
      rw [← hroom]
      dsimp only at hroom
      exact fillPdu_last hk (by omega) (by omega) tail data

end FillPdu

/-! ## A PDU -/

/-- The queue as the calls keep it: only its first SDU can have given bytes, and
`buffer_occupancy` counts what is left. -/
structure TxOk (tx : Tx) : Prop where
  tail : ∀ y ∈ tx.input_sdus.tail, y.whole
  left : tx.buffer_occupancy = queueBytes tx.input_sdus
  grant : tx.nb_bytes_requested_by_mac < 2 ^ 16

def Tx.plan (tx : Tx) : Plan := planOf tx tx.tx_sn_length.headerMinLength

/-- The LIs of the next PDU can be read back: there are fewer than
`RLC_UM_SEGMENT_NB_MAX_LI_PER_PDU`, and each fits in its 11 bits. -/
def LisFit (tx : Tx) : Prop := tx.plan.test_num_li < 24 ∧
    ∀ x ∈ tx.input_sdus.take tx.plan.test_num_li, x.sdu_remaining_size < 2048

instance (tx : Tx) : Decidable (LisFit tx) := inferInstanceAs (Decidable (_ ∧ _))

theorem maxLiOverhead_eq (n : Nat) : maxLiOverhead (n + 1) = liBytes n := by
  unfold maxLiOverhead liBytes
  rcases Nat.mod_two_eq_zero_or_one n with h | h
  · split <;> omega
  · split <;> omega

section Pdu

variable {tx tx' : Tx} {x : TxSdu} {l : List TxSdu} {junk : Mem}

theorem dataPduSize_eq (tx : Tx) : dataPduSize tx = min tx.nb_bytes_requested_by_mac
    (tx.buffer_occupancy + tx.tx_sn_length.headerMinLength +
      maxLiOverhead tx.input_sdus.length) := by
  unfold dataPduSize
  dsimp only
  split <;> omega

theorem dataPduSize_le (left : tx.buffer_occupancy = queueBytes tx.input_sdus)
    (hq : tx.input_sdus = x :: l) :
    dataPduSize tx ≤ tx.tx_sn_length.headerMinLength + need 0 (x :: l) := by
  have hneed := need_eq 0 x l
  have hover := maxLiOverhead_eq l.length
  have hzero : liBytes 0 = 0 := rfl
  rw [zero_add] at hneed
  rw [dataPduSize_eq, left, hq, length_cons]
  omega

theorem dataPduSize_le_grant (tx : Tx) : dataPduSize tx ≤ tx.nb_bytes_requested_by_mac := by
  rw [dataPduSize_eq]
  omega

theorem dataPduSize_pos (left : tx.buffer_occupancy = queueBytes tx.input_sdus)
    (hq : tx.input_sdus = x :: l)
    (hgrant : tx.tx_sn_length.headerMinLength < tx.nb_bytes_requested_by_mac) :
    tx.tx_sn_length.headerMinLength < dataPduSize tx := by
  have hr := x.remaining_pos
  rw [dataPduSize_eq, left, hq, queueBytes_cons]
  omega

/-- The variables with which the fill loop starts. -/
def Tx.blank (tx : Tx) (header : Nat) (junk : Mem) : Fill where
  buffer_occupancy := tx.buffer_occupancy
  mem := junk.copy 0 [0, 0, 0, 0]
  data := header + (tx.plan.test_num_li * 3 + 1) / 2
  e_li := header
  pdu_remaining_size := dataPduSize tx - header - tx.plan.shrink

theorem fillOf_spec (junk : Mem) (ok : TxOk tx) (hq : tx.input_sdus = x :: l)
    (hgrant : tx.tx_sn_length.headerMinLength < tx.nb_bytes_requested_by_mac) (fit : LisFit tx) :
    ∃ lis bytes, Filled tx.tx_sn_length.headerMinLength 0 tx.plan.test_num_li
      (dataPduSize tx - tx.tx_sn_length.headerMinLength - tx.plan.shrink) x l
      (tx.blank tx.tx_sn_length.headerMinLength junk)
        (fillOf tx tx.tx_sn_length.headerMinLength junk) lis bytes := by
  have hle := dataPduSize_le ok.left hq
  have hlt := dataPduSize_pos ok.left hq hgrant
  have htail := ok.tail
  have hsmall := fit.2
  rw [hq] at htail hsmall
  have hplan : planPdu (dataPduSize tx - tx.tx_sn_length.headerMinLength) (liLen 0) 0 0 (x :: l) =
      tx.plan := by
    unfold Tx.plan planOf
    rw [hq]
    rfl
  obtain ⟨lis, bytes, h⟩ := fillPdu_spec (f := tx.blank tx.tx_sn_length.headerMinLength junk)
    (by omega) (by omega) hplan rfl rfl rfl htail (Nat.le_refl _) (fun h => absurd h (by decide))
    hsmall
  refine ⟨lis, bytes, ?_⟩
  unfold fillOf
  rw [hq]
  exact h

theorem carries_of_filled {n : SnLength} {tb : MacTbInd} {num_li room : Nat} {f f' : Fill}
    {lis : List Nat} {bytes : List Byte}
    (filled : Filled n.headerMinLength 0 num_li room x l f f' lis bytes) (few : num_li < 24)
    (hdata : f.data = n.headerMinLength + liBytes num_li)
    (hfi : n.fi tb.data = (if x.whole then 0 else 2) + if f'.last_byte_is_last then 0 else 1)
    (he : n.e tb.data = decide (0 < num_li))
    (hsize : tb.size % 2 ^ 16 = n.headerMinLength + liBytes num_li + bytes.length)
    (same : ∀ a, n.headerMinLength ≤ a → a < tb.size % 2 ^ 16 → tb.data a = f'.mem a) :
    Carries n tb x.whole f'.last_byte_is_last lis bytes := by
  have hcount := filled.count
  rw [zero_add] at hcount
  subst hcount
  exact {
    fi := hfi
    e := by
      rw [he]
      cases lis <;> simp
    read := by
      intro hne
      have hlis : LisAt tb.data n.headerMinLength 0 lis := by
        refine lisAt_congr (fun a ha ha' => same a ha ?_) filled.lisAt
        rw [zero_add] at ha'
        omega
      exact readLengthIndicators_eq (j := 0) hne few filled.small hlis
    size := hsize
    payload := by
      have hpayload := filled.payload
      rw [hdata] at hpayload
      rw [← hpayload]
      simp only [length_read]
      exact read_congr fun a ha ha' => same a (by omega) (by unfold liBytes at hsize; omega)
    pos := filled.pos
    sum := filled.sum }

/-- The next PDU: the symbols it carries leave the queue, wherever its bytes are read. -/
structure Sends (tx tx' : Tx) (req : TbReq) (cells : List (Cell Byte)) : Prop where
  leaves : queueCells tx.input_sdus = cells ++ queueCells tx'.input_sdus
  ok : TxOk tx'
  tx_sn_length : tx'.tx_sn_length = tx.tx_sn_length
  vt_us : tx'.vt_us = (tx.vt_us + 1) % 2 ^ 16
  pos : 0 < req.tb_size
  fits : req.tb_size < 2 ^ 16
  carries : ∀ tb : MacTbInd, tb.size = req.tb_size → (∀ a < req.tb_size, tb.data a = req.data a) →
    CarriesCells tx.tx_sn_length tb cells ∧ tx.tx_sn_length.sn tb.data =
      tx.vt_us % tx.tx_sn_length.modulo

theorem framingInfo_eq (hq : tx.input_sdus = x :: l) (f : Fill) :
    framingInfo tx f = (if x.whole then 0 else 2) + if f.last_byte_is_last then 0 else 1 := by
  have hmore := x.more
  have hwhole : decide (x.sdu_remaining_size = x.sdu_size) = x.whole := by
    unfold TxSdu.sdu_remaining_size TxSdu.sdu_size TxSdu.whole
    rw [decide_eq_decide]
    omega
  simp [framingInfo, hq, hwhole]

section Header

variable {fi n sn : Nat} {m : Mem} (hfi : fi < 4)
include hfi

theorem ten_header (h : m 0 =
    (UInt8.ofNat (fi * 8) ||| (if n > 0 then 0x04 else 0) ||| UInt8.ofNat (sn / 256 % 4))) :
    SnLength.ten.fi m = fi ∧ SnLength.ten.e m = decide (0 < n) ∧
    (m 0).toNat % 4 = sn / 256 % 4 := by
  have table : ∀ a < 4, ∀ b : Bool, ∀ c < 4,
      (UInt8.ofNat (a * 8) ||| (if b then 0x04 else 0) ||| UInt8.ofNat c).toNat =
      a * 8 + (if b then 4 else 0) + c := by decide
  have hb1 := table fi hfi (decide (n > 0)) _ (Nat.mod_lt (sn / 256) (show 0 < 4 by decide))
  simp only [decide_eq_true_eq] at hb1
  simp only [SnLength.fi, SnLength.e, h, hb1, decide_eq_decide]
  refine ⟨?_, ?_, ?_⟩ <;> split <;> omega

theorem five_header
    (h : m 0 = (UInt8.ofNat (fi * 64) ||| (if n > 0 then 0x20 else 0) ||| UInt8.ofNat (sn % 32))) :
    SnLength.five.fi m = fi ∧ SnLength.five.e m = decide (0 < n) ∧
    SnLength.five.sn m = sn % 32 := by
  have table : ∀ a < 4, ∀ b : Bool, ∀ c < 32,
      (UInt8.ofNat (a * 64) ||| (if b then 0x20 else 0) ||| UInt8.ofNat c).toNat =
        a * 64 + (if b then 32 else 0) + c := by decide
  have hb1 := table fi hfi (decide (n > 0)) _ (Nat.mod_lt sn (show 0 < 32 by decide))
  simp only [decide_eq_true_eq] at hb1
  simp only [SnLength.fi, SnLength.e, SnLength.sn, h, hb1, decide_eq_decide]
  refine ⟨?_, ?_, ?_⟩ <;> split <;> omega

end Header

variable {req : TbReq}

theorem sends_of_filled {lis : List Nat} {bytes : List Byte} {header room : Nat} {f : Fill}
    (hheader : tx.tx_sn_length.headerMinLength = header) (ok : TxOk tx) (fit : LisFit tx)
    (hq : tx.input_sdus = x :: l)
    (filled : Filled header 0 tx.plan.test_num_li room x l (tx.blank header junk) f lis bytes)
    (hsize : req.tb_size = header + liBytes tx.plan.test_num_li + bytes.length)
    (hgrant : req.tb_size ≤ tx.nb_bytes_requested_by_mac)
    (same : ∀ a, header ≤ a → req.data a = f.mem a)
    (head : ∀ m : Mem, m 0 = req.data 0 → m 1 = req.data 1 ∨ tx.tx_sn_length = .five →
      tx.tx_sn_length.fi m = framingInfo tx f ∧ tx.tx_sn_length.e m = decide (0 < f.fill_num_li) ∧
        tx.tx_sn_length.sn m = tx.vt_us % tx.tx_sn_length.modulo) :
    Sends tx (tx.filled f) req (pieces x.whole f.last_byte_is_last lis bytes) where
  leaves := by
    rw [hq]
    exact filled.cells
  ok :=
    { tail := filled.tail
      left := filled.left (by rw [← hq]; exact ok.left)
      grant := ok.grant }
  tx_sn_length := rfl
  vt_us := rfl
  pos := by
    have := filled.sum
    omega
  fits := Nat.lt_of_le_of_lt hgrant ok.grant
  carries := by
    intro tb htb hread
    subst hheader
    have hsum := filled.sum
    have hlen : tx.tx_sn_length = .five ∨ 2 ≤ tx.tx_sn_length.headerMinLength := by
      cases tx.tx_sn_length with
      | five => exact .inl rfl
      | ten => exact .inr (Nat.le_refl 2)
    have hfits : tb.size % 2 ^ 16 = req.tb_size := by
      have := ok.grant
      omega
    obtain ⟨hfi, he, hsn⟩ := head tb.data (hread 0 (by omega)) (by
      rcases hlen with hfive | hten
      · exact .inr hfive
      · exact .inl (hread 1 (by omega)))
    rw [framingInfo_eq hq] at hfi
    rw [filled.filled] at he
    refine ⟨⟨_, _, lis, bytes, ?_, rfl⟩, hsn⟩
    apply carries_of_filled filled fit.1 rfl hfi he (by rw [hfits, hsize])
    intro a ha ha'
    rw [hread a (by omega), same a ha]

theorem framingInfo_lt (tx : Tx) (f : Fill) : framingInfo tx f < 4 := by
  unfold framingInfo
  split <;> split <;> decide

theorem plan_bounds (left : tx.buffer_occupancy = queueBytes tx.input_sdus)
    (hq : tx.input_sdus = x :: l)
    (hgrant : tx.tx_sn_length.headerMinLength < tx.nb_bytes_requested_by_mac) :
    tx.plan.test_num_li ≤ l.length ∧ tx.plan.shrink <
      dataPduSize tx - tx.tx_sn_length.headerMinLength ∧ tx.plan.sizeShrink = tx.plan.shrink := by
  have hlt := dataPduSize_pos left hq hgrant
  have hle := dataPduSize_le left hq
  obtain ⟨-, hmany, hshrink, hsame⟩ := planPdu_bounds (by omega) (by omega)
    (show planPdu (dataPduSize tx - tx.tx_sn_length.headerMinLength) (liLen 0) 0 0 (x :: l) =
      tx.plan by
      rw [Tx.plan, planOf, hq]; rfl)
  exact ⟨by omega, hshrink, hsame⟩

theorem sends_of_header {header : Nat} (hheader : tx.tx_sn_length.headerMinLength = header)
    (ok : TxOk tx) (fit : LisFit tx) (hgrant : header < tx.nb_bytes_requested_by_mac)
    (hne : tx.input_sdus ≠ [])
    (hsize : req.tb_size =
      dataPduSize tx - tx.plan.shrink - (fillOf tx header junk).pdu_remaining_size)
    (same : ∀ a, header ≤ a → req.data a = (fillOf tx header junk).mem a)
    (head : ∀ m : Mem, m 0 = req.data 0 → m 1 = req.data 1 ∨ tx.tx_sn_length = .five →
      tx.tx_sn_length.fi m = framingInfo tx (fillOf tx header junk) ∧
        tx.tx_sn_length.e m = decide (0 < (fillOf tx header junk).fill_num_li) ∧
        tx.tx_sn_length.sn m = tx.vt_us % tx.tx_sn_length.modulo) :
    ∃ cells, Sends tx (tx.filled (fillOf tx header junk)) req cells := by
  obtain ⟨x, l, hq⟩ := exists_cons_of_ne_nil hne
  rw [← hheader] at hgrant
  obtain ⟨-, hshrink, -⟩ := plan_bounds ok.left hq hgrant
  obtain ⟨lis, bytes, filled⟩ := fillOf_spec junk ok hq hgrant fit
  have hfits := dataPduSize_le_grant tx
  rw [hheader] at filled hshrink
  have hfilled := filled.size
  have hzero : liBytes 0 = 0 := rfl
  rw [filled.full] at hsize
  exact ⟨_, sends_of_filled hheader ok fit hq filled (by omega) (by omega) same head⟩

theorem segment10_sends (hn : tx.tx_sn_length = .ten) (ok : TxOk tx) (fit : LisFit tx)
    (hexact : tx.plan.shrink = 0) (h : rlcUmSegment10 tx junk = (tx', some req)) :
    ∃ cells, Sends tx tx' req cells := by
  unfold rlcUmSegment10 at h
  split at h
  · simp at h
  next hgrant =>
  rw [not_or] at hgrant
  obtain ⟨rfl, rfl⟩ := h
  refine sends_of_header (by rw [hn]; rfl) ok fit (by omega) hgrant.2 (by rw [hexact]; rfl) ?_ ?_
  · intro a ha
    dsimp only
    rw [set_other (by omega), set_other (by omega)]
  · intro m hm₀ hm₁
    rw [hn] at hm₁ ⊢
    simp only [reduceCtorEq, or_false, set_self] at hm₁
    obtain ⟨hfi, he, hsn⟩ := ten_header (framingInfo_lt tx (fillOf tx 2 junk)) hm₀
    refine ⟨hfi, he, ?_⟩
    simp only [SnLength.sn, SnLength.modulo, hsn, hm₁, UInt8.toNat_ofNat']
    omega

theorem segment5_sends (hn : tx.tx_sn_length = .five) (ok : TxOk tx) (fit : LisFit tx)
    (h : rlcUmSegment5 tx junk = (tx', some req)) : ∃ cells, Sends tx tx' req cells := by
  have hheader : tx.tx_sn_length.headerMinLength = 1 := by rw [hn]; rfl
  unfold rlcUmSegment5 at h
  split at h
  · simp at h
  next hgrant =>
  rw [not_or] at hgrant
  obtain ⟨x, l, hq⟩ := exists_cons_of_ne_nil hgrant.2
  obtain ⟨-, -, hsame⟩ := plan_bounds ok.left hq (by omega)
  obtain ⟨rfl, rfl⟩ := h
  refine sends_of_header hheader ok fit (by omega) hgrant.2 (by rw [← hsame, Tx.plan, hheader]) ?_
    ?_
  · intro a ha
    dsimp only
    rw [set_other (by omega)]
  · intro m hm₀ _
    rw [hn]
    exact five_header (framingInfo_lt tx (fillOf tx 1 junk)) hm₀

/-- The next PDU of `rlc_um_segment_10` ends with its payload: the test loop gives up no LI or byte,
which this function, unlike `rlc_um_segment_5`, would leave after it. -/
def Exact (tx : Tx) : Prop := tx.tx_sn_length = .ten → tx.plan.shrink = 0

instance (tx : Tx) : Decidable (Exact tx) := inferInstanceAs (Decidable (_ → _))

theorem getPdus_sends (ok : TxOk tx) (fit : LisFit tx) (hexact : Exact tx)
    (h : rlcUmGetPdus tx junk = (tx', some req)) : ∃ cells, Sends tx tx' req cells := by
  unfold rlcUmGetPdus at h
  split at h
  · next hn => exact segment10_sends hn ok fit (hexact hn) h
  · next hn => exact segment5_sends hn ok fit h

theorem getPdus_none (h : rlcUmGetPdus tx junk = (tx', none)) : tx' = tx := by
  unfold rlcUmGetPdus rlcUmSegment10 rlcUmSegment5 at h
  split at h <;> split at h <;> simp at h
  · exact h.symm
  · exact h.symm

end Pdu

end MacRlcSplit.Um
