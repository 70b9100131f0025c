-- What the receiver makes of PDUs cut from one stream of SDUs, some of them
-- lost: SDUs of the stream, in order. A lost PDU costs the SDUs it had a
-- piece of, and nothing is put together across it.
import MacRlcSplit.Am.Memory
import MacRlcSplit.Lib.Framing
import MacRlcSplit.Um.Numbers

namespace MacRlcSplit.Um

open Lib Am List Option

/-! ## PDUs and pieces -/

/-- A PDU whose header cuts its payload into pieces of SDUs. -/
structure Carries (n : SnLength) (tb : MacTbInd) (first last : Bool) (lis : List Nat)
    (bytes : List Byte) : Prop where
  fi : n.fi tb.data = (if first then 0 else 2) + if last then 0 else 1
  e : n.e tb.data = !lis.isEmpty
  read : lis ≠ [] → readLengthIndicators tb.data 12 n.headerMinLength = some lis
  size : tb.size % 2 ^ 16 = n.headerMinLength + (lis.length * 3 + 1) / 2 + bytes.length
  payload : tb.data.read (n.headerMinLength + (lis.length * 3 + 1) / 2) bytes.length = bytes
  pos : ∀ l ∈ lis, 0 < l
  sum : lis.sum < bytes.length

/-- A PDU that carries these symbols of the stream. -/
def CarriesCells (n : SnLength) (tb : MacTbInd) (cells : List (Cell Byte)) : Prop :=
  ∃ first last lis bytes, Carries n tb first last lis bytes ∧ cells = pieces first last lis bytes

/-! ## The reader -/

/-- The receiver has the beginning of the SDU that the stream is in, and has delivered some of the
SDUs before it, in order. -/
def Synced (sdus : List (List Byte)) (cells : List (Cell Byte)) (o : Output) : Prop :=
  ∃ n, Position sdus cells n o.output_sdu ∧ o.delivered.Sublist (sdus.take n)

/-- The same for a receiver that may have missed a PDU, and waits for the next SDU then. -/
def Reads (sdus : List (List Byte)) (cells : List (Cell Byte)) (o : Output) : Prop :=
  if o.reassembly_missing_sn_detected then
    o.output_sdu = [] ∧ ∃ n p, Position sdus cells n p ∧ o.delivered.Sublist (sdus.take n)
  else Synced sdus cells o

def Waits (sdus : List (List Byte)) (cells : List (Cell Byte)) (o : Output) : Prop :=
  o.output_sdu = [] ∧ ∃ n p, Position sdus cells n p ∧ o.delivered.Sublist (sdus.take n)

variable {o : Output}

theorem Reads.position {sdus : List (List Byte)} {cells : List (Cell Byte)}
    (reads : Reads sdus cells o) :
    ∃ n p, Position sdus cells n p ∧ o.delivered.Sublist (sdus.take n) := by
  unfold Reads at reads
  split at reads
  · exact reads.2
  · obtain ⟨n, hpos, hdel⟩ := reads
    exact ⟨n, _, hpos, hdel⟩

section Pieces

variable {cfg : Config} {sdus : List (List Byte)} {cells : List (Cell Byte)} {o : Output}
  {src : Mem} {i k : Nat} {first last : Bool} (hne : ∀ m ∈ sdus, m ≠ [])
include hne

theorem piece_synced (short : ∀ m ∈ sdus, m.length ≤ cfg.sduMaxSize) (hk : 0 < k)
    (front : cells ++ mark first last (src.read i k) <+: frames sdus) (sync : Synced sdus cells o)
    (fi : Nat) (hfi : fi % 2 = if last then 0 else 1) :
    Synced sdus (cells ++ mark first last (src.read i k)) (reassembleLast cfg o fi src i k) := by
  obtain ⟨n, pos, hdel⟩ := sync
  obtain ⟨m, hm, hpre, -, pos', hend⟩ := pos.piece hne (read_ne_nil hk) front
  have hroom : (o.output_sdu.length : Int) + k ≤ cfg.sduMaxSize := by
    have hlen := hpre.length_le
    rw [length_append, length_read] at hlen
    have := short m (mem_of_getElem? hm)
    omega
  have hadd : rlcUmReassembly cfg o src i k =
      { o with output_sdu := o.output_sdu ++ src.read i k } := by
    unfold rlcUmReassembly
    rw [if_neg (by omega), if_pos hroom]
    rfl
  unfold reassembleLast
  rw [hadd]
  cases last with
  | false =>
    rw [if_neg (by simp [hfi])]
    exact ⟨n, pos', hdel⟩
  | true =>
    have hsdu : o.output_sdu ++ src.read i k ≠ [] := by
      simp [read_ne_nil hk]
    have htake : sdus.take (n + 1) = sdus.take n ++ [o.output_sdu ++ src.read i k] := by
      rw [take_add_one, hm, hend rfl]
      rfl
    rw [if_pos (by simp [hfi])]
    simp only [rlcUmSendSdu, hsdu, if_false]
    exact ⟨n + 1, pos', by simp only [htake]; exact hdel.append (List.Sublist.refl _)⟩

variable {lis : List Nat} {n : Nat}

theorem reassembleLis_synced (short : ∀ m ∈ sdus, m.length ≤ cfg.sduMaxSize)
    (pos : ∀ l ∈ lis, 0 < l) (sum : lis.sum < n)
    (front : cells ++ pieces first last lis (src.read i n) <+: frames sdus)
    (sync : Synced sdus cells o) :
    ∃ cells' first', cells' ++ mark first' last (src.read (i + lis.sum) (n - lis.sum)) =
        cells ++ pieces first last lis (src.read i n) ∧
      Synced sdus cells' (reassembleLis cfg src i lis o) := by
  induction lis generalizing cells first o i n with
  | nil => exact ⟨cells, first, by simp [pieces], sync⟩
  | cons l ls ih =>
    rw [sum_cons] at sum
    rw [pieces, take_read (by omega), drop_read (by omega), ← append_assoc] at front ⊢
    have hl := pos l mem_cons_self
    have sync' := piece_synced hne short hl ((prefix_append _ _).trans front) sync 0 rfl
    obtain ⟨cells', first', hcells, hsync⟩ :=
      ih (fun l' hl' => pos l' (mem_cons_of_mem l hl')) (by omega) front sync'
    refine ⟨cells', first', ?_, hsync⟩
    rw [← hcells, sum_cons, Nat.sub_add_eq, add_assoc]

theorem cleared_synced (pos : ∀ l ∈ lis, 0 < l) (sum : lis.sum < n)
    (front : cells ++ pieces true last lis (src.read i n) <+: frames sdus)
    (reads : Reads sdus cells o) : Synced sdus cells (rlcUmClearRxSdu o) := by
  obtain ⟨m, p, hpos, hdel⟩ := reads.position
  obtain ⟨k, b, hk, hpiece⟩ : ∃ k b, 0 < k ∧
      cells ++ mark true b (src.read i k) <+: frames sdus := by
    cases lis with
    | nil => exact ⟨n, last, sum, front⟩
    | cons l ls =>
      rw [sum_cons] at sum
      rw [pieces, take_read (by omega), ← append_assoc] at front
      exact ⟨l, true, pos l mem_cons_self, (prefix_append _ _).trans front⟩
  obtain ⟨-, -, -, hstart, -⟩ := hpos.piece hne (read_ne_nil hk) hpiece
  rw [hstart.1 rfl] at hpos
  exact ⟨m, hpos, hdel⟩

theorem rest_synced (short : ∀ m ∈ sdus, m.length ≤ cfg.sduMaxSize) {fi : Nat}
    (pos : ∀ l ∈ lis, 0 < l) (sum : lis.sum < n)
    (front : cells ++ pieces first last lis (src.read i n) <+: frames sdus)
    (sync : Synced sdus cells o) (hfi : fi % 2 = if last then 0 else 1) :
    Synced sdus (cells ++ pieces first last lis (src.read i n))
      (reassembleLast cfg (reassembleLis cfg src i lis o) fi src (i + lis.sum)
        (n - lis.sum : Nat)) := by
  obtain ⟨cells', first', hcells, sync'⟩ := reassembleLis_synced hne short pos sum front sync
  rw [← hcells] at front ⊢
  exact piece_synced hne short (by omega) front sync' fi hfi

/-- A lost piece moves the stream on, and the SDUs delivered are still among those before it. -/
theorem position_after {p : List Byte} {cs : List (Cell Byte)} {del : List (List Byte)}
    (pos : Position sdus cells n p) (hdel : del.Sublist (sdus.take n))
    (front : cells ++ cs <+: frames sdus) :
    ∃ n' p', Position sdus (cells ++ cs) n' p' ∧ del.Sublist (sdus.take n') := by
  obtain ⟨n', p', pos'⟩ := position_of_front front
  have hle := pos.mono pos' hne (prefix_append cells cs)
  exact ⟨n', p', pos', hdel.trans (take_prefix_take_left hle).sublist⟩

omit hne in
theorem synced_reads (sync : Synced sdus cells o) : Reads sdus cells (o.setMissing false) := by
  simpa [Reads, Synced, Output.setMissing] using sync

/-- The receiver waits for the next SDU, and the piece that is passed over ends the one before
it. -/
theorem passed_synced (hk : 0 < k) (front : cells ++ mark first true (src.read i k) <+: frames sdus)
    (waits : Waits sdus cells o) : Synced sdus (cells ++ mark first true (src.read i k)) o := by
  obtain ⟨hempty, n, p, hpos, hdel⟩ := waits
  obtain ⟨m, hm, -, -, hpos', -⟩ := hpos.piece hne (read_ne_nil hk) front
  refine ⟨n + 1, ?_, hdel.trans (take_prefix_take_left (Nat.le_succ n)).sublist⟩
  rw [hempty]
  exact hpos'

theorem passed_reads (hk : 0 < k) (front : cells ++ mark first last (src.read i k) <+: frames sdus)
    (waits : Waits sdus cells o) :
    Reads sdus (cells ++ mark first last (src.read i k)) (o.setMissing !last) := by
  cases last with
  | true => exact synced_reads (passed_synced hne hk front waits)
  | false =>
    obtain ⟨hempty, n, p, hpos, hdel⟩ := waits
    exact ⟨hempty, position_after hne hpos hdel front⟩

end Pieces

/-! ## A PDU -/

/-- The body of the loop of `rlc_um_try_reassembly` reads the PDU that comes next in the stream. -/
theorem reassemblePdu_reads {cfg : Config} {sdus : List (List Byte)} {cells : List (Cell Byte)}
    {o' : Output} {tb : MacTbInd} {first last : Bool} {lis : List Nat} {bytes : List Byte}
    (hne : ∀ m ∈ sdus, m ≠ []) (short : ∀ m ∈ sdus, m.length ≤ cfg.sduMaxSize)
    (carries : Carries cfg.rx_sn_length tb first last lis bytes)
    (front : cells ++ pieces first last lis bytes <+: frames sdus) (reads : Reads sdus cells o)
    (h : reassemblePdu cfg o tb = some o') :
    Reads sdus (cells ++ pieces first last lis bytes) o' := by
  obtain ⟨hfi, he, hread, hsize, hpayload, pos, sum⟩ := carries
  rw [← hpayload] at front ⊢
  unfold reassemblePdu at h
  rw [hsize] at h
  extract_lets header size fi lost started at h
  have hfirst : fi < 2 ↔ first := by
    simp only [fi, hfi]
    cases first <;> cases last <;> simp
  have hlast : fi % 2 = if last then 0 else 1 := by
    simp only [fi, hfi]
    cases first <;> cases last <;> rfl
  -- without a missed piece to pass over, the receiver is where the PDU starts
  have sync : lost = false → Synced sdus cells started := by
    intro hlost
    by_cases hf : fi < 2
    · simp only [started, if_pos hf]
      rw [hfirst.1 hf] at front
      exact cleared_synced hne pos sum front reads
    · simp only [started, if_neg hf]
      have hmissing : o.reassembly_missing_sn_detected = false := by
        simpa [lost, Nat.le_of_not_lt hf] using hlost
      simpa [Reads, hmissing] using reads
  -- otherwise it goes on after the first piece
  have skip : lost → 2 ≤ fi ∧ started = o ∧ Waits sdus cells o := by
    intro hlost
    obtain ⟨hge, hmissing⟩ : 2 ≤ fi ∧ o.reassembly_missing_sn_detected := by
      simpa [lost] using hlost
    refine ⟨hge, by simp only [started]; exact if_neg (by omega), ?_⟩
    rw [Reads, if_pos hmissing] at reads
    exact reads
  cases lis with
  | nil =>
    simp only [he, isEmpty_nil, Bool.not_true, if_true] at h
    cases hlost : lost with
    | false =>
      simp only [hlost, Bool.false_eq_true, if_false, some.injEq] at h
      subst h
      have hlen : size = (bytes.length : Nat) := by
        simp only [size, header, length_nil]
        omega
      rw [hlen]
      exact synced_reads (piece_synced hne short sum front (sync hlost) fi hlast)
    | true =>
      simp only [hlost, if_true, some.injEq] at h
      subst h
      obtain ⟨hge, hstarted, waits⟩ := skip hlost
      have hmore : decide (fi = 3) = !last := by
        have hlt : fi < 4 := by
          simp only [fi, hfi]
          cases first <;> cases last <;> simp
        cases last <;> simp at hlast ⊢ <;> omega
      rw [hstarted, hmore]
      exact passed_reads hne sum front waits
  | cons l ls =>
    simp only [he, isEmpty_cons, Bool.not_false, Bool.true_eq_false, if_false,
      hread (cons_ne_nil l ls), header] at h
    generalize hstart : cfg.rx_sn_length.headerMinLength + ((l :: ls).length * 3 + 1) / 2 =
        start at *
    have hrest : size - ((l :: ls).sum + ((l :: ls).length * 3 + 1) / 2 : Nat) =
        (bytes.length - (l :: ls).sum : Nat) := by
      omega
    rw [hrest, if_pos (by omega)] at h
    simp only [some.injEq] at h
    subst h
    cases hlost : lost with
    | false =>
      exact synced_reads (rest_synced hne short pos sum front (sync hlost) hlast)
    | true =>
      obtain ⟨-, hstarted, waits⟩ := skip hlost
      rw [hstarted]
      rw [sum_cons] at sum
      rw [pieces, take_read (by omega), drop_read (by omega), ← append_assoc] at front ⊢
      have hl := pos l mem_cons_self
      have sync' := passed_synced hne hl ((prefix_append _ _).trans front) waits
      have := rest_synced hne short (fun l' hl' => pos l' (mem_cons_of_mem l hl')) (by omega) front
        sync' hlast
      rw [Nat.sub_sub, add_assoc] at this
      exact synced_reads this

@[simp] theorem setMissing_last (o : Output) (b : Bool) :
    (o.setMissing b).last_reassemblied_sn = o.last_reassemblied_sn := rfl

@[simp] theorem clear_last (o : Output) : (rlcUmClearRxSdu o).last_reassemblied_sn =
    o.last_reassemblied_sn := rfl

@[simp] theorem reassembly_last (cfg : Config) (o : Output) (src : Mem) (i : Nat) (length : Int) :
    (rlcUmReassembly cfg o src i length).last_reassemblied_sn = o.last_reassemblied_sn := by
  unfold rlcUmReassembly
  split_ifs <;> rfl

@[simp] theorem sendSdu_last (o : Output) : (rlcUmSendSdu o).last_reassemblied_sn =
    o.last_reassemblied_sn := by
  unfold rlcUmSendSdu
  split_ifs <;> rfl

@[simp] theorem reassembleLast_last (cfg : Config) (o : Output) (fi : Nat) (src : Mem) (i : Nat)
    (length : Int) :
    (reassembleLast cfg o fi src i length).last_reassemblied_sn = o.last_reassemblied_sn := by
  unfold reassembleLast
  split_ifs <;> simp

@[simp] theorem reassembleLis_last (cfg : Config) (src : Mem) (i : Nat) (lis : List Nat)
    (o : Output) :
    (reassembleLis cfg src i lis o).last_reassemblied_sn = o.last_reassemblied_sn := by
  induction lis generalizing i o with
  | nil => rfl
  | cons l ls ih => simp [reassembleLis, ih]

theorem reassemblePdu_last {cfg : Config} {o' : Output} {tb : MacTbInd}
    (h : reassemblePdu cfg o tb = some o') : o'.last_reassemblied_sn = o.last_reassemblied_sn := by
  unfold reassemblePdu at h
  extract_lets header size fi lost started at h
  have hstarted : started.last_reassemblied_sn = o.last_reassemblied_sn := by
    simp only [started]
    split_ifs <;> simp
  split at h
  · split at h <;> cases h <;> simp [hstarted]
  split at h
  · cases h
    rfl
  extract_lets payload o₁ size' at h
  have ho₁ : o₁.last_reassemblied_sn = o.last_reassemblied_sn := by
    simp only [o₁]
    split_ifs <;> simp [hstarted]
  split at h
  · cases h
    simp [ho₁]
  · split at h <;> cases h
    simp [ho₁]

/-! ## A run of numbers -/

/-- The receiver is about to visit number `a`: unless it has missed a PDU, the last one it
reassembled is the one before. -/
structure ReadsAt (n : SnLength) (sdus : List (List Byte)) (cells : List (Cell Byte)) (o : Output)
    (a : Nat) : Prop where
  reads : Reads sdus cells o
  follows : o.reassembly_missing_sn_detected = false →
    (o.last_reassemblied_sn + 1) % n.modulo = a % n.modulo

theorem stream_mono {stream part : Nat → List (Cell Byte)} {a : Nat}
    (hstream : ∀ k, stream (k + 1) = stream k ++ part k)
    (n : Nat) : stream a <+: stream (a + n) := by
  induction n with
  | zero => exact prefix_refl _
  | succ n ih =>
    rw [← add_assoc, hstream]
    exact ih.trans (prefix_append _ _)

section Visits

variable {cfg : Config} {sdus : List (List Byte)} {o o' : Output} {a : Nat}
  (hne : ∀ m ∈ sdus, m ≠ []) (short : ∀ m ∈ sdus, m.length ≤ cfg.sduMaxSize)
include hne short

theorem visitSlot_reads {cells part : List (Cell Byte)} {slot : Option MacTbInd}
    (at_a : ReadsAt cfg.rx_sn_length sdus cells o a) (front : cells ++ part <+: frames sdus)
    (carries : ∀ tb ∈ slot, CarriesCells cfg.rx_sn_length tb part)
    (h : visitSlot cfg o (a % cfg.rx_sn_length.modulo) slot = some o') :
    ReadsAt cfg.rx_sn_length sdus (cells ++ part) o' (a + 1) := by
  obtain ⟨reads, follows⟩ := at_a
  cases slot with
  | none =>
    cases h
    refine ⟨?_, fun hmissing => by simp [Output.setMissing] at hmissing⟩
    obtain ⟨n, p, hpos, hdel⟩ := reads.position
    obtain ⟨n', p', hpos', hdel'⟩ := position_after hne hpos hdel front
    simp only [Reads, Output.setMissing, rlcUmClearRxSdu, if_true]
    exact ⟨trivial, n', p', hpos', hdel'⟩
  | some tb =>
    obtain ⟨first, last, lis, bytes, hcarries, rfl⟩ := carries tb rfl
    unfold visitSlot at h
    extract_lets o₁ at h
    have reads₁ :
        Reads sdus cells { o₁ with last_reassemblied_sn := a % cfg.rx_sn_length.modulo } := by
      simp only [o₁]
      split
      · next hgap =>
        have hmissing : o.reassembly_missing_sn_detected := by
          by_contra hfound
          exact hgap (follows (by simpa using hfound))
        simp only [Reads, hmissing, rlcUmClearRxSdu, if_true] at reads ⊢
        exact ⟨trivial, reads.2⟩
      · exact reads
    refine ⟨reassemblePdu_reads hne short hcarries front reads₁ h, fun _ => ?_⟩
    rw [reassemblePdu_last h]
    simp

theorem visitAll_reads {buf : Nat → Option MacTbInd} {stream : Nat → List (Cell Byte)}
    {part : Nat → List (Cell Byte)} {n : Nat} (hstream : ∀ k, stream (k + 1) = stream k ++ part k)
    (at_a : ReadsAt cfg.rx_sn_length sdus (stream a) o a) (front : stream (a + n) <+: frames sdus)
    (carries : ∀ k, a ≤ k → k < a + n → ∀ tb ∈ buf k, CarriesCells cfg.rx_sn_length tb (part k))
    (h : visitAll cfg buf a n o = some o') :
    ReadsAt cfg.rx_sn_length sdus (stream (a + n)) o' (a + n) := by
  induction n generalizing a o with
  | zero =>
    cases h
    exact at_a
  | succ n ih =>
    obtain ⟨o₁, h₁, h⟩ := bind_eq_some_iff.1 h
    have hshift : a + (n + 1) = a + 1 + n := by omega
    rw [hshift] at front carries ⊢
    have front₁ : stream a ++ part a <+: frames sdus := by
      rw [← hstream]
      exact (stream_mono hstream n).trans front
    have at₁ := visitSlot_reads hne short at_a front₁ (carries a (Nat.le_refl a) (by omega)) h₁
    rw [← hstream] at at₁
    exact ih at₁ front (fun k hk hk' => carries k (by omega) hk') h

end Visits

end MacRlcSplit.Um
