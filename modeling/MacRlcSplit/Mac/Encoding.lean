-- What a MAC header is: a chain of subheaders, each but the last with its E
-- bit. The writer leaves the chain of what it was given, and the parser gives
-- back what a chain holds.
import MacRlcSplit.Mac.Header

namespace MacRlcSplit.Mac

open Am List

/-! ## Chains -/

inductive Subheader where
  | fixed (lcid : Nat)
  | sdu (lcid length : Nat)
deriving DecidableEq, Repr

namespace Subheader

def lcid : Subheader → Nat
  | fixed lcid | sdu lcid _ => lcid

def tail : Subheader → List Byte
  | fixed _ => []
  | sdu _ length =>
    if length < 128 then [UInt8.ofNat length]
    else [UInt8.ofNat (128 + length / 256 % 128), UInt8.ofNat length]

def bytes (e : Bool) (h : Subheader) : List Byte := fixedByte e h.lcid :: h.tail

def size (h : Subheader) : Nat := h.tail.length + 1

@[simp] theorem length_bytes (e : Bool) (h : Subheader) : (h.bytes e).length = h.size := rfl

end Subheader

/-- Subheaders that all have others after them. -/
def chain (hs : List Subheader) : List Byte := hs.flatMap (Subheader.bytes true)

@[simp] theorem chain_append (hs hs' : List Subheader) :
    chain (hs ++ hs') = chain hs ++ chain hs' := flatMap_append

@[simp] theorem chain_singleton (h : Subheader) : chain [h] = h.bytes true := by
  simp [chain]

/-- A whole header: after the chain comes a byte without an E bit. -/
def encode (hs : List Subheader) (last : Nat) : List Byte := chain hs ++ [fixedByte false last]

/-! ## The E bit -/

theorem fixedByte_lcid (e : Bool) (lcid : Nat) : (fixedByte e lcid).toNat % 32 = lcid % 32 := by
  rw [fixedByte, UInt8.toNat_ofNat']
  cases e
  · simp only [Bool.false_eq_true, if_false]
    omega
  · simp only [if_true]
    omega

theorem fixedByte_e (e : Bool) (lcid : Nat) : (fixedByte e lcid).toNat / 32 % 2 =
    if e then 1 else 0 := by
  rw [fixedByte, UInt8.toNat_ofNat']
  cases e
  · simp only [Bool.false_eq_true, if_false]
    omega
  · simp only [if_true]
    omega

theorem fixedByte_or (lcid : Nat) : fixedByte false lcid ||| 0x20 = fixedByte true lcid := by
  have h : ∀ n < 32, UInt8.ofNat (n + 0) ||| 0x20 = UInt8.ofNat (n + 32) := by decide
  exact h (lcid % 32) (Nat.mod_lt _ (by decide))

/-! ## The writer -/

theorem read_one (m : Mem) (i : Nat) : m.read i 1 = [m i] := rfl

theorem read_two (m : Mem) (i : Nat) : m.read i 2 = [m i, m (i + 1)] := rfl

theorem read_three (m : Mem) (i : Nat) : m.read i 3 = [m i, m (i + 1), m (i + 2)] := rfl

/-- The chain is in memory, and the next subheader goes after it. -/
structure Ready (w : Writer) (hs : List Subheader) : Prop where
  first_element : w.first_element = true
  ptr : w.ptr = (chain hs).length
  before : w.mac_header.read 0 w.ptr = chain hs

/-- The chain is in memory, and after it one more subheader, still without its E bit. -/
structure Wrote (w : Writer) (hs : List Subheader)
    (last : Subheader) : Prop extends Ready w hs where
  last_size : w.last_size = last.size
  at_ptr : w.mac_header.read w.ptr last.size = last.bytes false

/-- Nothing has been written. -/
structure Fresh (w : Writer) : Prop where
  first_element : w.first_element = false
  ptr : w.ptr = 0
  last_size : w.last_size = 0

variable {w : Writer} {hs : List Subheader} {last : Subheader}

theorem Ready.keep (h : Ready w hs) {m : Mem}
    (hm : ∀ k < w.ptr, m k = w.mac_header k) : m.read 0 w.ptr = chain hs := by
  rw [← h.before]
  apply read_congr
  intro k _ hk
  exact hm k (by omega)

theorem Wrote.link (h : Wrote w hs last) :
    Ready { w.setE with ptr := w.ptr + last.size } (hs ++ [last]) := by
  refine ⟨h.first_element, ?_, ?_⟩
  · simp only [chain_append, chain_singleton, length_append, Subheader.length_bytes, h.ptr]
  have hafter : (w.mac_header.set w.ptr (w.mac_header w.ptr ||| 0x20)).read w.ptr last.size =
      last.bytes true := by
    have hat := h.at_ptr
    rw [Subheader.size, add_comm, read_append, read_one] at hat ⊢
    injection hat with hhead htail
    rw [set_self, hhead, fixedByte_or]
    have hrest : (w.mac_header.set w.ptr (fixedByte true last.lcid)).read (w.ptr + 1)
        last.tail.length = w.mac_header.read (w.ptr + 1) last.tail.length :=
      read_congr fun k hk _ => set_other (by omega)
    rw [hrest]
    exact congrArg _ htail
  have hbefore := h.keep (m := w.mac_header.set w.ptr (w.mac_header w.ptr ||| 0x20))
    (fun k hk => set_other (by omega))
  show Mem.read (w.mac_header.set w.ptr (w.mac_header w.ptr ||| 0x20)) 0 (w.ptr + last.size) = _
  rw [read_append, hbefore, zero_add, hafter, chain_append, chain_singleton]

theorem Wrote.next (h : Wrote w hs last) : Ready (w.next last.size) (hs ++ [last]) := by
  rw [Writer.next, if_pos h.first_element]
  exact h.link

theorem Fresh.next (h : Fresh w) (size : Nat) : Ready (w.next size) [] := by
  rw [Writer.next, if_neg (by simp [h.first_element])]
  refine ⟨rfl, h.ptr, ?_⟩
  rw [h.ptr]
  rfl

theorem Ready.setFixed (h : Ready w hs) (lcid : Nat) :
    Wrote (w.setFixed lcid) hs (.fixed lcid) where
  first_element := h.first_element
  ptr := h.ptr
  before := h.keep fun k hk => set_other (by omega)
  last_size := rfl
  at_ptr := by
    show Mem.read (w.mac_header.set w.ptr (fixedByte false lcid)) w.ptr 1 = _
    rw [read_one, set_self]
    rfl

theorem Ready.sdu (h : Ready (w.next w.last_size) hs) (lcid length : Nat) :
    Wrote (w.sdu lcid length) hs (.sdu lcid length) := by
  unfold Writer.sdu
  dsimp only
  generalize w.next w.last_size = w at h
  by_cases hlen : length < 128
  · have htail : (Subheader.sdu lcid length).tail = [UInt8.ofNat length] := if_pos hlen
    rw [if_pos hlen]
    refine ⟨⟨h.first_element, h.ptr, ?_⟩, ?_, ?_⟩
    · apply h.keep
      intro k hk
      simp (disch := omega) only [set_other]
    · rw [Subheader.size, htail]
      rfl
    · rw [Subheader.size, Subheader.bytes, htail]
      show Mem.read _ w.ptr 2 = _
      simp (disch := omega) only [read_two, set_self, set_other]
      rfl
  · have htail : (Subheader.sdu lcid length).tail =
        [UInt8.ofNat (128 + length / 256 % 128), UInt8.ofNat length] := if_neg hlen
    rw [if_neg hlen]
    refine ⟨⟨h.first_element, h.ptr, ?_⟩, ?_, ?_⟩
    · apply h.keep
      intro k hk
      simp (disch := omega) only [set_other]
    · rw [Subheader.size, htail]
      rfl
    · rw [Subheader.size, Subheader.bytes, htail]
      show Mem.read _ w.ptr 3 = _
      simp (disch := omega) only [read_three, set_self, set_other]
      rfl

theorem ces_next (w : Writer) (size : Nat) : (w.next size).ces = w.ces := by
  unfold Writer.next
  split <;> rfl

/-! ## Whole headers -/

/-- The writer has the subheaders `hs` and the control elements `ces`, if any. -/
def Holds (w : Writer) (hs : List Subheader) (ces : List Byte) : Prop :=
  w.ces = ces ∧ (hs = [] ∧ Fresh w ∨ ∃ init last, hs = init ++ [last] ∧ Wrote w init last)

variable {ces : List Byte}

theorem holds_start (header : Mem) : Holds { mac_header := header } [] [] :=
  ⟨rfl, .inl ⟨rfl, rfl, rfl, rfl⟩⟩

/-- All subheaders so far have one byte. -/
def AllFixed (hs : List Subheader) : Prop := ∀ h ∈ hs, h.size = 1

theorem Holds.ready (h : Holds w hs ces) {size : Nat}
    (hsize : ∀ init last, hs = init ++ [last] → size = last.size) : Ready (w.next size) hs := by
  obtain ⟨-, ⟨rfl, hfresh⟩ | ⟨init, last, rfl, hwrote⟩⟩ := h
  · exact hfresh.next size
  · rw [hsize init last rfl]
    exact hwrote.next

theorem Holds.controlElement (h : Holds w hs ces) (hfixed : AllFixed hs) (lcid : Nat)
    (ce : List Byte) : Holds (w.controlElement lcid ce) (hs ++ [.fixed lcid]) (ces ++ ce) := by
  have hready : Ready (w.next 1) hs := h.ready fun init last heq => by
    rw [heq] at hfixed
    exact (hfixed last (by simp)).symm
  have hwrote := hready.setFixed lcid
  refine ⟨?_, .inr ⟨hs, .fixed lcid, rfl, ⟨hwrote.first_element, hwrote.ptr, hwrote.before⟩,
    hwrote.last_size, hwrote.at_ptr⟩⟩
  show (w.next 1).ces ++ ce = _
  rw [ces_next, h.1]

theorem Holds.sdu (h : Holds w hs ces) (lcid length : Nat) :
    Holds (w.sdu lcid length) (hs ++ [.sdu lcid length]) ces := by
  have hready : Ready (w.next w.last_size) hs := h.ready fun init last heq => by
    obtain ⟨-, ⟨hnil, -⟩ | ⟨init', last', heq', hwrote⟩⟩ := h
    · rw [hnil] at heq
      simp at heq
    · have := append_inj_right' (heq'.symm.trans heq) rfl
      rw [hwrote.last_size, List.singleton_inj.1 this]
  have hwrote := hready.sdu lcid length
  refine ⟨?_, .inr ⟨hs, .sdu lcid length, rfl, hwrote⟩⟩
  rw [Writer.sdu, ← h.1, ← ces_next w w.last_size]
  split <;> rfl

theorem Holds.sdus (h : Holds w hs ces) (l : List (Nat × Nat)) :
    Holds (w.sdus l) (hs ++ l.map fun x => .sdu x.1 x.2) ces := by
  induction l generalizing w hs with
  | nil => simpa [Writer.sdus] using h
  | cons x l ih =>
    have := ih (h.sdu x.1 x.2)
    rw [append_assoc] at this
    exact this

/-- The subheaders of short padding. -/
def paddingOf (short_padding : Nat) : List Subheader :=
  if short_padding = 1 then [.fixed SHORT_PADDING]
  else if short_padding = 2 then [.fixed SHORT_PADDING, .fixed SHORT_PADDING]
  else []

theorem holds_shortPadding (header : Mem) (short : Nat) :
    Holds (Writer.shortPadding { mac_header := header } short) (paddingOf short) [] := by
  have hfirst : Ready { mac_header := header, first_element := true } [] := ⟨rfl, rfl, rfl⟩
  have hone := hfirst.setFixed SHORT_PADDING
  unfold Writer.shortPadding paddingOf
  by_cases h1 : short = 1
  · subst h1
    exact ⟨rfl, .inr ⟨[], _, rfl, hone⟩⟩
  by_cases h2 : short = 2
  · subst h2
    have htwo := hone.link.setFixed SHORT_PADDING
    exact ⟨rfl, .inr ⟨[_], _, rfl, htwo⟩⟩
  · simp only [h1, h2, or_self, if_false]
    exact holds_start header

theorem read_header {m : Mem} {i lcid : Nat} (hchain : m.read 0 i = chain hs)
    (hlast : m i = fixedByte false lcid) :
    (m.copy (i + 1) ces).read 0 (i + 1 + ces.length) = encode hs lcid ++ ces := by
  rw [read_append, zero_add, read_copy, read_append, zero_add, read_one, encode]
  have hkeep : (m.copy (i + 1) ces).read 0 i = m.read 0 i :=
    read_congr fun k _ hk => copy_outside (by omega)
  rw [hkeep, hchain, copy_outside (by omega), hlast]

theorem Holds.finish_padded (h : Holds w hs ces) {post : Nat} (hpad : post > 0) :
    (w.finish post).mac_header.read 0 (w.finish post).ptr = encode hs SHORT_PADDING ++ ces := by
  have hchain : (w.setE).mac_header.read 0 (w.ptr + w.last_size) = chain hs := by
    obtain ⟨-, ⟨rfl, hfresh⟩ | ⟨init, last, rfl, hwrote⟩⟩ := h
    · rw [hfresh.ptr, hfresh.last_size]
      rfl
    · rw [hwrote.last_size]
      exact hwrote.link.before
  have hset : ((w.setE).mac_header.set (w.ptr + w.last_size) (fixedByte false SHORT_PADDING)).read 0
      (w.ptr + w.last_size) = chain hs := by
    rw [← hchain]
    exact read_congr fun k _ hk => set_other (by omega)
  rw [Writer.finish, if_pos hpad, ← h.1]
  exact read_header hset (set_self _ _ _)

theorem Holds.finish_plain (h : Holds w (hs ++ [last]) ces) :
    (w.finish 0).mac_header.read 0 (w.finish 0).ptr = encode hs last.lcid ++ ces := by
  obtain ⟨hces, ⟨hnil, -⟩ | ⟨init, last', heq, hwrote⟩⟩ := h
  · simp at hnil
  obtain ⟨rfl, hlast⟩ := append_inj' heq rfl
  rw [← List.singleton_inj.1 hlast] at hwrote
  have hat := hwrote.at_ptr
  rw [Subheader.size, add_comm, read_append] at hat
  injection hat with hbyte
  rw [← hces]
  exact read_header hwrote.before hbyte

/-! ## The parser -/

/-- A subheader that the parser takes for what it is. -/
def Format.Valid (format : Format) : Subheader → Prop
  | .fixed lcid => format.limit ≤ lcid ∧ lcid < 32 ∧
  (lcid ≠ SHORT_PADDING → (format.ceLen lcid).isSome)
  | .sdu lcid length => lcid < format.limit ∧ lcid < 32 ∧ length < 2 ^ 15

/-- What a subheader adds to what has been read. -/
def Parsed.add (format : Format) (p : Parsed) : Subheader → Parsed
  | .fixed lcid =>
    if lcid = SHORT_PADDING then { p with ptr := p.ptr + 1 }
    else
      { p with
        ptr := p.ptr + 1
        ces := p.ces ++ [lcid]
        ce_len := p.ce_len + (format.ceLen lcid).getD 0 }
  | .sdu lcid length =>
    { p with ptr := p.ptr + (Subheader.sdu lcid length).size, sdus := p.sdus ++ [(lcid, length)] }

/-- The arrays are large enough for what has been read. -/
def Parsed.Bounded (p : Parsed) : Prop := p.ces.length ≤ MAX_NUM_CE ∧ p.sdus.length ≤ NB_RB_MAX

theorem Parsed.ptr_add (format : Format) (p : Parsed)
    (h : Subheader) : (p.add format h).ptr = p.ptr + h.size := by
  cases h with
  | fixed lcid =>
    simp only [Parsed.add]
    split <;> rfl
  | sdu lcid length => rfl

theorem Parsed.bounded_of_add {format : Format} {p : Parsed} {h : Subheader}
    (hb : (p.add format h).Bounded) : p.Bounded := by
  cases h with
  | fixed lcid =>
    simp only [Parsed.add] at hb
    split at hb
    · exact hb
    · refine ⟨?_, hb.2⟩
      have := hb.1
      simp only [length_append, length_singleton] at this
      omega
  | sdu lcid length =>
    refine ⟨hb.1, ?_⟩
    have := hb.2
    simp only [Parsed.add, length_append, length_singleton] at this
    omega

theorem Parsed.bounded_of_foldl {format : Format} {hs : List Subheader} {p : Parsed}
    (hb : (hs.foldl (Parsed.add format) p).Bounded) : p.Bounded := by
  induction hs generalizing p with
  | nil => exact hb
  | cons h hs ih => exact Parsed.bounded_of_add (ih hb)

section Parser

variable {format : Format} {rx : Mem} {size : Nat} (tb_length : Nat) {p : Parsed}

theorem first_byte {lcid : Nat} {e : Bool} (hlcid : lcid < 32) (hat : rx p.ptr = fixedByte e lcid) :
    (rx p.ptr).toNat % 32 = lcid ∧ ((rx p.ptr).toNat / 32 % 2 = 1 ↔ e) := by
  rw [hat, fixedByte_lcid, fixedByte_e, Nat.mod_eq_of_lt hlcid]
  cases e <;> simp

theorem next_fixed {lcid : Nat} {e : Bool} (valid : format.Valid (.fixed lcid))
    (hat : rx p.ptr = fixedByte e lcid) (hsize : p.ptr < size)
    (hb : (p.add format (.fixed lcid)).Bounded) :
    p.next format rx size tb_length = some (p.add format (.fixed lcid)) := by
  obtain ⟨hlimit, hlcid, hce⟩ := valid
  obtain ⟨hread, -⟩ := first_byte hlcid hat
  unfold Parsed.next
  rw [hread, if_neg (by omega), if_neg (by omega)]
  by_cases hpad : lcid = SHORT_PADDING
  · rw [if_pos hpad, Parsed.add, if_pos hpad]
  rw [Parsed.add, if_neg hpad] at hb ⊢
  have hlen := hb.1
  simp only [length_append, length_singleton] at hlen
  obtain ⟨n, hn⟩ := Option.isSome_iff_exists.1 (hce hpad)
  rw [if_neg hpad, if_neg (by omega), hn]
  rfl

theorem next_sdu {lcid length : Nat} (valid : format.Valid (.sdu lcid length))
    (hat : rx.read p.ptr (Subheader.sdu lcid length).size = (Subheader.sdu lcid length).bytes true)
    (hsize : p.ptr + (Subheader.sdu lcid length).size ≤ size)
    (hb : (p.add format (.sdu lcid length)).Bounded) :
    p.next format rx size tb_length = some (p.add format (.sdu lcid length)) := by
  obtain ⟨hlimit, hlcid, hlength⟩ := valid
  have hat' := hat
  rw [Subheader.size, add_comm, read_append] at hat'
  injection hat' with hfirst hrest
  obtain ⟨hread, hmore⟩ := first_byte hlcid hfirst
  have hroom : p.sdus.length < NB_RB_MAX := by
    have := hb.2
    simp only [Parsed.add, length_append, length_singleton] at this
    omega
  have hpos : p.ptr < size := by
    have : 0 < (Subheader.sdu lcid length).size := Nat.succ_pos _
    omega
  unfold Parsed.next
  rw [hread, if_neg (by omega), if_pos hlimit, if_neg (by omega), if_neg (by simp [hmore])]
  by_cases hshort : length < 128
  · have htail : (Subheader.sdu lcid length).tail = [UInt8.ofNat length] := if_pos hshort
    rw [htail] at hrest
    injection hrest with hbyte
    change rx (p.ptr + 1) = _ at hbyte
    rw [Subheader.size, htail] at hsize
    have hval : (rx (p.ptr + 1)).toNat = length := by
      rw [hbyte, UInt8.toNat_ofNat']
      omega
    rw [hval, if_neg (by omega), if_neg (by simpa using hsize), Parsed.add, Subheader.size, htail,
      Nat.mod_eq_of_lt hshort]
    rfl
  · have htail : (Subheader.sdu lcid length).tail =
        [UInt8.ofNat (128 + length / 256 % 128), UInt8.ofNat length] := if_neg hshort
    rw [htail] at hrest
    injection hrest with hmsb hrest'
    injection hrest' with hlsb
    change rx (p.ptr + 1) = _ at hmsb
    change rx (p.ptr + 2) = _ at hlsb
    rw [Subheader.size, htail] at hsize
    have hval : (rx (p.ptr + 1)).toNat = 128 + length / 256 := by
      rw [hmsb, UInt8.toNat_ofNat']
      omega
    have hval' : (rx (p.ptr + 2)).toNat = length % 256 := by
      rw [hlsb, UInt8.toNat_ofNat']
    rw [hval, hval', if_pos (by omega), if_neg (by simpa using hsize), Parsed.add, Subheader.size,
      htail,
      show (128 + length / 256) % 128 * 256 + length % 256 = length by omega]
    rfl

theorem next_chained {h : Subheader} (valid : format.Valid h)
    (hat : rx.read p.ptr h.size = h.bytes true) (hsize : p.ptr + h.size ≤ size)
    (hb : (p.add format h).Bounded) :
    p.next format rx size tb_length = some (p.add format h) ∧ (rx p.ptr).toNat / 32 % 2 = 1 := by
  have hbyte : rx p.ptr = fixedByte true h.lcid := by
    have := hat
    rw [Subheader.size, add_comm, read_append] at this
    injection this
  cases h with
  | fixed lcid =>
    exact ⟨next_fixed tb_length valid hbyte (Nat.lt_of_succ_le hsize) hb,
      (first_byte valid.2.1 hbyte).2.2 rfl⟩
  | sdu lcid length => exact ⟨next_sdu tb_length valid hat hsize hb,
      (first_byte valid.2.1 hbyte).2.2 rfl⟩

theorem parseFrom_chain {hs : List Subheader} (valid : ∀ h ∈ hs, format.Valid h)
    (hat : rx.read p.ptr (chain hs).length = chain hs) (hsize : p.ptr + (chain hs).length ≤ size)
    (hb : (hs.foldl (Parsed.add format) p).Bounded) (fuel : Nat) :
    parseFrom format rx size tb_length (hs.length + fuel) p =
        parseFrom format rx size tb_length fuel (hs.foldl (Parsed.add format) p) ∧
      (hs.foldl (Parsed.add format) p).ptr = p.ptr + (chain hs).length := by
  induction hs generalizing p with
  | nil => exact ⟨by rw [length_nil, zero_add]; rfl, rfl⟩
  | cons h hs ih =>
    have hchain : chain (h :: hs) = h.bytes true ++ chain hs := rfl
    rw [hchain, length_append, Subheader.length_bytes] at hat hsize
    rw [read_append] at hat
    obtain ⟨hfirst, hrest⟩ := append_inj hat (by simp)
    have hroom : p.ptr + h.size ≤ size := by omega
    obtain ⟨hnext, hmore⟩ :=
      next_chained tb_length (valid h mem_cons_self) hfirst hroom (Parsed.bounded_of_foldl hb)
    have hptr := Parsed.ptr_add format p h
    obtain ⟨hparse, hend⟩ := ih (fun h' hh => valid h' (mem_cons_of_mem _ hh))
      (by rw [hptr]; exact hrest) (by rw [hptr]; omega) hb
    refine ⟨?_, ?_⟩
    · rw [length_cons, Nat.add_right_comm, parseFrom, hnext, Option.bind_some, if_pos hmore, hparse]
      rfl
    · rw [foldl_cons, hend, hptr, hchain, length_append, Subheader.length_bytes, Nat.add_assoc]

theorem length_le_chain (hs : List Subheader) : hs.length ≤ (chain hs).length := by
  induction hs with
  | nil => exact Nat.le_refl 0
  | cons h hs ih =>
    rw [show chain (h :: hs) = h.bytes true ++ chain hs from rfl, length_append,
      Subheader.length_bytes, length_cons, Subheader.size]
    omega

theorem length_encode (hs : List Subheader) (last : Nat) :
    (encode hs last).length = (chain hs).length + 1 := by
  simp [encode]

theorem parse_encode {hs : List Subheader} {last : Nat} {q : Parsed}
    (valid : ∀ h ∈ hs, format.Valid h) (hat : rx.read 0 (encode hs last).length = encode hs last)
    (hsize : (encode hs last).length ≤ size) (hb : (hs.foldl (Parsed.add format) {}).Bounded)
    (hlcid : last < 32)
    (hlast : ∀ p : Parsed, p = hs.foldl (Parsed.add format) {} → p.ptr = (chain hs).length →
      rx p.ptr = fixedByte false last → p.next format rx size tb_length = some q) :
    parse format rx size tb_length = some q := by
  rw [length_encode] at hat hsize
  rw [read_append] at hat
  obtain ⟨hchain, hbyte⟩ := append_inj hat (by simp)
  rw [zero_add, read_one] at hbyte
  injection hbyte with hbyte
  have hfuel := length_le_chain hs
  have hroom : (0 : Nat) + (chain hs).length ≤ size := by omega
  obtain ⟨hparse, hptr⟩ :=
    parseFrom_chain tb_length valid hchain hroom hb (size - hs.length - 1 + 1)
  rw [zero_add] at hptr
  have hat' : rx (hs.foldl (Parsed.add format) {}).ptr = fixedByte false last := by rw [hptr, hbyte]
  have hmore := (first_byte hlcid hat').2
  rw [show hs.length + (size - hs.length - 1 + 1) = size by omega] at hparse
  rw [parse, hparse, parseFrom, hlast _ rfl hptr hat', Option.bind_some, if_neg (by simp [hmore])]

theorem parse_padded {hs : List Subheader} (valid : ∀ h ∈ hs, format.Valid h)
    (hpadding : format.limit ≤ SHORT_PADDING) (hb : (hs.foldl (Parsed.add format) {}).Bounded)
    (hat : rx.read 0 (encode hs SHORT_PADDING).length = encode hs SHORT_PADDING)
    (hsize : (encode hs SHORT_PADDING).length ≤ size) :
    parse format rx size tb_length =
      some { hs.foldl (Parsed.add format) {} with ptr := (encode hs SHORT_PADDING).length } := by
  apply parse_encode tb_length valid hat hsize hb (by decide)
  rintro p rfl hptr hbyte
  have hadd : Parsed.add format (hs.foldl (Parsed.add format) {}) (.fixed SHORT_PADDING) =
      { hs.foldl (Parsed.add format) {} with ptr := (encode hs SHORT_PADDING).length } := by
    rw [Parsed.add, if_pos rfl, hptr, length_encode]
  have hvalid : format.Valid (.fixed SHORT_PADDING) := ⟨hpadding, by decide, fun h => absurd rfl h⟩
  rw [length_encode] at hsize
  rw [← hadd]
  exact next_fixed tb_length hvalid hbyte (by omega) (by rw [hadd]; exact hb)

/-- The bytes of all SDUs read. -/
def Parsed.total (p : Parsed) : Nat := (p.sdus.map Prod.snd).sum

theorem implicitLength_eq {lcid length : Nat} (hlength : length < 2 ^ 15)
    (hsize : size = p.ptr + 1 + p.ce_len + (p.add format (.sdu lcid length)).total) :
    p.implicitLength (size % 2 ^ 16) = length := by
  rw [Parsed.total, Parsed.add, map_append, sum_append] at hsize
  simp only [map_cons, map_nil, sum_cons, sum_nil] at hsize
  rw [Parsed.implicitLength]
  omega

theorem parse_plain {hs : List Subheader} {last : Subheader}
    (valid : ∀ h ∈ hs ++ [last], format.Valid h)
    (hb : ((hs ++ [last]).foldl (Parsed.add format) {}).Bounded)
    (hat : rx.read 0 (encode hs last.lcid).length = encode hs last.lcid)
    (hle : (encode hs last.lcid).length ≤ size)
    (hsize : ∀ lcid length, last = .sdu lcid length →
      size = (encode hs last.lcid).length + ((hs ++ [last]).foldl (Parsed.add format) {}).ce_len +
        ((hs ++ [last]).foldl (Parsed.add format) {}).total) :
    parse format rx size (size % 2 ^ 16) =
      some { (hs ++ [last]).foldl (Parsed.add format) {} with ptr :=
        (encode hs last.lcid).length } := by
  have hvalid := valid last (by simp)
  have hlcid : last.lcid < 32 := by
    cases last with
    | fixed | sdu => exact hvalid.2.1
  rw [foldl_append, foldl_cons, foldl_nil] at hb hsize ⊢
  apply parse_encode (size % 2 ^ 16) (fun h hh => valid h (mem_append_left _ hh)) hat hle
    (Parsed.bounded_of_add hb) hlcid
  rintro p rfl hptr hbyte
  rw [length_encode, ← hptr] at hle hsize ⊢
  cases last with
  | fixed lcid =>
    rw [next_fixed (size % 2 ^ 16) hvalid hbyte (by omega) hb]
    have := Parsed.ptr_add format (hs.foldl (Parsed.add format) {}) (.fixed lcid)
    rw [show (Subheader.fixed lcid).size = 1 from rfl] at this
    rw [← this]
  | sdu lcid length =>
    obtain ⟨hread, hmore⟩ := first_byte hlcid hbyte
    have hroom := hb.2
    simp only [Parsed.add, length_append, length_singleton] at hroom
    unfold Parsed.next
    rw [hread, if_neg (by omega), if_pos (show (Subheader.sdu lcid length).lcid < _ from hvalid.1),
      if_neg (by omega), if_pos (by simp [hmore]),
      implicitLength_eq hvalid.2.2 (hsize lcid length rfl)]
    rfl

end Parser

/-! ## What is in a header -/

/-- The subheaders of a header: padding, control elements and SDUs. -/
def subheaders (short_padding : Nat) (lcids : List Nat)
    (sdus : List (Nat × Nat)) : List Subheader :=
  paddingOf short_padding ++ lcids.map .fixed ++ sdus.map fun x => .sdu x.1 x.2

section Contents

variable (format : Format)

theorem foldl_padding (p : Parsed) (short : Nat) :
    ∃ ptr, (paddingOf short).foldl (Parsed.add format) p = { p with ptr := ptr } := by
  unfold paddingOf
  split
  · exact ⟨_, rfl⟩
  split
  all_goals exact ⟨_, rfl⟩

theorem foldl_fixed (p : Parsed) {lcids : List Nat} (h : SHORT_PADDING ∉ lcids) :
    ∃ ptr, (lcids.map Subheader.fixed).foldl (Parsed.add format) p =
      { p with
        ptr := ptr
        ces := p.ces ++ lcids
        ce_len := p.ce_len + (lcids.map fun lcid => (format.ceLen lcid).getD 0).sum } := by
  induction lcids generalizing p with
  | nil => exact ⟨p.ptr, by simp⟩
  | cons lcid lcids ih =>
    rw [mem_cons, not_or] at h
    obtain ⟨ptr, hptr⟩ := ih (p.add format (.fixed lcid)) h.2
    refine ⟨ptr, ?_⟩
    rw [map_cons, foldl_cons, hptr, Parsed.add, if_neg (Ne.symm h.1)]
    simp [add_assoc]

theorem foldl_sdus (p : Parsed) (sdus : List (Nat × Nat)) :
    ∃ ptr, (sdus.map fun x => Subheader.sdu x.1 x.2).foldl (Parsed.add format) p =
      { p with ptr := ptr, sdus := p.sdus ++ sdus } := by
  induction sdus generalizing p with
  | nil => exact ⟨p.ptr, by simp⟩
  | cons x sdus ih =>
    obtain ⟨ptr, hptr⟩ := ih (p.add format (.sdu x.1 x.2))
    refine ⟨ptr, ?_⟩
    rw [map_cons, foldl_cons, hptr, Parsed.add]
    simp

theorem foldl_subheaders (short : Nat) {lcids : List Nat} (sdus : List (Nat × Nat))
    (h : SHORT_PADDING ∉ lcids) :
    ∃ ptr, (subheaders short lcids sdus).foldl (Parsed.add format) {} =
      { ptr := ptr
        ces := lcids
        ce_len := (lcids.map fun lcid => (format.ceLen lcid).getD 0).sum
        sdus := sdus } := by
  obtain ⟨ptr₁, h₁⟩ := foldl_padding format {} short
  obtain ⟨ptr₂, h₂⟩ := foldl_fixed format { ptr := ptr₁ } h
  obtain ⟨ptr₃, h₃⟩ := foldl_sdus format
    { ptr := ptr₂, ces := lcids, ce_len := (lcids.map fun lcid => (format.ceLen lcid).getD 0).sum }
      sdus
  refine ⟨ptr₃, ?_⟩
  rw [subheaders, foldl_append, foldl_append, h₁, h₂]
  simpa using h₃

end Contents

end MacRlcSplit.Mac
