-- A transport block: what the writer makes of a header, then the SDUs, then
-- padding. The parser finds the control elements and the SDUs where they are.
import Mathlib.Data.List.ModifyLast
import MacRlcSplit.Mac.Encoding

namespace MacRlcSplit.Mac

open Am List

/-! ## Bytes in memory -/

/-- The bytes are in memory, from `i` on. -/
def Stores (m : Mem) (i : Nat) (bytes : List Byte) : Prop := m.read i bytes.length = bytes

theorem stores_append {m : Mem} {i : Nat} {a b : List Byte} :
    Stores m i (a ++ b) ↔ Stores m i a ∧ Stores m (i + a.length) b := by
  unfold Stores
  rw [length_append, read_append]
  constructor
  · intro h
    exact append_inj h (length_read m i a.length)
  · rintro ⟨ha, hb⟩
    rw [ha, hb]

theorem stores_cons {m : Mem} {i : Nat} {b : Byte} {bytes : List Byte} :
    Stores m i (b :: bytes) ↔ m i = b ∧ Stores m (i + 1) bytes := by
  rw [← singleton_append, stores_append]
  exact and_congr singleton_inj Iff.rfl

/-! ## Sizes -/

theorem bounded_of_next {format : Format} {m : Mem} {size tb_length : Nat} {p p' : Parsed}
    (h : p.next format m size tb_length = some p') (hp : p.Bounded) : p'.Bounded := by
  obtain ⟨hces, hsdus⟩ := hp
  simp only [Parsed.next] at h
  split_ifs at h <;> simp only [Option.some.injEq, Option.map_eq_some_iff] at h
  iterate 3
    · subst h
      exact ⟨hces, by simpa using by omega⟩
  · subst h
    exact ⟨hces, hsdus⟩
  · obtain ⟨n, -, rfl⟩ := h
    exact ⟨by simpa using by omega, hsdus⟩

/-- What has been parsed fits the arrays. -/
theorem bounded_of_parse {format : Format} {m : Mem} {size tb_length : Nat} {p : Parsed}
    (h : parse format m size tb_length = some p) : p.Bounded := by
  have hfrom : ∀ fuel q, Parsed.Bounded q → parseFrom format m size tb_length fuel q = some p →
      p.Bounded := by
    intro fuel
    induction fuel with
    | zero => nofun
    | succ fuel ih =>
      intro q hq hparse
      obtain ⟨q', hnext, hrest⟩ := Option.bind_eq_some_iff.1 hparse
      split at hrest
      · exact ih q' (bounded_of_next hnext hq) hrest
      · cases hrest
        exact bounded_of_next hnext hq
  exact hfrom size {} ⟨by decide, by decide⟩ h

/-! ## Control elements -/

abbrev Elements := List (Nat × List Byte)

def Elements.lcids (els : Elements) : List Nat := els.map Prod.fst

def Elements.bytes (els : Elements) : List Byte := (els.map Prod.snd).flatten

@[simp] theorem lcids_append (els els' : Elements) :
    Elements.lcids (els ++ els') = els.lcids ++ els'.lcids := map_append

@[simp] theorem bytes_append (els els' : Elements) :
    Elements.bytes (els ++ els') = els.bytes ++ els'.bytes := by
  simp [Elements.bytes]

def Writer.controlElements (w : Writer) (els : Elements) : Writer :=
  els.foldl (fun w x => w.controlElement x.1 x.2) w

theorem Holds.controlElements {w : Writer} {hs : List Subheader} {ces : List Byte}
    (h : Holds w hs ces) (hfixed : AllFixed hs) (els : Elements) :
    Holds (w.controlElements els) (hs ++ els.lcids.map .fixed) (ces ++ els.bytes) := by
  induction els generalizing w hs ces with
  | nil => simpa [Writer.controlElements, Elements.lcids, Elements.bytes] using h
  | cons x els ih =>
    have hfixed' : AllFixed (hs ++ [.fixed x.1]) := by
      intro y hy
      obtain hy | hy := mem_append.1 hy
      · exact hfixed y hy
      · rw [mem_singleton.1 hy]
        rfl
    have := ih (h.controlElement hfixed x.1 x.2) hfixed'
    rw [append_assoc, append_assoc] at this
    exact this

/-! ## SDUs -/

/-- The SDUs of a block, each with its LCID. -/
abbrev Sdus := List (Nat × List Byte)

def Sdus.lengths (sdus : Sdus) : List (Nat × Nat) := sdus.map fun x => (x.1, x.2.length)

def Sdus.payload (sdus : Sdus) : List Byte := (sdus.map Prod.snd).flatten

/-- The loop over SDUs: `payload_ptr` moves on by the length of each. -/
def sdusAt (m : Mem) : Nat → List (Nat × Nat) → Sdus
  | _, [] => []
  | payload_ptr, (lcid, length) :: rest =>
    (lcid, m.read payload_ptr length) :: sdusAt m (payload_ptr + length) rest

@[simp] theorem lengths_sdusAt (m : Mem) (ptr : Nat) (lengths : List (Nat × Nat)) :
    (sdusAt m ptr lengths).lengths = lengths := by
  induction lengths generalizing ptr with
  | nil => rfl
  | cons x lengths ih =>
    show (x.1, (m.read ptr x.2).length) :: (sdusAt m (ptr + x.2) lengths).lengths = _
    rw [ih, length_read]

/-- The SDUs are found where their bytes are. -/
theorem sdusAt_eq_iff {m : Mem} {ptr : Nat} {sdus : Sdus} :
    sdusAt m ptr sdus.lengths = sdus ↔ Stores m ptr sdus.payload := by
  induction sdus generalizing ptr with
  | nil => exact iff_of_true rfl rfl
  | cons x sdus ih =>
    rw [show Sdus.payload (x :: sdus) = x.2 ++ Sdus.payload sdus from rfl, stores_append, ← ih,
      Stores]
    show (x.1, m.read ptr x.2.length) :: sdusAt m (ptr + x.2.length) (Sdus.lengths sdus) =
        x :: sdus ↔ _
    rw [cons.injEq, Prod.ext_iff]
    simp only [true_and]

@[simp] theorem length_sdusAt (m : Mem) (ptr : Nat) (lengths : List (Nat × Nat)) :
    (sdusAt m ptr lengths).length = lengths.length := by
  induction lengths generalizing ptr with
  | nil => rfl
  | cons x lengths ih => simp [sdusAt, ih]

theorem length_payload (sdus : Sdus) : sdus.payload.length = (sdus.lengths.map Prod.snd).sum := by
  simp [Sdus.payload, Sdus.lengths, Function.comp_def]

theorem lengths_of_no_payload {sdus : Sdus} (h : sdus.payload.length = 0) :
    ∀ x ∈ sdus.lengths, x.2 = 0 := by
  rw [length_payload, List.sum_eq_zero_iff_forall_eq_nat] at h
  exact fun x hx => h _ (mem_map.2 ⟨x, hx, rfl⟩)

/-- SDUs of given lengths, all of whose bytes are `b`. -/
def filled (b : Byte) (lengths : List (Nat × Nat)) : Sdus :=
  lengths.map fun x => (x.1, replicate x.2 b)

@[simp] theorem lengths_filled (b : Byte) (lengths : List (Nat × Nat)) :
    (filled b lengths).lengths = lengths := by
  simp [filled, Sdus.lengths, Function.comp_def]

theorem stores_empty {sdus : Sdus} (h : ∀ x ∈ sdus, x.2 = []) (m : Mem)
    (ptr : Nat) : Stores m ptr sdus.payload := by
  have hnil : sdus.payload = [] := by
    rw [Sdus.payload, flatten_eq_nil_iff]
    intro bytes hbytes
    obtain ⟨x, hx, rfl⟩ := mem_map.1 hbytes
    exact h x hx
  rw [hnil]
  rfl

/-! ## Blocks -/

/-- The common end of the two functions that write a header: it is in memory, and its length is an
`unsigned char`. -/
def Writer.result (w : Writer) (post_padding : Nat) : Mem × Nat :=
  let w := w.finish post_padding
  (w.mac_header, w.ptr % 256)

/-- The header, the SDUs after it, and padding. -/
def blockOf (header : Mem × Nat) (sdus : Sdus) (pad : List Byte) : List Byte :=
  header.1.read 0 header.2 ++ sdus.payload ++ pad

section Blocks

variable {format : Format} {short_padding post_padding : Nat} {els : Elements} {sdus : Sdus}

def Writer.given (mac_header : Mem) (short_padding : Nat) (els : Elements)
    (lengths : List (Nat × Nat)) : Writer :=
  ((Writer.shortPadding { mac_header := mac_header } short_padding).controlElements els).sdus
    lengths

theorem eq_of_mem_paddingOf {x : Subheader} (h : x ∈ paddingOf short_padding) :
    x = .fixed SHORT_PADDING := by
  unfold paddingOf at h
  split at h
  · simpa using h
  split at h
  · simpa using h
  · cases h

theorem allFixed_paddingOf (short : Nat) : AllFixed (paddingOf short) := by
  intro x hx
  rw [eq_of_mem_paddingOf hx]
  rfl

theorem holds_given (header : Mem) (short : Nat) (els : Elements) (lengths : List (Nat × Nat)) :
    Holds (Writer.given header short els lengths) (subheaders short els.lcids lengths)
      els.bytes :=
  ((holds_shortPadding header short).controlElements (allFixed_paddingOf short) els).sdus lengths

theorem mem_of_sdu {lcids : List Nat} {lcid length : Nat} {l : List (Nat × Nat)}
    (h : .sdu lcid length ∈ subheaders short_padding lcids l) : (lcid, length) ∈ l := by
  simp only [subheaders, mem_append, mem_map] at h
  obtain (h | ⟨_, _, h⟩) | ⟨y, hy, h⟩ := h
  · cases eq_of_mem_paddingOf h
  · cases h
  · injection h with h1 h2
    rwa [← h1, ← h2]

/-- What the parser must be able to take. -/
structure Format.Takes (format : Format) (els : Elements) (sdus : Sdus) : Prop where
  padding : format.limit ≤ SHORT_PADDING
  each_ce : ∀ lcid ∈ els.lcids, format.limit ≤ lcid ∧ lcid < SHORT_PADDING ∧
    (format.ceLen lcid).isSome
  each_sdu : ∀ x ∈ sdus, x.1 < format.limit ∧ x.2.length < 2 ^ 15
  ces : els.length ≤ MAX_NUM_CE
  sdus : sdus.length ≤ NB_RB_MAX
  /-- `mac_header_control_elements` has 16 bytes. -/
  bytes : els.bytes.length ≤ 16

namespace Format.Takes

theorem no_padding (h : format.Takes els sdus) : SHORT_PADDING ∉ els.lcids := fun hmem =>
  Nat.lt_irrefl _ (h.each_ce _ hmem).2.1

theorem valid (h : format.Takes els sdus) (short : Nat) :
    ∀ x ∈ subheaders short els.lcids sdus.lengths, format.Valid x := by
  intro x hx
  simp only [subheaders, mem_append, mem_map, Sdus.lengths, mem_map] at hx
  obtain (hx | ⟨lcid, hlcid, rfl⟩) | ⟨-, ⟨y, hy, rfl⟩, rfl⟩ := hx
  · rw [eq_of_mem_paddingOf hx]
    exact ⟨h.padding, by decide, fun hne => absurd rfl hne⟩
  · obtain ⟨hlimit, hlt, hsome⟩ := h.each_ce lcid hlcid
    exact ⟨hlimit, Nat.lt_trans hlt (by decide), fun _ => hsome⟩
  · obtain ⟨hlimit, hlength⟩ := h.each_sdu y hy
    have := h.padding
    exact ⟨hlimit, Nat.lt_of_lt_of_le hlimit (Nat.le_trans this (by decide)), hlength⟩

theorem bounded (h : format.Takes els sdus) (short : Nat) :
    ((subheaders short els.lcids sdus.lengths).foldl (Parsed.add format) {}).Bounded := by
  obtain ⟨ptr, hread⟩ := foldl_subheaders format short sdus.lengths h.no_padding
  rw [hread]
  exact ⟨by simpa [Elements.lcids] using h.ces, by simpa [Sdus.lengths] using h.sdus⟩

end Format.Takes

theorem size_le (h : Subheader) : h.size ≤ 3 := by
  cases h with
  | fixed lcid => simp [Subheader.size, Subheader.tail]
  | sdu lcid length =>
    simp only [Subheader.size, Subheader.tail]
    split <;> simp

theorem length_chain_le (hs : List Subheader) : (chain hs).length ≤ 3 * hs.length := by
  induction hs with
  | nil => exact Nat.le_refl 0
  | cons h hs ih =>
    have := size_le h
    rw [show chain (h :: hs) = h.bytes true ++ chain hs from rfl, length_append,
      Subheader.length_bytes, length_cons]
    omega

theorem length_paddingOf_le (short : Nat) : (paddingOf short).length ≤ 2 := by
  unfold paddingOf
  split
  · decide
  split
  · decide
  · decide

theorem length_header_lt (takes : format.Takes els sdus) {hs : List Subheader} {last : Nat}
    (hle : hs.length ≤ (subheaders short_padding els.lcids sdus.lengths).length) :
    (encode hs last ++ els.bytes).length < 256 := by
  have hpadding := length_paddingOf_le short_padding
  have hchain := length_chain_le hs
  have hces := takes.ces
  have hsdus := takes.sdus
  have hbytes := takes.bytes
  simp only [subheaders, length_append, length_map, Elements.lcids, Sdus.lengths] at hle
  rw [length_append, length_encode]
  simp only [MAX_NUM_CE, NB_RB_MAX] at hces hsdus
  omega

/-- Something is in the header: without anything, its one byte is not written. -/
def Announced (short_padding post_padding : Nat) (els : Elements)
    (lengths : List (Nat × Nat)) : Prop :=
  short_padding = 1 ∨ short_padding = 2 ∨ 0 < post_padding ∨ els ≠ [] ∨ lengths ≠ []

theorem Announced.padded {lengths : List (Nat × Nat)} (h : Announced short_padding 0 els lengths)
    (post_padding : Nat) : Announced short_padding post_padding els lengths :=
  h.imp_right (.imp_right fun h => .inr (h.resolve_left (by decide)))

theorem Announced.subheaders_ne_nil {lengths : List (Nat × Nat)}
    (h : Announced short_padding 0 els lengths) :
    subheaders short_padding els.lcids lengths ≠ [] := by
  simp only [subheaders, ne_eq, append_eq_nil_iff, map_eq_nil_iff, Elements.lcids]
  rintro ⟨⟨hpadding, hels⟩, hsdus⟩
  obtain rfl | rfl | h | h | h := h
  · cases hpadding
  · cases hpadding
  · cases h
  · exact h hels
  · exact h hsdus

/-- What becomes of the lengths if the last one is not written and `extra` bytes are counted to
it. -/
def stretch (extra : Nat) (lengths : List (Nat × Nat)) : List (Nat × Nat) :=
  lengths.modifyLast fun x => (x.1, x.2 + extra)

theorem stretch_concat (extra : Nat) (front : List (Nat × Nat)) (x : Nat × Nat) :
    stretch extra (front.concat x) = front ++ [(x.1, x.2 + extra)] := by
  rw [concat_eq_append]
  exact modifyLast_concat _ _ _

@[simp] theorem stretch_zero (lengths : List (Nat × Nat)) : stretch 0 lengths = lengths := by
  rcases eq_nil_or_concat lengths with rfl | ⟨front, x, rfl⟩
  · rfl
  · rw [stretch_concat, concat_eq_append]
    rfl

theorem subheaders_concat (short_padding : Nat) (lcids : List Nat) (front : List (Nat × Nat))
    (x : Nat × Nat) : subheaders short_padding lcids (front ++ [x]) =
      subheaders short_padding lcids front ++ [.sdu x.1 x.2] := by
  simp [subheaders]

section Parsing

variable {mac_header : Mem} {pad : List Byte} {rx : Mem} {block : List Byte} {extra : Nat}

theorem Format.Takes.parse_plain (takes : format.Takes els sdus)
    (hextra : ∀ x ∈ sdus.lengths, x.2 + extra < 2 ^ 15)
    (hlen : sdus ≠ [] → els.bytes.length =
      (els.lcids.map fun lcid => (format.ceLen lcid).getD 0).sum + extra) {hs : List Subheader}
    {last : Subheader} (heq : subheaders short_padding els.lcids sdus.lengths = hs ++ [last])
    (hat : Stores rx 0 (encode hs last.lcid)) (size : Nat)
    (hsize : size = (encode hs last.lcid).length + els.bytes.length + sdus.payload.length) :
    parse format rx size (size % 2 ^ 16) =
      some { (subheaders short_padding els.lcids (stretch extra sdus.lengths)).foldl
        (Parsed.add format) {} with
        ptr := (encode hs last.lcid).length } := by
  have hvalid := takes.valid short_padding
  have hb := takes.bounded short_padding
  rcases eq_nil_or_concat sdus.lengths with hnil | ⟨front, x, hfront⟩
  · rw [heq] at hvalid hb
    rw [show stretch extra sdus.lengths = sdus.lengths by rw [hnil]; rfl, heq]
    refine Mac.parse_plain hvalid hb hat (by omega) ?_
    rintro lcid length rfl
    have hmem : .sdu lcid length ∈ subheaders short_padding els.lcids sdus.lengths := by
      rw [heq]
      simp
    rw [hnil] at hmem
    cases mem_of_sdu hmem
  · have hstretch : stretch extra sdus.lengths = front ++ [(x.1, x.2 + extra)] := by
      rw [hfront, stretch_concat]
    have hx : x ∈ sdus.lengths := by
      rw [hfront]
      simp
    obtain ⟨ptr, hread⟩ :=
      foldl_subheaders format short_padding (stretch extra sdus.lengths) takes.no_padding
    rw [hfront, concat_eq_append, subheaders_concat] at heq hvalid hb
    obtain ⟨rfl, hlast⟩ := append_inj' heq rfl
    obtain rfl := singleton_inj.1 hlast
    have hpayload : sdus.payload.length + extra =
        ((stretch extra sdus.lengths).map Prod.snd).sum := by
      rw [length_payload, hstretch, hfront]
      simp [add_assoc]
    have hbytes := hlen fun hnil => by
      rw [hnil] at hx
      cases hx
    have hx' := hvalid _ (mem_append_right _ mem_cons_self)
    rw [hstretch, subheaders_concat] at hread ⊢
    rw [show (Subheader.sdu x.1 x.2).lcid = (Subheader.sdu x.1 (x.2 + extra)).lcid from rfl]
      at hat hsize ⊢
    refine Mac.parse_plain (fun h hh => ?_) ?_ hat (by omega) fun _ _ _ => ?_
    · obtain hh | hh := mem_append.1 hh
      · exact hvalid h (mem_append_left _ hh)
      · rw [mem_singleton.1 hh]
        exact ⟨hx'.1, hx'.2.1, hextra x hx⟩
    · simpa [Parsed.add, Parsed.Bounded] using hb
    · rw [hread, Parsed.total, ← hstretch, ← hpayload]
      dsimp only
      omega

/-- The parser reads the control elements and the SDUs of a block, and stops where their bytes
are. -/
theorem parse_block (extra : Nat) (takes : format.Takes els sdus)
    (hextra : post_padding = 0 → ∀ x ∈ sdus.lengths, x.2 + extra < 2 ^ 15)
    (hlen : sdus ≠ [] → els.bytes.length =
      (els.lcids.map fun lcid => (format.ceLen lcid).getD 0).sum + extra)
    (hannounced : Announced short_padding post_padding els sdus.lengths)
    (hpad : post_padding = 0 → pad = [])
    (hblock : block = blockOf ((Writer.given mac_header short_padding els sdus.lengths).result
      post_padding) sdus pad) (hrx : Stores rx 0 block) :
    ∃ p, parse format rx block.length (block.length % 2 ^ 16) = some p ∧ p.ces = els.lcids ∧
      p.sdus = (if 0 < post_padding then sdus.lengths else stretch extra sdus.lengths) ∧
      Stores rx p.ptr (els.bytes ++ sdus.payload) ∧
      p.ptr + els.bytes.length + sdus.payload.length + pad.length = block.length := by
  have hw := holds_given mac_header short_padding els sdus.lengths
  -- the header is what the writer has in memory, since its length fits
  have hheader : ∀ {bytes : List Byte}, bytes.length < 256 →
      ((Writer.given mac_header short_padding els sdus.lengths).finish post_padding).mac_header.read
        0
        ((Writer.given mac_header short_padding els sdus.lengths).finish post_padding).ptr = bytes →
      block = bytes ++ sdus.payload ++ pad := by
    rintro bytes hlt rfl
    rw [length_read] at hlt
    rw [hblock, blockOf, Writer.result, Nat.mod_eq_of_lt hlt]
  by_cases hpost : 0 < post_padding
  · obtain ⟨ptr, hread⟩ := foldl_subheaders format short_padding sdus.lengths takes.no_padding
    rw [hheader (length_header_lt takes (Nat.le_refl _)) (hw.finish_padded hpost)] at hrx ⊢
    rw [append_assoc, append_assoc] at hrx
    obtain ⟨hheader, hrest⟩ := stores_append.1 hrx
    rw [← append_assoc] at hrest
    rw [Nat.zero_add] at hrest
    refine ⟨_, parse_padded _ (takes.valid short_padding) takes.padding
      (takes.bounded short_padding) hheader (by simp), ?_, ?_, ?_, ?_⟩
    · rw [hread]
    · rw [hread, if_pos hpost]
    · exact (stores_append.1 hrest).1
    · simp only [length_append]
  · obtain rfl : post_padding = 0 := by omega
    obtain ⟨ptr, hread⟩ :=
      foldl_subheaders format short_padding (stretch extra sdus.lengths) takes.no_padding
    obtain ⟨hs, last, heq⟩ : ∃ hs last, subheaders short_padding els.lcids sdus.lengths =
        hs ++ [last] :=
      ⟨_, _, (dropLast_concat_getLast hannounced.subheaders_ne_nil).symm⟩
    have hshort : hs.length ≤ (subheaders short_padding els.lcids sdus.lengths).length := by
      rw [heq]
      simp
    rw [heq] at hw
    rw [hheader (length_header_lt takes hshort) hw.finish_plain, hpad rfl, append_nil] at hrx ⊢
    rw [append_assoc] at hrx
    obtain ⟨hheader, hrest⟩ := stores_append.1 hrx
    rw [zero_add] at hrest
    refine ⟨_, takes.parse_plain (hextra rfl) hlen heq hheader _ (by simp only [length_append]), ?_,
      ?_, ?_, ?_⟩
    · rw [hread]
    · rw [hread, if_neg hpost]
    · exact hrest
    · simp only [length_append, length_nil, add_zero]

end Parsing

end Blocks

end MacRlcSplit.Mac
