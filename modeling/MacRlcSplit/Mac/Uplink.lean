-- The control elements of a block on the UL-SCH, from `generate_ulsch_header`
-- to `rx_sdu`. Two are not read as they are written: the C-RNTI, whose bytes
-- are swapped, and the long BSR, which has a byte too many and a level in the
-- wrong place.
import MacRlcSplit.Mac.Enb

namespace MacRlcSplit.Mac

open Am List Option

/-! ## The UE -/

/-- `POWER_HEADROOM_CMD`. -/
structure PowerHeadroomCmd where
  PH : Fin 64
  R : Fin 4 := 0

def PowerHeadroomCmd.byte (cmd : PowerHeadroomCmd) : Byte := UInt8.ofNat (cmd.PH + 64 * cmd.R)

/-- `BSR_SHORT` and `BSR_TRUNCATED`. -/
structure BsrShort where
  Buffer_size : Fin 64
  LCGID : Lcgid

def BsrShort.byte (bsr : BsrShort) : Byte := UInt8.ofNat (bsr.Buffer_size + 64 * bsr.LCGID)

/-- `BSR_LONG`, whose size is 4. -/
structure BsrLong where
  Buffer_size0 : Fin 64
  Buffer_size1 : Fin 64
  Buffer_size2 : Fin 64
  Buffer_size3 : Fin 64

/-- The bytes that are written. In the third one the upper bits are those of the third level,
shifted by 2 and not by 6. -/
def BsrLong.bytes (bsr : BsrLong) : List Byte :=
  [UInt8.ofNat (bsr.Buffer_size0 * 4 + bsr.Buffer_size1 / 16),
    UInt8.ofNat (bsr.Buffer_size1 % 16 * 16 + bsr.Buffer_size2 / 4),
    UInt8.ofNat (bsr.Buffer_size2 % 4 * 4 ||| bsr.Buffer_size3), 0]

def crntiBytes (crnti : UInt16) : List Byte :=
  [UInt8.ofNat (crnti.toNat % 256), UInt8.ofNat (crnti.toNat / 256)]

/-- What is made of these bytes, the first of which is taken for the upper one. -/
def swapped (crnti : UInt16) : Nat := crnti.toNat % 256 * 256 + crnti.toNat / 256

/-- `generate_ulsch_header`. The SDUs are given by `sdu_lcids` and `sdu_lengths`. -/
def generateUlschHeader (mac_header : Mem) (short_padding : Nat) (sdus : List (Nat × Nat))
    (power_headroom : Option PowerHeadroomCmd) (crnti : Option UInt16)
    (truncated_bsr short_bsr : Option BsrShort) (long_bsr : Option BsrLong)
    (post_padding : Nat) : Mem × Nat :=
  let w := Writer.shortPadding { mac_header := mac_header } short_padding
  let w := match power_headroom with
    | some cmd => w.controlElement POWER_HEADROOM [cmd.byte]
    | none => w
  let w := match crnti with
    | some crnti => w.controlElement CRNTI (crntiBytes crnti)
    | none => w
  let w := match truncated_bsr, short_bsr, long_bsr with
    | some bsr, _, _ => w.controlElement TRUNCATED_BSR [bsr.byte]
    | none, some bsr, _ => w.controlElement SHORT_BSR [bsr.byte]
    | none, none, some bsr => w.controlElement LONG_BSR bsr.bytes
    | none, none, none => w
  (w.sdus sdus).result post_padding

/-! ## What was sent -/

/-- The report that is in a block. -/
inductive Bsr where
  | truncated (bsr : BsrShort)
  | short (bsr : BsrShort)
  | long (bsr : BsrLong)

/-- Of several reports only the first one is sent. -/
def Bsr.choose : Option BsrShort → Option BsrShort → Option BsrLong → Option Bsr
  | some bsr, _, _ => some (.truncated bsr)
  | none, some bsr, _ => some (.short bsr)
  | none, none, some bsr => some (.long bsr)
  | none, none, none => none

def BsrLong.levels (bsr : BsrLong) : Lcgid → Nat
  | 0 => bsr.Buffer_size0
  | 1 => bsr.Buffer_size1
  | 2 => bsr.Buffer_size2
  | 3 => bsr.Buffer_size3

/-- What is made of the bytes of a long BSR. -/
def BsrLong.readLevels (bsr : BsrLong) : Lcgid → Nat
  | 0 => bsr.Buffer_size0
  | 1 => bsr.Buffer_size1
  | 2 => bsr.Buffer_size2 / 4 * 4
  | 3 => bsr.Buffer_size2 % 4 * 4 ||| bsr.Buffer_size3

/-- The levels that a template is to have after a report. -/
def Bsr.Reported : Bsr → (Lcgid → Nat) → Prop
  | .truncated bsr, bsr_info | .short bsr, bsr_info => bsr_info bsr.LCGID = bsr.Buffer_size
  | .long bsr, bsr_info => bsr_info = bsr.levels

/-- The levels that it has. -/
def Bsr.Taken : Bsr → (Lcgid → Nat) → Prop
  | .long bsr, bsr_info => bsr_info = bsr.readLevels
  | bsr, bsr_info => bsr.Reported bsr_info

theorem readLevels_iff (bsr : BsrLong) : bsr.readLevels = bsr.levels ↔
    bsr.Buffer_size2.val % 4 = 0 := by
  constructor
  · intro h
    have htwo : bsr.Buffer_size2.val / 4 * 4 = bsr.Buffer_size2 := congrFun h 2
    omega
  · intro hlow
    funext lcgid
    match lcgid with
    | 0 | 1 => rfl
    | 2 =>
      show bsr.Buffer_size2.val / 4 * 4 = bsr.Buffer_size2
      omega
    | 3 =>
      show bsr.Buffer_size2.val % 4 * 4 ||| bsr.Buffer_size3.val = bsr.Buffer_size3
      rw [hlow, Nat.zero_mul, Nat.zero_or]

theorem Bsr.reported_iff {bsr : Bsr} {bsr_info : Lcgid → Nat} (h : bsr.Taken bsr_info) :
    bsr.Reported bsr_info ↔ ∀ b, bsr = .long b → b.Buffer_size2.val % 4 = 0 := by
  cases bsr with
  | truncated b => exact iff_of_true h nofun
  | short b => exact iff_of_true h nofun
  | long b =>
    obtain rfl : bsr_info = b.readLevels := h
    refine (readLevels_iff b).trans ⟨?_, fun h => h b rfl⟩
    rintro hlow _ ⟨⟩
    exact hlow

def Bsr.element : Bsr → Nat × List Byte
  | .truncated bsr => (TRUNCATED_BSR, [bsr.byte])
  | .short bsr => (SHORT_BSR, [bsr.byte])
  | .long bsr => (LONG_BSR, bsr.bytes)

def phElements (power_headroom : Option PowerHeadroomCmd) : Elements :=
  power_headroom.toList.map fun cmd => (POWER_HEADROOM, [cmd.byte])

def crntiElements (crnti : Option UInt16) : Elements :=
  crnti.toList.map fun crnti => (CRNTI, crntiBytes crnti)

def bsrElements (bsr : Option Bsr) : Elements := bsr.toList.map Bsr.element

/-- The control elements of a header, in order. -/
def ulschElements (power_headroom : Option PowerHeadroomCmd) (crnti : Option UInt16)
    (bsr : Option Bsr) : Elements :=
  phElements power_headroom ++ crntiElements crnti ++ bsrElements bsr

/-- How an SDU is handed up. -/
def handedAs (rnti : Nat) (x : Nat × List Byte) : EnbSdu :=
  if x.1 = CCCH then .macRrcDataInd rnti x.2 else .macRlcDataInd rnti x.1 x.2

namespace Enb

variable (e : Enb) (CC_id rnti : Nat)

/-- A random access process waits for a message under this RNTI. -/
def Pending (ii : Fin NB_RA_PROC_MAX) : Prop :=
  (e.RA_template CC_id ii).rnti = rnti ∧ (e.RA_template CC_id ii).RA_active = true

instance : DecidablePred (e.Pending CC_id rnti) := fun _ => inferInstanceAs (Decidable (_ ∧ _))

/-- How often a message on the CCCH is handed up: once for each process that waits for it. -/
def copies (length : Nat) : Nat :=
  if length ≤ CCCH_PAYLOAD_SIZE_MAX ∧ e.Is_rrc_registered = true then
    (finRange NB_RA_PROC_MAX).countP fun ii => e.Pending CC_id rnti ii
  else 0

/-- An SDU, given by its LCID and its length, that `rx_sdu` hands up once. -/
def Accepts (x : Nat × Nat) : Prop :=
  if x.1 = CCCH then e.copies CC_id rnti x.2 = 1
  else if x.1 = DCCH ∨ x.1 = DCCH1 then True
  else x.1 < 11 ∧ 0 < x.2 ∧ x.2 < SCH_PAYLOAD_SIZE_MAX

/-- The UE that a block is from: the one that it names, or the one with the RNTI of the block. -/
def sender (crnti : Option Nat) : Option Nat := e.findUeId (crnti.getD rnti)

end Enb

theorem generateUlschHeader_eq (mac_header : Mem) (short : Nat) (lengths : List (Nat × Nat))
    (ph : Option PowerHeadroomCmd) (crnti : Option UInt16) (tbsr short_bsr : Option BsrShort)
    (long_bsr : Option BsrLong) (post : Nat) :
    generateUlschHeader mac_header short lengths ph crnti tbsr short_bsr long_bsr post =
      (Writer.given mac_header short (ulschElements ph crnti (Bsr.choose tbsr short_bsr long_bsr))
        lengths).result post := by
  cases ph <;> cases crnti <;> cases tbsr <;> cases short_bsr <;> cases long_bsr <;> rfl

section Elements

variable {ph : Option PowerHeadroomCmd} {crnti : Option UInt16} {bsr : Option Bsr}

theorem each_ulschElements {lcid : Nat} (h : lcid ∈ (ulschElements ph crnti bsr).lcids) :
    ulsch.limit ≤ lcid ∧ lcid < SHORT_PADDING ∧ (ulsch.ceLen lcid).isSome := by
  have hone : ∀ l ∈ [POWER_HEADROOM, CRNTI, TRUNCATED_BSR, SHORT_BSR, LONG_BSR],
      ulsch.limit ≤ l ∧ l < SHORT_PADDING ∧ (ulsch.ceLen l).isSome := by decide
  apply hone
  simp only [ulschElements, phElements, crntiElements, bsrElements, Elements.lcids, map_append,
    List.map_map, mem_append] at h
  obtain (h | h) | h := h
  · obtain ⟨cmd, -, rfl⟩ := List.mem_map.1 h
    simp
  · obtain ⟨c, -, rfl⟩ := List.mem_map.1 h
    simp
  · obtain ⟨b, -, rfl⟩ := List.mem_map.1 h
    cases b <;> simp [Bsr.element]

theorem length_ulschElements : (ulschElements ph crnti bsr).length ≤ 3 ∧
    (ulschElements ph crnti bsr).bytes.length ≤ 7 := by
  unfold ulschElements phElements crntiElements bsrElements
  cases ph <;> cases crnti <;> rcases bsr with _ | _ | _ | _ <;>
    simp [Elements.bytes, crntiBytes, Bsr.element, BsrLong.bytes]

/-- A long BSR has a byte more than the parser counts. -/
def extraByte : Option Bsr → Nat
  | some (.long _) => 1
  | _ => 0

theorem length_ulsch : (ulschElements ph crnti bsr).bytes.length =
    ((ulschElements ph crnti bsr).lcids.map fun lcid => (ulsch.ceLen lcid).getD 0).sum +
      extraByte bsr := by
  rcases bsr with _ | _ | _ | b
  all_goals cases ph <;> cases crnti <;> rfl

end Elements

/-! ## Reading control elements -/

namespace RxRun

variable (CC_id frame : Nat) {block : Mem}

variable {r : RxRun}

theorem element_power_headroom {cmd : PowerHeadroomCmd}
    (h : Stores block r.payload_ptr [cmd.byte]) : r.element block CC_id frame POWER_HEADROOM =
      { r.powerHeadroom CC_id cmd.PH with payload_ptr := r.payload_ptr + 1 } := by
  have hbyte : (block r.payload_ptr).toNat % 64 = cmd.PH := by
    rw [(stores_cons.1 h).1, PowerHeadroomCmd.byte, UInt8.toNat_ofNat']
    omega
  simp only [element, if_pos, add_zero, hbyte]

/-- The bytes of the C-RNTI are read in the other order. -/
theorem element_crnti {c : UInt16} (h : Stores block r.payload_ptr (crntiBytes c)) :
    r.element block CC_id frame CRNTI =
      { r.crnti (swapped c) with payload_ptr := r.payload_ptr + 2 } := by
  have h0 : (block r.payload_ptr).toNat = c.toNat % 256 := by
    rw [(stores_cons.1 h).1, UInt8.toNat_ofNat']
    omega
  have h1 : (block (r.payload_ptr + 1)).toNat = c.toNat / 256 := by
    have := c.toNat_lt
    rw [(stores_cons.1 (stores_cons.1 h).2).1, UInt8.toNat_ofNat']
    omega
  simp only [element, if_neg (show CRNTI ≠ POWER_HEADROOM by decide), if_pos, add_zero, h0, h1,
    swapped]

theorem element_short {bsr : BsrShort} {lcid : Nat}
    (hlcid : lcid = TRUNCATED_BSR ∨ lcid = SHORT_BSR) (h : Stores block r.payload_ptr [bsr.byte]) :
    r.element block CC_id frame lcid =
      { r.shortBsr CC_id frame bsr.LCGID bsr.Buffer_size with payload_ptr :=
        r.payload_ptr + 1 } := by
  have hbyte : (block r.payload_ptr).toNat = bsr.Buffer_size + 64 * bsr.LCGID := by
    rw [(stores_cons.1 h).1, BsrShort.byte, UInt8.toNat_ofNat']
    omega
  have hlevel : (bsr.Buffer_size + 64 * bsr.LCGID : Nat) % 64 = bsr.Buffer_size := by omega
  have hgroup : Fin.ofNat 4 ((bsr.Buffer_size + 64 * bsr.LCGID : Nat) / 64) = bsr.LCGID := by
    apply Fin.ext
    rw [Fin.val_ofNat]
    omega
  have hne : lcid ≠ POWER_HEADROOM ∧ lcid ≠ CRNTI := by
    obtain rfl | rfl := hlcid <;> decide
  simp only [element, if_neg hne.1, if_neg hne.2, if_pos hlcid, add_zero, hbyte, hlevel, hgroup]

theorem element_long {bsr : BsrLong} (h : Stores block r.payload_ptr bsr.bytes) :
    r.element block CC_id frame LONG_BSR =
      { r.longBsr CC_id frame bsr.readLevels with payload_ptr := r.payload_ptr + 3 } := by
  have hrest := (stores_cons.1 h).2
  have h0 : (block r.payload_ptr).toNat = bsr.Buffer_size0 * 4 + bsr.Buffer_size1 / 16 := by
    rw [(stores_cons.1 h).1, UInt8.toNat_ofNat']
    omega
  have h1 : (block (r.payload_ptr + 1)).toNat =
      bsr.Buffer_size1 % 16 * 16 + bsr.Buffer_size2 / 4 := by
    rw [(stores_cons.1 hrest).1, UInt8.toNat_ofNat']
    omega
  have hsix : (bsr.Buffer_size2 % 4 * 4 ||| bsr.Buffer_size3 : Nat) < 2 ^ 6 :=
    Nat.or_lt_two_pow (by omega) bsr.Buffer_size3.2
  have h2 : (block (r.payload_ptr + 2)).toNat = bsr.Buffer_size2 % 4 * 4 ||| bsr.Buffer_size3 := by
    rw [(stores_cons.1 (stores_cons.1 hrest).2).1, UInt8.toNat_ofNat']
    omega
  have hlevels : longLevels (bsr.Buffer_size0 * 4 + bsr.Buffer_size1 / 16)
      (bsr.Buffer_size1 % 16 * 16 + bsr.Buffer_size2 / 4)
        (bsr.Buffer_size2 % 4 * 4 ||| bsr.Buffer_size3) =
      bsr.readLevels := by
    funext lcgid
    match lcgid with
    | 0 | 1 | 2 | 3 => simp only [longLevels, BsrLong.readLevels]; omega
  simp only [element, if_neg (show LONG_BSR ≠ POWER_HEADROOM by decide),
    if_neg (show LONG_BSR ≠ CRNTI by decide),
    if_neg (show ¬(LONG_BSR = TRUNCATED_BSR ∨ LONG_BSR = SHORT_BSR) by decide), if_pos, add_zero,
    h0, h1, h2, hlevels]

def afterPh (r : RxRun) : Option PowerHeadroomCmd → RxRun
  | none => r
  | some cmd => { r.powerHeadroom CC_id cmd.PH with payload_ptr := r.payload_ptr + 1 }

def afterCrnti (r : RxRun) : Option UInt16 → RxRun
  | none => r
  | some c => { r.crnti (swapped c) with payload_ptr := r.payload_ptr + 2 }

/-- A report of any kind. The long one is taken to have three bytes. -/
def afterBsr (r : RxRun) : Option Bsr → RxRun
  | none => r
  | some (.truncated bsr) | some (.short bsr) =>
    { r.shortBsr CC_id frame bsr.LCGID bsr.Buffer_size with payload_ptr := r.payload_ptr + 1 }
  | some (.long bsr) =>
      { r.longBsr CC_id frame bsr.readLevels with payload_ptr := r.payload_ptr + 3 }

variable {ph : Option PowerHeadroomCmd} {crnti : Option UInt16} {bsr : Option Bsr}

theorem elements_ph (h : Stores block r.payload_ptr (phElements ph).bytes) :
    (phElements ph).lcids.foldl (element block CC_id frame) r = r.afterPh CC_id ph ∧
      (r.afterPh CC_id ph).payload_ptr = r.payload_ptr + (phElements ph).bytes.length := by
  cases ph with
  | none => exact ⟨rfl, rfl⟩
  | some cmd => exact ⟨element_power_headroom CC_id frame h, rfl⟩

theorem elements_crnti (h : Stores block r.payload_ptr (crntiElements crnti).bytes) :
    (crntiElements crnti).lcids.foldl (element block CC_id frame) r = r.afterCrnti crnti ∧
      (r.afterCrnti crnti).payload_ptr = r.payload_ptr + (crntiElements crnti).bytes.length := by
  cases crnti with
  | none => exact ⟨rfl, rfl⟩
  | some c => exact ⟨element_crnti CC_id frame h, rfl⟩

/-- After a long BSR the pointer is not where it should be. -/
theorem elements_bsr (h : Stores block r.payload_ptr (bsrElements bsr).bytes) :
    (bsrElements bsr).lcids.foldl (element block CC_id frame) r = r.afterBsr CC_id frame bsr ∧
      (r.afterBsr CC_id frame bsr).payload_ptr + extraByte bsr =
        r.payload_ptr + (bsrElements bsr).bytes.length := by
  rcases bsr with _ | b | b | b
  · exact ⟨rfl, rfl⟩
  · exact ⟨element_short CC_id frame (.inl rfl) h, rfl⟩
  · exact ⟨element_short CC_id frame (.inr rfl) h, rfl⟩
  · have hbytes : Stores block r.payload_ptr b.bytes := by
      simpa [bsrElements, Elements.bytes, Bsr.element] using h
    exact ⟨element_long CC_id frame hbytes, rfl⟩

theorem elements_read (h : Stores block r.payload_ptr (ulschElements ph crnti bsr).bytes) :
    (ulschElements ph crnti bsr).lcids.foldl (element block CC_id frame) r =
        ((r.afterPh CC_id ph).afterCrnti crnti).afterBsr CC_id frame bsr ∧
      (((r.afterPh CC_id ph).afterCrnti crnti).afterBsr CC_id frame bsr).payload_ptr +
        extraByte bsr = r.payload_ptr + (ulschElements ph crnti bsr).bytes.length := by
  rw [ulschElements, bytes_append, bytes_append, stores_append, stores_append, length_append,
    ← add_assoc] at h
  obtain ⟨⟨hph, hc⟩, hb⟩ := h
  obtain ⟨hread₁, hptr₁⟩ := elements_ph CC_id frame hph
  rw [← hptr₁] at hc hb
  obtain ⟨hread₂, hptr₂⟩ := elements_crnti CC_id frame hc
  rw [← hptr₂] at hb
  obtain ⟨hread₃, hptr₃⟩ := elements_bsr CC_id frame hb
  constructor
  · rw [ulschElements, lcids_append, lcids_append, foldl_append, foldl_append, hread₁, hread₂,
      hread₃]
  · rw [hptr₃, ulschElements, bytes_append, bytes_append, length_append, length_append]
    omega

end RxRun

/-! ## What handling an element changes -/

/-- The same UEs and random access processes. -/
structure SameUes (e e' : Enb) : Prop where
  UE_list : e'.UE_list = e.UE_list
  avail : e'.avail = e.avail
  pCC_id : e'.pCC_id = e.pCC_id
  RA_template : e'.RA_template = e.RA_template
  Is_rrc_registered : e'.Is_rrc_registered = e.Is_rrc_registered
  rnti : ∀ c u, (e'.UE_template c u).rnti = (e.UE_template c u).rnti

/-- All that is kept of a UE is the same. -/
structure SameUe (e e' : Enb) (UE_id : Nat) : Prop where
  listed : UE_id ∈ e'.UE_list ↔ UE_id ∈ e.UE_list
  pCC_id : e'.pCC_id UE_id = e.pCC_id UE_id
  template : ∀ c, e'.UE_template c UE_id = e.UE_template c UE_id
  ctrl : e'.UE_sched_ctrl UE_id = e.UE_sched_ctrl UE_id
  stats : ∀ c, e'.eNB_UE_stats c UE_id = e.eNB_UE_stats c UE_id

/-- Nothing but what is kept of one UE has changed. -/
structure OnlyAt (UE_id : Nat) (e e' : Enb) : Prop where
  ues : SameUes e e'
  others : ∀ u, u ≠ UE_id → SameUe e e' u

section

variable {e e' e'' : Enb} {UE_id : Nat}

namespace SameUes

theorem refl (e : Enb) : SameUes e e := ⟨rfl, rfl, rfl, rfl, rfl, fun _ _ => rfl⟩

theorem trans (h : SameUes e e') (h' : SameUes e' e'') : SameUes e e'' :=
  ⟨h'.UE_list.trans h.UE_list, h'.avail.trans h.avail, h'.pCC_id.trans h.pCC_id,
    h'.RA_template.trans h.RA_template, h'.Is_rrc_registered.trans h.Is_rrc_registered,
    fun c u => (h'.rnti c u).trans (h.rnti c u)⟩

theorem findUeId (h : SameUes e e') (rnti : Nat) : e'.findUeId rnti = e.findUeId rnti := by
  simp only [Enb.findUeId, h.UE_list, h.pCC_id, h.rnti]

theorem copies (h : SameUes e e') (CC_id rnti length : Nat) :
    e'.copies CC_id rnti length = e.copies CC_id rnti length := by
  have hpending : ∀ ii, e'.Pending CC_id rnti ii ↔ e.Pending CC_id rnti ii := by
    simp only [Enb.Pending, h.RA_template, implies_true]
  simp only [Enb.copies, hpending, h.Is_rrc_registered]

theorem accepts (h : SameUes e e') {CC_id rnti : Nat} {x : Nat × Nat} :
    e'.Accepts CC_id rnti x ↔ e.Accepts CC_id rnti x := by
  simp only [Enb.Accepts, h.copies]

end SameUes

namespace SameUe

theorem refl (e : Enb) (UE_id : Nat) : SameUe e e UE_id :=
  ⟨Iff.rfl, rfl, fun _ => rfl, rfl, fun _ => rfl⟩

theorem trans (h : SameUe e e' UE_id) (h' : SameUe e' e'' UE_id) : SameUe e e'' UE_id :=
  ⟨h'.listed.trans h.listed, h'.pCC_id.trans h.pCC_id,
    fun c => (h'.template c).trans (h.template c),
    h'.ctrl.trans h.ctrl, fun c => (h'.stats c).trans (h.stats c)⟩

end SameUe

namespace OnlyAt

theorem trans (h : OnlyAt UE_id e e') (h' : OnlyAt UE_id e' e'') : OnlyAt UE_id e e'' :=
  ⟨h.ues.trans h'.ues, fun u hu => (h.others u hu).trans (h'.others u hu)⟩

theorem modifyTemplate (e : Enb) (c UE_id : Nat) {f : UeTemplate → UeTemplate}
    (hf : ∀ t, (f t).rnti = t.rnti) : OnlyAt UE_id e (e.modifyTemplate c UE_id f) := by
  refine ⟨⟨rfl, rfl, rfl, rfl, rfl, fun c' u => ?_⟩,
    fun u hu => ⟨Iff.rfl, rfl, fun c' => ?_, rfl, fun _ => rfl⟩⟩
  · simp only [Enb.modifyTemplate]
    split
    · exact hf _
    · rfl
  · simp [Enb.modifyTemplate, hu]

theorem modifyCtrl (e : Enb) (UE_id : Nat) (f : UeSchedCtrl → UeSchedCtrl) :
    OnlyAt UE_id e (e.modifyCtrl UE_id f) := by
  refine ⟨⟨rfl, rfl, rfl, rfl, rfl, fun _ _ => rfl⟩,
    fun u hu => ⟨Iff.rfl, rfl, fun _ => rfl, ?_, fun _ => rfl⟩⟩
  simp [Enb.modifyCtrl, hu]

theorem modifyStats (e : Enb) (c UE_id : Nat)
    (f : UeStats → UeStats) : OnlyAt UE_id e (e.modifyStats c UE_id f) := by
  refine ⟨⟨rfl, rfl, rfl, rfl, rfl, fun _ _ => rfl⟩,
    fun u hu => ⟨Iff.rfl, rfl, fun _ => rfl, rfl, fun c' => ?_⟩⟩
  simp [Enb.modifyStats, hu]

end OnlyAt

end

namespace RxRun

variable {r r' r'' : RxRun}

/-- The run goes on for the same UE, and has changed nothing of the others. -/
structure Touches (r r' : RxRun) : Prop where
  UE_id : r'.UE_id = r.UE_id
  ues : SameUes r.enb r'.enb
  others : ∀ u, r.UE_id ≠ some u → SameUe r.enb r'.enb u

theorem Touches.refl (r : RxRun) : Touches r r := ⟨rfl, SameUes.refl _, fun _ _ => SameUe.refl _ _⟩

theorem Touches.trans (h : Touches r r') (h' : Touches r' r'') : Touches r r'' where
  UE_id := h'.UE_id.trans h.UE_id
  ues := h.ues.trans h'.ues
  others u hu := (h.others u hu).trans (h'.others u (h.UE_id ▸ hu))

theorem Touches.of_only {u : Nat} (hUE : r.UE_id = some u) (hsame : r'.UE_id = r.UE_id)
    (h : OnlyAt u r.enb r'.enb) : Touches r r' := by
  refine ⟨hsame, h.ues, fun v hv => h.others v ?_⟩
  rintro rfl
  exact hv hUE

/-- What an element does to the run, a C-RNTI apart. -/
structure Reads (r r' : RxRun) : Prop extends Touches r r' where
  stats : r'.enb.eNB_UE_stats = r.enb.eNB_UE_stats
  handed : r'.handed = r.handed
  crnti_rx : r'.crnti_rx = r.crnti_rx

theorem Reads.refl (r : RxRun) : Reads r r := ⟨.refl r, rfl, rfl, rfl⟩

theorem Reads.trans (h : Reads r r') (h' : Reads r' r'') : Reads r r'' :=
  ⟨h.toTouches.trans h'.toTouches, h'.stats.trans h.stats, h'.handed.trans h.handed,
    h'.crnti_rx.trans h.crnti_rx⟩

theorem Reads.at (h : Reads r r') (payload_ptr : Nat) :
    Reads r { r' with payload_ptr := payload_ptr } :=
  ⟨⟨h.UE_id, h.ues, h.others⟩, h.stats, h.handed, h.crnti_rx⟩

theorem reads_forUe {f : Nat → Enb → Enb} (hf : ∀ u, OnlyAt u r.enb (f u r.enb))
    (hstats : ∀ u, (f u r.enb).eNB_UE_stats = r.enb.eNB_UE_stats) : Reads r (r.forUe f) := by
  unfold forUe
  split
  · exact .refl r
  · next u hUE => exact ⟨.of_only hUE rfl (hf u), hstats u, rfl, rfl⟩

theorem forUe_of_some {f : Nat → Enb → Enb} {UE_id : Nat} (h : r.UE_id = some UE_id) :
    (r.forUe f).enb = f UE_id r.enb := by
  unfold forUe
  rw [h]

theorem reads_inSync (r : RxRun) (rnti : Nat) : Reads r (r.inSync rnti) := by
  unfold inSync
  split
  · exact .refl r
  next u hUE =>
  dsimp only
  split
  · refine ⟨.of_only hUE rfl ?_, rfl, rfl, rfl⟩
    dsimp only
    exact (OnlyAt.modifyCtrl _ _ _).trans (.modifyCtrl _ _ _)
  · refine ⟨.of_only hUE rfl ?_, rfl, rfl, rfl⟩
    dsimp only
    exact .modifyCtrl _ _ _

theorem inSync_template (r : RxRun) (rnti : Nat) :
    (r.inSync rnti).enb.UE_template = r.enb.UE_template := by
  unfold inSync
  split
  · rfl
  · split <;> rfl

variable (CC_id frame : Nat)

theorem reads_powerHeadroom (r : RxRun) (ph : Nat) : Reads r (r.powerHeadroom CC_id ph) :=
  reads_forUe (fun _ => (OnlyAt.modifyTemplate _ _ _ fun _ => by rfl).trans (.modifyCtrl _ _ _))
    fun _ => rfl

/-- A change of the template of the UE, as by a report. -/
theorem reads_template (r : RxRun) {f : UeTemplate → UeTemplate} (hf : ∀ t, (f t).rnti = t.rnti) :
    Reads r (r.forUe fun UE_id enb => enb.modifyTemplate CC_id UE_id f) :=
  reads_forUe (fun _ => .modifyTemplate _ _ _ hf) fun _ => rfl

theorem afterPh_effect (r : RxRun) (ph : Option PowerHeadroomCmd) :
    Reads r (r.afterPh CC_id ph) ∧ ∀ cmd UE_id, ph = some cmd → r.UE_id = some UE_id →
      ((r.afterPh CC_id ph).enb.UE_template CC_id UE_id).phr_info =
        cmd.PH - PHR_MAPPING_OFFSET := by
  cases ph with
  | none => exact ⟨.refl r, nofun⟩
  | some cmd =>
    refine ⟨(reads_powerHeadroom CC_id r _).at _, ?_⟩
    rintro _ UE_id ⟨⟩ hUE
    show ((r.forUe _).enb.UE_template CC_id UE_id).phr_info = _
    rw [forUe_of_some hUE]
    simp [Enb.modifyTemplate, Enb.modifyCtrl]

theorem afterCrnti_effect (r : RxRun) (crnti : Option UInt16) :
    let r' := r.afterCrnti crnti
    SameUes r.enb r'.enb ∧ r'.enb.UE_template = r.enb.UE_template ∧ r'.handed = r.handed ∧
      r'.UE_id = (match crnti with | some c => r.enb.findUeId (swapped c) | none => r.UE_id) ∧
      r'.crnti_rx = (match crnti with | some c => some (swapped c) | none => r.crnti_rx) := by
  cases crnti with
  | none => exact ⟨SameUes.refl _, rfl, rfl, rfl, rfl⟩
  | some c =>
    have hsync := reads_inSync { r with UE_id := r.enb.findUeId (swapped c) } (swapped c)
    exact ⟨hsync.ues, inSync_template _ _, hsync.handed, hsync.UE_id, rfl⟩

theorem afterBsr_effect (r : RxRun) (bsr : Option Bsr) :
    let r' := r.afterBsr CC_id frame bsr
    Reads r r' ∧ (∀ c u, (r'.enb.UE_template c u).phr_info = (r.enb.UE_template c u).phr_info) ∧
      ∀ b UE_id, bsr = some b → r.UE_id = some UE_id →
      b.Taken (r'.enb.UE_template CC_id UE_id).bsr_info := by
  have hphr : ∀ f : UeTemplate → UeTemplate, (∀ t, (f t).phr_info = t.phr_info) → ∀ c u,
      ((r.forUe fun UE_id enb => enb.modifyTemplate CC_id UE_id f).enb.UE_template c u).phr_info =
        (r.enb.UE_template c u).phr_info := by
    intro f hf c u
    unfold forUe
    split
    · rfl
    · simp only [Enb.modifyTemplate]
      split
      · exact hf _
      · rfl
  have hreport : ∀ (f : UeTemplate → UeTemplate) UE_id, r.UE_id = some UE_id →
      (r.forUe fun UE_id enb => enb.modifyTemplate CC_id UE_id f).enb.UE_template CC_id UE_id =
        f (r.enb.UE_template CC_id UE_id) := by
    intro f UE_id hUE
    rw [forUe_of_some hUE]
    simp [Enb.modifyTemplate]
  have hshort : ∀ (b : BsrShort) UE_id, r.UE_id = some UE_id →
      ((r.shortBsr CC_id frame b.LCGID b.Buffer_size).enb.UE_template CC_id UE_id).bsr_info
        b.LCGID = b.Buffer_size := by
    intro b UE_id hUE
    rw [shortBsr, hreport _ UE_id hUE]
    exact Function.update_self _ _ _
  rcases bsr with _ | b | b | b
  · exact ⟨.refl r, fun _ _ => rfl, nofun⟩
  iterate 2
    · refine ⟨(reads_template CC_id r fun _ => by rfl).at _, hphr _ fun _ => rfl, ?_⟩
      rintro _ UE_id ⟨⟩ hUE
      exact hshort b UE_id hUE
  · refine ⟨(reads_template CC_id r fun _ => by rfl).at _, hphr _ fun _ => rfl, ?_⟩
    rintro _ UE_id ⟨⟩ hUE
    show ((r.forUe _).enb.UE_template CC_id UE_id).bsr_info = _
    rw [hreport _ UE_id hUE]
    rfl

/-- The elements of a block have been read, and nothing was handed up yet. -/
structure ElementsRead (enb : Enb) (CC_id rnti : Nat) (ph : Option PowerHeadroomCmd)
    (crnti : Option UInt16) (bsr : Option Bsr) (r : RxRun) : Prop where
  ues : SameUes enb r.enb
  UE_id : r.UE_id = enb.sender rnti (crnti.map swapped)
  handed : r.handed = []
  crnti_rx : r.crnti_rx = crnti.map swapped
  ph : ∀ cmd UE_id, ph = some cmd → enb.findUeId rnti = some UE_id →
    (r.enb.UE_template CC_id UE_id).phr_info = cmd.PH - PHR_MAPPING_OFFSET
  bsr : ∀ b UE_id, bsr = some b → enb.sender rnti (crnti.map swapped) = some UE_id →
    b.Taken (r.enb.UE_template CC_id UE_id).bsr_info

theorem elements_effect {enb : Enb} {rnti : Nat} (hsame : SameUes enb r.enb)
    (hUE : r.UE_id = enb.findUeId rnti) (hcrnti : r.crnti_rx = none) (hnone : r.handed = [])
    (ph : Option PowerHeadroomCmd) (crnti : Option UInt16) (bsr : Option Bsr) :
    ElementsRead enb CC_id rnti ph crnti bsr
      (((r.afterPh CC_id ph).afterCrnti crnti).afterBsr CC_id frame bsr) := by
  obtain ⟨hph, hphr⟩ := afterPh_effect CC_id r ph
  obtain ⟨hues, htemplate, hhanded, hUE₂, hcrnti₂⟩ := afterCrnti_effect (r.afterPh CC_id ph) crnti
  obtain ⟨hbsr, hkeep, hreported⟩ :=
    afterBsr_effect CC_id frame ((r.afterPh CC_id ph).afterCrnti crnti) bsr
  have hsender : ((r.afterPh CC_id ph).afterCrnti crnti).UE_id =
      enb.sender rnti (crnti.map swapped) := by
    rw [hUE₂]
    cases crnti with
    | none => exact hph.UE_id.trans hUE
    | some c => exact (hsame.trans hph.ues).findUeId (swapped c)
  refine ⟨((hsame.trans hph.ues).trans hues).trans hbsr.ues, hbsr.UE_id.trans hsender,
    hbsr.handed.trans (hhanded.trans (hph.handed.trans hnone)), ?_, ?_, ?_⟩
  · rw [hbsr.crnti_rx, hcrnti₂]
    cases crnti with
    | none => exact hph.crnti_rx.trans hcrnti
    | some c => rfl
  · intro cmd UE_id hcmd hfind
    rw [hkeep, htemplate]
    exact hphr cmd UE_id hcmd (hUE.trans hfind)
  · intro b UE_id hb hfind
    exact hreported b UE_id hb (hsender.trans hfind)

theorem reads_unscheduled (r : RxRun) (harq_pid : Nat) : Reads r (r.unscheduled harq_pid) :=
  reads_forUe (fun _ => .modifyCtrl _ _ _) fun _ => rfl

/-- The run before the elements are read. -/
def opened (enb : Enb) (rnti harq_pid : Nat) (msg3_flag : Option Bool) : RxRun :=
  ({ enb := enb, UE_id := enb.findUeId rnti, msg3_flag := msg3_flag : RxRun }.inSync
    rnti).unscheduled harq_pid

theorem reads_opened (enb : Enb) (rnti harq_pid : Nat) (msg3_flag : Option Bool) :
    Reads { enb := enb, UE_id := enb.findUeId rnti, msg3_flag := msg3_flag }
      (opened enb rnti harq_pid msg3_flag) :=
  (reads_inSync _ rnti).trans (reads_unscheduled _ harq_pid)

end RxRun

end MacRlcSplit.Mac
