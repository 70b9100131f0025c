-- A block on the DL-SCH, from `generate_dlsch_header` to `ue_send_sdu`: what
-- the UE hands up is what the eNB put in. A DRX command is in the way: it has
-- no byte, and the UE skips one.
import MacRlcSplit.Mac.Block

namespace MacRlcSplit.Mac

open Am

/-! ## The eNB -/

def UE_CONT_RES : Nat := 28

def TIMING_ADV_CMD : Nat := 29

def DRX_CMD : Nat := 30

/-- `TIMING_ADVANCE_CMD`, with R = 0. -/
def timingAdvanceByte (timing_advance_cmd : Int) : Byte :=
  UInt8.ofNat ((timing_advance_cmd + 31) % 64).toNat

/-- `generate_dlsch_header`. The SDUs are given by `sdu_lcids` and `sdu_lengths`. -/
def generateDlschHeader (mac_header : Mem) (sdus : List (Nat × Nat)) (drx_cmd : Byte)
    (timing_advance_cmd : Int) (ue_cont_res_id : Option (Vector Byte 6))
    (short_padding post_padding : Nat) : Mem × Nat :=
  let w := Writer.shortPadding { mac_header := mac_header } short_padding
  let w := if drx_cmd ≠ 255 then w.controlElement DRX_CMD [] else w
  let w := if timing_advance_cmd ≠ 0 then
      w.controlElement TIMING_ADV_CMD [timingAdvanceByte timing_advance_cmd] else w
  let w := match ue_cont_res_id with
    | some id => w.controlElement UE_CONT_RES id.toList
    | none => w
  (w.sdus sdus).result post_padding

/-! ## The UE -/

/-- In `parse_header`, every LCID from 28 on is that of a control element. -/
def dlsch : Format where
  limit := UE_CONT_RES
  ceLen lcid := some (if lcid = TIMING_ADV_CMD then 1 else if lcid = UE_CONT_RES then 6 else 0)

/-- `parse_header`. The length of the block is given as an `unsigned short`. -/
def parseHeader (mac_header : Mem) (size : Nat) : Option Parsed :=
  parse dlsch mac_header size (size % 2 ^ 16)

/-- What `ue_send_sdu` uses of `UE_mac_inst`. -/
structure Ue where
  RA_active : Bool
  RA_contention_resolution_timer_active : Bool
  /-- `CCCH_pdu.payload`. -/
  CCCH_pdu : Mem

/-- The identity that was sent in Msg3. -/
def Ue.tx_sdu (ue : Ue) : List Byte := ue.CCCH_pdu.read 3 6

/-- What `ue_send_sdu` does, in order. Of two control elements it only logs what it reads. -/
inductive UeAction where
  | contRes (ue_cont_res_id : List Byte)
  | raFailed
  | raSucceeded
  | processTimingAdvance (timing_advance : Int)
  | drxCmd
  | macRrcDataInd (sdu : List Byte)
  | macRlcDataInd (lcid : Nat) (sdu : List Byte)
deriving DecidableEq, Repr

/-- The variables of `ue_send_sdu`. -/
structure UeRun where
  ue : Ue
  payload_ptr : Nat
  actions : List UeAction := []

/-- An action, after which the pointer moves on. -/
def UeRun.act (r : UeRun) (action : UeAction) (size : Nat) : UeRun :=
  { r with actions := r.actions ++ [action], payload_ptr := r.payload_ptr + size }

/-- The loop over control elements. It says whether SDUs are looked at. -/
def UeRun.elements (sdu : Mem) : List Nat → UeRun → UeRun × Bool
  | [], r => (r, true)
  | lcid :: ces, r =>
    if lcid = UE_CONT_RES then
      let id := sdu.read r.payload_ptr 6
      let r := r.act (.contRes id) 0
      if r.ue.RA_active then
        let r := { r with
          ue := { r.ue with RA_active := false, RA_contention_resolution_timer_active := false } }
        -- the comparison leaves `i` at 6, so that no element after this one is looked at
        if r.ue.tx_sdu = id then (r.act .raSucceeded 6, true) else (r.act .raFailed 0, false)
      else elements sdu ces { r with payload_ptr := r.payload_ptr + 6 }
    else if lcid = TIMING_ADV_CMD then
      elements sdu ces (r.act (.processTimingAdvance (sdu r.payload_ptr).toNat) 1)
    else if lcid = DRX_CMD then elements sdu ces (r.act .drxCmd 1)
    else elements sdu ces r

/-- Who gets an SDU, if anyone. -/
def handUp (x : Nat × List Byte) : Option UeAction :=
  if x.1 = CCCH then some (.macRrcDataInd x.2)
  else if x.1 = DCCH ∨ x.1 = DCCH1 then some (.macRlcDataInd x.1 x.2)
  else if x.1 < NB_RB_MAX ∧ DCCH1 < x.1 then some (.macRlcDataInd x.1 x.2)
  else none

/-- `ue_send_sdu`. Bytes after the block are those of the memory it is in. -/
def ueSendSdu (ue : Ue) (sdu : Mem) (size : Nat) : Option (Ue × List UeAction) :=
  (parseHeader sdu size).map fun p =>
    let result := UeRun.elements sdu p.ces { ue := ue, payload_ptr := p.ptr }
    let r := result.1
    (r.ue, if result.2 then r.actions ++ (sdusAt sdu r.payload_ptr p.sdus).filterMap
      handUp else r.actions)

/-! ## What was sent -/

section Sent

variable (ue : Ue) (lengths : List (Nat × Nat)) (sdus : Sdus) (drx_cmd : Byte)
  (timing_advance_cmd : Int) (ue_cont_res_id : Option (Vector Byte 6))

def drxElements : Elements := if drx_cmd ≠ 255 then [(DRX_CMD, [])] else []

def timingElements : Elements :=
  if timing_advance_cmd ≠ 0 then [(TIMING_ADV_CMD, [timingAdvanceByte timing_advance_cmd])] else []

def contElements : Elements := ue_cont_res_id.toList.map fun id => (UE_CONT_RES, id.toList)

def dlschElements : Elements :=
  drxElements drx_cmd ++ timingElements timing_advance_cmd ++ contElements ue_cont_res_id

def drxActions : List UeAction := if drx_cmd ≠ 255 then [.drxCmd] else []

def timingActions : List UeAction :=
  if timing_advance_cmd ≠ 0 then [.processTimingAdvance (timing_advance_cmd + 31)] else []

/-- What follows from an identity: a random access that is under way ends with it, one way or the
other. -/
def Ue.contActions (id : List Byte) : List UeAction :=
  .contRes id :: if ue.RA_active then [if ue.tx_sdu = id then .raSucceeded else .raFailed] else []

/-- What the UE is to make of the control elements. -/
def elementActions : List UeAction :=
  drxActions drx_cmd ++ timingActions timing_advance_cmd ++
    ue_cont_res_id.toList.flatMap fun id => ue.contActions id.toList

/-- Contention resolution ends the random access that is under way. -/
def Ue.resolved : Ue :=
  if ue.RA_active ∧ ue_cont_res_id.isSome then
    { ue with RA_active := false, RA_contention_resolution_timer_active := false }
  else ue

/-- Each SDU is to be handed up with its LCID, its length and its bytes. -/
def sduActions : List UeAction :=
  sdus.map fun x => if x.1 = CCCH then .macRrcDataInd x.2 else .macRlcDataInd x.1 x.2

/-- A random access that is under way goes on to be successful, as far as this block is
concerned. -/
def Ue.Wins : Prop := ue.RA_active = true → ∀ id ∈ ue_cont_res_id, ue.tx_sdu = id.toList

/-- What the UE can read as it was meant. -/
structure Readable (short_padding post_padding : Nat) : Prop where
  /-- A DRX command is the only element, and no SDU has bytes after it. -/
  drx : drx_cmd = 255 ∨ timing_advance_cmd = 0 ∧ ue_cont_res_id = none ∧ ∀ x ∈ lengths, x.2 = 0
  /-- A timing advance fits six bits. -/
  timing_advance : -31 ≤ timing_advance_cmd ∧ timing_advance_cmd ≤ 32
  /-- A UE that waits for contention resolution and gets the identity of another looks at no SDU. -/
  contention : lengths = [] ∨ ue.Wins ue_cont_res_id
  lcids : ∀ x ∈ lengths, x.1 < NB_RB_MAX
  number : lengths.length ≤ NB_RB_MAX
  announced : Announced short_padding post_padding
    (dlschElements drx_cmd timing_advance_cmd ue_cont_res_id) lengths

end Sent

section RoundTrip

variable {ue : Ue} {lengths : List (Nat × Nat)} {sdus : Sdus} {drx : Byte} {ta : Int}
  {cr : Option (Vector Byte 6)} {short post : Nat}

theorem generateDlschHeader_eq (mac_header : Mem) (lengths : List (Nat × Nat)) :
    generateDlschHeader mac_header lengths drx ta cr short post =
      (Writer.given mac_header short (dlschElements drx ta cr) lengths).result post := by
  unfold generateDlschHeader Writer.given dlschElements drxElements timingElements contElements
    Writer.controlElements
  cases cr with
  | none | some => split <;> split <;> rfl

theorem mem_dlschElements {lcid : Nat} (h : lcid ∈ (dlschElements drx ta cr).lcids) :
    lcid = DRX_CMD ∨ lcid = TIMING_ADV_CMD ∨ lcid = UE_CONT_RES := by
  simp only [dlschElements, lcids_append, List.mem_append] at h
  obtain (h | h) | h := h
  · unfold drxElements at h
    split at h
    · exact .inl (List.mem_singleton.1 h)
    · cases h
  · unfold timingElements at h
    split at h
    · exact .inr (.inl (List.mem_singleton.1 h))
    · cases h
  · cases cr with
    | none => cases h
    | some id => exact .inr (.inr (List.mem_singleton.1 h))

theorem length_dlschElements : (dlschElements drx ta cr).length ≤ 3 ∧
    (dlschElements drx ta cr).bytes.length ≤ 7 ∧
    (dlschElements drx ta cr).bytes.length =
      ((dlschElements drx ta cr).lcids.map
        fun lcid => (dlsch.ceLen lcid).getD 0).sum := by
  unfold dlschElements drxElements timingElements contElements
  cases cr with
  | none | some =>
    split <;> split <;> simp [Elements.lcids, Elements.bytes, dlsch, DRX_CMD, TIMING_ADV_CMD,
      UE_CONT_RES]

theorem takes_dlsch (hlength : ∀ x ∈ sdus.lengths, x.2 < 2 ^ 15)
    (lcids : ∀ x ∈ sdus.lengths, x.1 < NB_RB_MAX) (number : sdus.lengths.length ≤ NB_RB_MAX) :
    dlsch.Takes (dlschElements drx ta cr) sdus where
  padding := by decide
  each_ce lcid hmem := by
    obtain rfl | rfl | rfl := mem_dlschElements hmem <;> decide
  each_sdu x hx :=
    have hmem : (x.1, x.2.length) ∈ sdus.lengths := List.mem_map.2 ⟨x, hx, rfl⟩
    ⟨Nat.lt_trans (lcids _ hmem) (by decide), hlength _ hmem⟩
  ces := Nat.le_trans length_dlschElements.1 (by decide)
  sdus := by simpa [Sdus.lengths] using number
  bytes := Nat.le_trans length_dlschElements.2.1 (by decide)

/-! ## The loop over control elements -/

theorem elements_drx (rx : Mem) (r : UeRun) (ces : List Nat) :
    UeRun.elements rx ((drxElements drx).lcids ++ ces) r =
      UeRun.elements rx ces
        { r with
          payload_ptr := r.payload_ptr + (drxActions drx).length
          actions := r.actions ++ drxActions drx } := by
  unfold drxElements drxActions
  split <;> simp [UeRun.elements, UeRun.act, Elements.lcids, DRX_CMD, TIMING_ADV_CMD, UE_CONT_RES]

theorem elements_timing (rx : Mem) (r : UeRun) (cmd : Int) (ces : List Nat) :
    UeRun.elements rx ((timingElements cmd).lcids ++ ces) r =
      UeRun.elements rx ces
        { r with
          payload_ptr := r.payload_ptr + (timingElements cmd).bytes.length
          actions := r.actions ++
            if cmd ≠ 0 then [.processTimingAdvance (rx r.payload_ptr).toNat] else [] } := by
  unfold timingElements
  split <;> simp [UeRun.elements, UeRun.act, Elements.lcids, Elements.bytes, TIMING_ADV_CMD,
    UE_CONT_RES]

/-- With the identity of another UE, the loop is left for good. -/
theorem elements_cont (rx : Mem) (r : UeRun) (id : Vector Byte 6) :
    ∃ ptr, UeRun.elements rx (contElements (some id)).lcids r =
        ({ ue := r.ue.resolved (some id)
           payload_ptr := ptr
           actions := r.actions ++ r.ue.contActions (rx.read r.payload_ptr 6) },
          decide (r.ue.RA_active = true → r.ue.tx_sdu = rx.read r.payload_ptr 6)) ∧
      ((r.ue.RA_active = true → r.ue.tx_sdu = rx.read r.payload_ptr 6) →
        ptr = r.payload_ptr + (contElements (some id)).bytes.length) := by
  have hsix : (contElements (some id)).bytes.length = 6 := by
    simp [contElements, Elements.bytes]
  rw [hsix]
  by_cases hra : r.ue.RA_active
  · by_cases htx : r.ue.CCCH_pdu.read 3 6 = rx.read r.payload_ptr 6
    · refine ⟨_, ?_, fun _ => rfl⟩
      simp [contElements, Ue.contActions, Elements.lcids, UeRun.elements, UeRun.act, Ue.tx_sdu,
        Ue.resolved, hra, htx]
    · refine ⟨r.payload_ptr, ?_, fun h => absurd (h hra) htx⟩
      simp [contElements, Ue.contActions, Elements.lcids, UeRun.elements, UeRun.act, Ue.tx_sdu,
        Ue.resolved, hra, htx]
  · refine ⟨_, ?_, fun _ => rfl⟩
    simp [contElements, Ue.contActions, Elements.lcids, UeRun.elements, UeRun.act, Ue.resolved, hra]

/-! ## What is handed up -/

theorem handUp_of_lt {x : Nat × List Byte} (h : x.1 < NB_RB_MAX) :
    handUp x = some (if x.1 = CCCH then .macRrcDataInd x.2 else .macRlcDataInd x.1 x.2) := by
  unfold handUp
  split
  · rfl
  split
  · rfl
  · rename_i hccch hdcch
    rw [if_pos]
    simp only [CCCH, DCCH, DCCH1] at hccch hdcch ⊢
    omega

theorem lt_of_handUp {x : Nat × List Byte} {lcid : Nat} {sdu : List Byte}
    (h : handUp x = some (.macRlcDataInd lcid sdu)) : lcid < NB_RB_MAX := by
  unfold handUp at h
  split at h
  · cases h
  split at h
  · rename_i hdcch
    cases h
    obtain h | h := hdcch <;> rw [h] <;> decide
  split at h
  · rename_i hlt
    cases h
    exact hlt.1
  · cases h

/-- The SDUs that are read are those that were sent if and only if their bytes are at the
pointer. -/
theorem filterMap_handUp {rx : Mem} {ptr : Nat} (lcids : ∀ x ∈ sdus.lengths, x.1 < NB_RB_MAX) :
    (sdusAt rx ptr sdus.lengths).filterMap handUp = sduActions sdus ↔
    Stores rx ptr sdus.payload := by
  induction sdus generalizing ptr with
  | nil => exact iff_of_true rfl rfl
  | cons x sdus ih =>
    have hx : x.1 < NB_RB_MAX := lcids (x.1, x.2.length) List.mem_cons_self
    have ih := @ih (ptr + x.2.length) fun y hy => lcids y (List.mem_cons_of_mem _ hy)
    rw [show Sdus.payload (x :: sdus) = x.2 ++ Sdus.payload sdus from rfl, stores_append, ← ih]
    show ((x.1, rx.read ptr x.2.length) ::
        sdusAt rx (ptr + x.2.length) (Sdus.lengths sdus)).filterMap handUp =
      (if x.1 = CCCH then .macRrcDataInd x.2 else .macRlcDataInd x.1 x.2) :: sduActions sdus ↔ _
    rw [List.filterMap_cons, handUp_of_lt (x := (x.1, rx.read ptr x.2.length)) hx, List.cons.injEq]
    refine and_congr_left fun _ => ?_
    unfold Stores
    split <;> simp

def UeAction.isSdu : UeAction → Bool
  | .macRrcDataInd _ | .macRlcDataInd _ _ => true
  | _ => false

theorem filter_elements (rx : Mem) (ces : List Nat) (r : UeRun) :
    (UeRun.elements rx ces r).1.actions.filter UeAction.isSdu =
      r.actions.filter UeAction.isSdu := by
  induction ces generalizing r with
  | nil => rfl
  | cons lcid ces ih =>
    unfold UeRun.elements
    split
    · dsimp only
      split
      · split <;> simp [UeRun.act, UeAction.isSdu]
      · rw [ih]
        simp [UeRun.act, UeAction.isSdu]
    split
    · rw [ih]
      simp [UeRun.act, UeAction.isSdu]
    split
    · rw [ih]
      simp [UeRun.act, UeAction.isSdu]
    · exact ih r

theorem filter_handUp (l : Sdus) : (l.filterMap handUp).filter UeAction.isSdu =
    l.filterMap handUp := by
  rw [List.filter_eq_self]
  intro action hmem
  obtain ⟨x, -, hx⟩ := List.mem_filterMap.1 hmem
  unfold handUp at hx
  split at hx
  · cases hx
    rfl
  split at hx
  · cases hx
    rfl
  split at hx
  · cases hx
    rfl
  · cases hx

theorem filter_sent : (elementActions ue drx ta cr ++
    sduActions sdus).filter UeAction.isSdu = sduActions sdus := by
  have helements : (elementActions ue drx ta cr).filter UeAction.isSdu = [] := by
    unfold elementActions drxActions timingActions Ue.contActions
    rw [List.filter_eq_nil_iff]
    intro action hmem
    simp only [List.mem_append, List.mem_flatMap, List.mem_cons] at hmem
    obtain (h | h) | ⟨id, -, rfl | h⟩ := hmem
    · split at h <;> simp_all [UeAction.isSdu]
    · split at h <;> simp_all [UeAction.isSdu]
    · simp [UeAction.isSdu]
    · split at h
      · split at h <;> simp_all [UeAction.isSdu]
      · cases h
  rw [List.filter_append, helements, List.nil_append, List.filter_eq_self]
  intro action hmem
  obtain ⟨x, -, rfl⟩ := List.mem_map.1 hmem
  split <;> rfl

/-- No more SDUs are handed up than the arrays hold, and none of an LCID that is not a bearer's. -/
theorem bounds_of_sent {ue' : Ue} {rx : Mem} {size : Nat} (h : ueSendSdu ue rx size =
      some (ue', elementActions ue drx ta cr ++ sduActions sdus)) :
    (∀ x ∈ sdus.lengths, x.1 < NB_RB_MAX) ∧ sdus.lengths.length ≤ NB_RB_MAX := by
  obtain ⟨p, hparse, hp⟩ := Option.map_eq_some_iff.1 h
  obtain ⟨l, hle, hl⟩ : ∃ l : Sdus, l.length ≤ NB_RB_MAX ∧
      sduActions sdus = l.filterMap handUp := by
    have hactions := congrArg (fun result => result.2.filter UeAction.isSdu) hp
    simp only [filter_sent] at hactions
    split at hactions
    · rw [List.filter_append, filter_elements, filter_handUp] at hactions
      exact ⟨_, by simpa using (bounded_of_parse hparse).2, hactions.symm⟩
    · rw [filter_elements] at hactions
      exact ⟨[], by decide, hactions.symm⟩
  constructor
  · intro y hy
    obtain ⟨x, hx, rfl⟩ := List.mem_map.1 hy
    by_cases hccch : x.1 = CCCH
    · simp only [hccch]
      decide
    · have hmem : UeAction.macRlcDataInd x.1 x.2 ∈ l.filterMap handUp := by
        rw [← hl]
        exact List.mem_map.2 ⟨x, hx, if_neg hccch⟩
      obtain ⟨z, -, hz⟩ := List.mem_filterMap.1 hmem
      exact lt_of_handUp hz
  · calc sdus.lengths.length = (sduActions sdus).length := by simp [Sdus.lengths, sduActions]
      _ ≤ l.length := by
        rw [hl]
        exact List.length_filterMap_le _ _
      _ ≤ NB_RB_MAX := hle

/-! ## What is at the pointer -/

/-- What the UE finds from a place on is what was sent. -/
structure Seen (ue : Ue) (sdus : Sdus) (ta : Int) (cr : Option (Vector Byte 6))
    (rx : Mem) (ptr : Nat) : Prop where
  timing : ta ≠ 0 → ((rx ptr).toNat : Int) = ta + 31
  cont : ∀ id ∈ cr, rx.read (ptr + (timingElements ta).bytes.length) 6 = id.toList
  sdus : sdus = [] ∨ ue.Wins cr ∧ Stores rx (ptr + (timingElements ta).bytes.length +
    (contElements cr).bytes.length) sdus.payload

theorem timing_iff {rx : Mem} {ptr : Nat} {cmd : Int} {l l' : List UeAction} :
    (if cmd ≠ 0 then [UeAction.processTimingAdvance (rx ptr).toNat] else []) ++ l =
      timingActions cmd ++ l' ↔ (cmd ≠ 0 → ((rx ptr).toNat : Int) = cmd + 31) ∧ l = l' := by
  unfold timingActions
  split
  · rename_i h
    simp [h]
  · rename_i h
    simp [h]

theorem contActions_iff {id id' : List Byte} {l l' : List UeAction} :
    ue.contActions id ++ l = ue.contActions id' ++ l' ↔ id = id' ∧ l = l' := by
  unfold Ue.contActions
  split
  · simp only [List.cons_append, List.nil_append, List.cons.injEq, UeAction.contRes.injEq]
    refine and_congr_right ?_
    rintro rfl
    simp
  · simp

theorem tail_iff (rx : Mem) {ptr ptr' : Nat} {wins : Prop} [Decidable wins]
    (hptr : wins → ptr = ptr') (lcids : ∀ x ∈ sdus.lengths, x.1 < NB_RB_MAX) :
    (if wins then (sdusAt rx ptr sdus.lengths).filterMap handUp else []) = sduActions sdus ↔
      sdus = [] ∨ wins ∧ Stores rx ptr' sdus.payload := by
  by_cases hwins : wins
  · rw [if_pos hwins, filterMap_handUp lcids, hptr hwins]
    refine ⟨fun h => .inr ⟨hwins, h⟩, ?_⟩
    rintro (rfl | h)
    · rfl
    · exact h.2
  · rw [if_neg hwins, eq_comm]
    simp [sduActions, hwins]

/-- The UE makes of a block what was meant if and only if the bytes are where it looks for them. -/
theorem ueSendSdu_iff {rx : Mem} {size : Nat} {p : Parsed} (hparse : parseHeader rx size = some p)
    (hces : p.ces = (dlschElements drx ta cr).lcids) (hsdus : p.sdus = sdus.lengths)
    (lcids : ∀ x ∈ sdus.lengths, x.1 < NB_RB_MAX) :
    ueSendSdu ue rx size = some (ue.resolved cr, elementActions ue drx ta cr ++ sduActions sdus) ↔
      Seen ue sdus ta cr rx (p.ptr + (drxActions drx).length) := by
  rw [ueSendSdu, hparse, Option.map_some, hces, hsdus, Option.some.injEq, dlschElements,
    lcids_append, lcids_append, List.append_assoc, elements_drx, elements_timing]
  generalize hstart : p.ptr + (drxActions drx).length = start
  have hsplit : ∀ (a b : List UeAction) (wins : Prop) [Decidable wins],
      (if decide wins = true then a ++ b else a) = a ++ if wins then b else [] := by
    intro a b wins _
    split <;> simp_all
  cases cr with
  | none =>
    have htail :=
      tail_iff rx (fun _ : True => @rfl _ (start + (timingElements ta).bytes.length)) lcids
    simp only [if_true, true_and] at htail
    simp only [contElements, Option.toList_none, List.map_nil, Elements.lcids, UeRun.elements,
      if_true, Ue.resolved, Option.isSome_none, Bool.false_eq_true, and_false, if_false,
      elementActions, List.flatMap_nil, List.append_nil, List.nil_append, List.append_assoc,
      Prod.mk.injEq, true_and, List.append_cancel_left_eq, timing_iff, htail]
    have hwins : ue.Wins none := by rintro - _ ⟨⟩
    exact ⟨fun h => ⟨h.1, by rintro _ ⟨⟩, h.2.imp_right fun h => ⟨hwins, h⟩⟩,
      fun h => ⟨h.timing, h.sdus.imp_right And.right⟩⟩
  | some id =>
    obtain ⟨ptr, helements, hptr⟩ := elements_cont rx
      { ue := ue
        payload_ptr := start + (timingElements ta).bytes.length
        actions := drxActions drx ++ if ta ≠ 0 then
          [.processTimingAdvance (rx start).toNat] else [] } id
    simp only [List.nil_append, helements, hsplit]
    simp only [elementActions, Option.toList_some, List.flatMap_singleton, List.append_assoc,
      Prod.mk.injEq, true_and, List.append_cancel_left_eq, timing_iff, contActions_iff,
      tail_iff rx hptr lcids]
    constructor
    · rintro ⟨htiming, hcont, hsdus⟩
      rw [hcont] at hsdus
      exact ⟨htiming, by rintro _ ⟨⟩; exact hcont, hsdus.imp_right fun h =>
        ⟨by rintro hra _ ⟨⟩; exact h.1 hra, h.2⟩⟩
    · intro h
      have hcont := h.cont id rfl
      rw [hcont]
      exact ⟨h.timing, rfl, h.sdus.imp_right fun h => ⟨fun hra => h.1 hra id rfl, h.2⟩⟩

/-- The bytes from a place on at which everything is found. -/
theorem Seen.read {rx : Mem} {ptr : Nat} (h : Seen ue sdus ta cr rx ptr) :
    rx.read ptr ((timingElements ta).bytes.length + (contElements cr).bytes.length +
        sdus.payload.length) =
      (if ta ≠ 0 then [UInt8.ofNat (ta + 31).toNat] else []) ++
        (contElements cr).bytes ++ sdus.payload := by
  have htiming : rx.read ptr (timingElements ta).bytes.length =
      if ta ≠ 0 then [UInt8.ofNat (ta + 31).toNat] else [] := by
    unfold timingElements
    split
    · rename_i hne
      rw [← h.timing hne, Int.toNat_natCast, UInt8.ofNat_toNat]
      rfl
    · rfl
  have hcont : rx.read (ptr + (timingElements ta).bytes.length) (contElements cr).bytes.length =
      (contElements cr).bytes := by
    cases hid : cr with
    | none => rfl
    | some id => simpa [contElements, Elements.bytes] using h.cont id hid
  have hsdus : rx.read (ptr + (timingElements ta).bytes.length +
      (contElements cr).bytes.length) sdus.payload.length = sdus.payload := by
    obtain rfl | h := h.sdus
    · rfl
    · exact h.2
  rw [read_append, read_append, htiming, hcont, ← Nat.add_assoc, hsdus]

/-! ## The round trip -/

theorem bytes_dlsch (hdrx : drx = 255) : (dlschElements drx ta cr).bytes =
    (timingElements ta).bytes ++ (contElements cr).bytes := by
  simp [dlschElements, drxElements, hdrx]

theorem timing_of_stores {rx : Mem} {ptr : Nat} (hne : ta ≠ 0)
    (h : Stores rx ptr (timingElements ta).bytes) : rx ptr = timingAdvanceByte ta := by
  rw [timingElements, if_pos hne] at h
  exact List.singleton_inj.1 h

/-- What is readable is found: where it was put, or nowhere at all after a DRX command. -/
theorem Readable.seen {rx : Mem} {ptr : Nat} (h : Readable ue sdus.lengths drx ta cr short post)
    (hstores : Stores rx ptr ((dlschElements drx ta cr).bytes ++ sdus.payload)) :
    Seen ue sdus ta cr rx (ptr + (drxActions drx).length) := by
  have hsdus : sdus = [] ∨ ue.Wins cr := h.contention.imp_left List.map_eq_nil_iff.1
  by_cases hdrx : drx = 255
  · rw [bytes_dlsch hdrx, List.append_assoc, stores_append, stores_append] at hstores
    obtain ⟨htiming, hcont, hpayload⟩ := hstores
    rw [drxActions, if_neg (not_not.2 hdrx), List.length_nil, Nat.add_zero]
    refine ⟨fun hne => ?_, ?_, hsdus.imp_right fun hwins => ⟨hwins, hpayload⟩⟩
    · have := h.timing_advance
      rw [timing_of_stores hne htiming, timingAdvanceByte, UInt8.toNat_ofNat']
      omega
    · rintro id ⟨⟩
      simpa [Stores, contElements, Elements.bytes] using hcont
  · obtain ⟨rfl, rfl, hempty⟩ := h.drx.resolve_left hdrx
    refine ⟨fun hne => absurd rfl hne, by rintro _ ⟨⟩, hsdus.imp_right fun hwins => ⟨hwins, ?_⟩⟩
    exact stores_empty (fun x hx =>
      List.length_eq_zero_iff.1 (hempty _ (List.mem_map.2 ⟨x, hx, rfl⟩))) rx _

/-- Every block with these elements and SDUs of these lengths is read as it was meant, whatever is
in memory before the header is written, in the padding and after the block: every control element,
and every SDU with its LCID, its length and its bytes. -/
def ReadsAll (ue : Ue) (lengths : List (Nat × Nat)) (drx_cmd : Byte) (timing_advance_cmd : Int)
    (ue_cont_res_id : Option (Vector Byte 6)) (short_padding post_padding : Nat) : Prop :=
  ∀ sdus : Sdus, sdus.lengths = lengths → ∀ (mac_header : Mem) (pad : List Byte),
  (post_padding = 0 → pad = []) →
    ∀ (rx : Mem) (block : List Byte),
      block =
        blockOf (generateDlschHeader mac_header lengths drx_cmd timing_advance_cmd ue_cont_res_id
        short_padding post_padding) sdus pad →
      rx.read 0 block.length = block →
      ueSendSdu ue rx block.length = some (ue.resolved ue_cont_res_id,
        elementActions ue drx_cmd timing_advance_cmd ue_cont_res_id ++ sduActions sdus)

/-- The one byte of a header with nothing in it is what was there before, here that of a DRX
command. -/
theorem ReadsAll.announced (h : ReadsAll ue lengths drx ta cr short post) :
    Announced short post (dlschElements drx ta cr) lengths := by
  by_contra hnot
  simp only [Announced, not_or, not_not, Nat.not_lt, Nat.le_zero, ne_eq] at hnot
  obtain ⟨hone, htwo, rfl, hels, rfl⟩ := hnot
  have hblock : blockOf (generateDlschHeader (fun _ => 0x1E) [] drx ta cr
      short 0) [] [] = [0x1E] := by
    rw [generateDlschHeader_eq, hels]
    simp [blockOf, Writer.given, Writer.shortPadding, Writer.controlElements, Writer.sdus,
      Writer.result, Writer.finish, hone, htwo, Sdus.payload, Mem.copy, Mem.read]
  have hread := h [] rfl (fun _ => 0x1E) [] (fun _ => rfl) (fun _ => 0x1E) _ hblock.symm rfl
  have hnone : drx = 255 ∧ ta = 0 ∧ cr = none := by
    simpa [dlschElements, drxElements, timingElements, contElements, and_assoc] using hels
  obtain ⟨rfl, rfl, rfl⟩ := hnone
  have hdrx : ueSendSdu ue (fun _ => 0x1E) 1 = some (ue, [.drxCmd]) := rfl
  rw [List.length_singleton, hdrx] at hread
  cases congrArg Prod.snd (Option.some.inj hread)

/-- A block of SDUs whose bytes are 0, with the byte `c` everywhere after it: what was sent is where
the header ends, and is found where the UE looks for it. -/
theorem ReadsAll.seen (h : ReadsAll ue lengths drx ta cr short post)
    (hlength : ∀ x ∈ lengths, x.2 < 32768) (lcids : ∀ x ∈ lengths, x.1 < NB_RB_MAX)
    (number : lengths.length ≤ NB_RB_MAX) :
    ∃ (block : List Byte) (ptr : Nat),
      ptr + (dlschElements drx ta cr).bytes.length + (filled 0 lengths).payload.length =
        block.length ∧
      ∀ c : Byte, Stores (Mem.copy (fun _ => c) 0 block) ptr (dlschElements drx ta cr).bytes ∧
        Seen ue (filled 0 lengths) ta cr (Mem.copy (fun _ => c) 0 block)
          (ptr + (drxActions drx).length) := by
  generalize hblock : blockOf (generateDlschHeader (fun _ => 0) lengths drx ta
    cr short post) (filled 0 lengths) [] = block
  have hlengths := lengths_filled 0 lengths
  have takes : dlsch.Takes (dlschElements drx ta cr) (filled 0 lengths) :=
    takes_dlsch (by rwa [hlengths]) (by rwa [hlengths]) (by rwa [hlengths])
  have hnil : post = 0 → ([] : List Byte) = [] := fun _ => rfl
  have heach := fun c : Byte => parse_block 0 takes (fun _ => by rwa [hlengths])
    (fun _ => length_dlschElements.2.2) (by rw [hlengths]; exact h.announced) hnil
    (by rw [hlengths, ← generateDlschHeader_eq, hblock]) (read_copy (fun _ => c) 0 block)
  obtain ⟨p, -, -, -, -, hend⟩ := heach 0
  refine ⟨block, p.ptr, hend, fun c => ?_⟩
  obtain ⟨q, hparse, hces, hsdus, hstores, hend'⟩ := heach c
  obtain hptr : q.ptr = p.ptr := by omega
  rw [← hptr]
  rw [stretch_zero, ite_self] at hsdus
  refine ⟨(stores_append.1 hstores).1, (ueSendSdu_iff hparse hces hsdus (by rwa [hlengths])).1 ?_⟩
  exact h _ hlengths _ [] (fun _ => rfl) _ block hblock.symm (read_copy _ _ _)

/-- After a DRX command everything is read one byte late, and the last byte from behind the
block. -/
theorem drx_of_seen {block : List Byte} {ptr : Nat}
    (hend : ptr + (dlschElements drx ta cr).bytes.length + sdus.payload.length = block.length)
    (h : ∀ c : Byte, Seen ue sdus ta cr (Mem.copy (fun _ => c) 0 block)
      (ptr + (drxActions drx).length)) :
    drx = 255 ∨ ta = 0 ∧ cr = none ∧ ∀ x ∈ sdus.lengths, x.2 = 0 := by
  by_cases hdrx : drx = 255
  · exact .inl hdrx
  right
  rw [drxActions, if_pos hdrx, List.length_singleton] at h
  have hbytes : (dlschElements drx ta cr).bytes.length =
      (timingElements ta).bytes.length + (contElements cr).bytes.length := by
    simp [dlschElements, drxElements, hdrx, Elements.bytes]
  rw [hbytes] at hend
  obtain hzero | ⟨n, hn⟩ : (timingElements ta).bytes.length +
      (contElements cr).bytes.length + sdus.payload.length = 0 ∨
    ∃ n, (timingElements ta).bytes.length + (contElements cr).bytes.length +
      sdus.payload.length = n + 1 := Nat.eq_zero_or_eq_succ_pred _ |>.imp_right fun h => ⟨_, h⟩
  · refine ⟨?_, ?_, ?_⟩
    · by_contra hne
      simp [timingElements, hne, Elements.bytes] at hzero
    · cases cr with
      | none => rfl
      | some id => simp [contElements, Elements.bytes] at hzero
    · exact lengths_of_no_payload (by omega)
  · have hsame := (h 0).read.trans (h 1).read.symm
    rw [hn, read_append, read_append, read_one, read_one] at hsame
    have hlast := List.singleton_inj.1 (List.append_inj hsame (by simp)).2
    have hbehind : 0 + block.length ≤ ptr + 1 + n := by omega
    rw [copy_outside (.inr hbehind), copy_outside (.inr hbehind)] at hlast
    cases hlast

theorem ReadsAll.readable (h : ReadsAll ue lengths drx ta cr short post)
    (hlength : ∀ x ∈ lengths, x.2 < 32768) :
    Readable ue lengths drx ta cr short post := by
  have hlengths := lengths_filled 0 lengths
  have hsent := h (filled 0 lengths) hlengths (fun _ => 0) [] (fun _ => rfl) _ _ rfl
    (read_copy (fun _ => 0) 0 _)
  obtain ⟨lcids, number⟩ := bounds_of_sent hsent
  rw [hlengths] at lcids number
  obtain ⟨block, ptr, hend, hseen⟩ := h.seen hlength lcids number
  have hdrx := drx_of_seen hend fun c => (hseen c).2
  rw [hlengths] at hdrx
  refine ⟨hdrx, ?_, ?_, lcids, number, h.announced⟩
  · by_cases htiming : ta = 0
    · omega
    -- without a DRX command the byte is the one that was written, which has six bits
    · have hdrx : drx = 255 := hdrx.resolve_right fun h => htiming h.1
      obtain ⟨hstores, hseen⟩ := hseen 0
      have hread := hseen.timing htiming
      rw [bytes_dlsch hdrx] at hstores
      rw [drxActions, if_neg (not_not.2 hdrx), List.length_nil, Nat.add_zero,
        timing_of_stores htiming (stores_append.1 hstores).1, timingAdvanceByte, UInt8.toNat_ofNat']
          at hread
      omega
  · obtain hnil | ⟨hwins, -⟩ := (hseen 0).2.sdus
    · exact .inl (by simpa [filled] using hnil)
    · exact .inr hwins

/-- A UE reads all blocks of a kind as they were meant if and only if they are readable. -/
theorem the_ue_reads_what_was_sent (ue : Ue) (lengths : List (Nat × Nat)) (drx_cmd : Byte)
    (timing_advance_cmd : Int) (ue_cont_res_id : Option (Vector Byte 6))
    (short_padding post_padding : Nat) (hlength : ∀ x ∈ lengths, x.2 < 32768) :
    ReadsAll ue lengths drx_cmd timing_advance_cmd ue_cont_res_id short_padding post_padding ↔
      Readable ue lengths drx_cmd timing_advance_cmd ue_cont_res_id short_padding post_padding := by
  refine ⟨fun h => h.readable hlength, fun readable => ?_⟩
  rintro sdus rfl mac_header pad hpad rx block hblock hrx
  rw [generateDlschHeader_eq] at hblock
  obtain ⟨p, hparse, hces, hsdus, hstores, -⟩ :=
    parse_block 0 (takes_dlsch hlength readable.lcids readable.number) (fun _ => hlength)
      (fun _ => length_dlschElements.2.2) readable.announced hpad hblock hrx
  rw [stretch_zero, ite_self] at hsdus
  exact (ueSendSdu_iff hparse hces hsdus readable.lcids).2 (readable.seen hstores)

end RoundTrip

def aUeInRandomAccess : Ue where
  RA_active := true
  RA_contention_resolution_timer_active := true
  CCCH_pdu := Mem.copy (fun _ => 0) 3 [1, 2, 3, 4, 5, 6]

def msg4 : List Byte :=
  blockOf (generateDlschHeader (fun _ => 0) [(0, 2), (3, 3)] 255 5 (some #v[1, 2, 3, 4, 5, 6]) 0 4)
    [(0, [8, 8]), (3, [7, 8, 9])] [0, 0, 0, 0]

theorem the_ue_reads_msg4 :
    msg4 = [0x3D, 0x3C, 0x20, 2, 0x23, 3, 0x1F, 36, 1, 2, 3, 4, 5, 6, 8, 8, 7, 8, 9, 0, 0, 0, 0] ∧
    ueSendSdu aUeInRandomAccess (Mem.copy (fun _ => 0) 0 msg4) msg4.length =
      some (aUeInRandomAccess.resolved (some #v[1, 2, 3, 4, 5, 6]),
        [.processTimingAdvance 36, .contRes [1, 2, 3, 4, 5, 6], .raSucceeded, .macRrcDataInd [8, 8],
          .macRlcDataInd 3 [7, 8, 9]]) := by
  refine ⟨by decide +kernel, ?_⟩
  have readable : Readable aUeInRandomAccess [(0, 2),
      (3, 3)] 255 5 (some #v[1, 2, 3, 4, 5, 6]) 0 4 :=
    { drx := .inl rfl
      timing_advance := by decide
      contention := by
        right
        rintro - id ⟨⟩
        decide
      lcids := by decide
      number := by decide
      announced := .inr (.inr (.inl (by decide))) }
  exact (the_ue_reads_what_was_sent aUeInRandomAccess [(0, 2),
    (3, 3)] 255 5 (some #v[1, 2, 3, 4, 5, 6]) 0 4
    (by decide)).2 readable [(0, [8, 8]), (3, [7, 8, 9])] rfl (fun _ =>
      0) [0, 0, 0, 0] (by decide) _ msg4 rfl
    (read_copy _ _ _)

/-- A block with a DRX command and an SDU: the UE skips a byte that is not there, and hands up what
comes one byte later. -/
theorem a_drx_command_shifts_the_sdu : (ueSendSdu { aUeInRandomAccess with RA_active := false }
      (Mem.copy (fun _ => 0) 0 (blockOf (generateDlschHeader (fun _ => 0) [(3, 3)] 0 0 none 0 0)
        [(3, [7, 8, 9])] [])) 5).map Prod.snd = some [.drxCmd, .macRlcDataInd 3 [8, 9, 0]] ∧
    blockOf (generateDlschHeader (fun _ => 0) [(3, 3)] 0 0 none 0 0) [(3, [7, 8, 9])] [] =
      [0x3E, 0x03, 7, 8, 9] ∧
    elementActions aUeInRandomAccess 0 0 none ++ sduActions [(3, [7, 8, 9])] =
      [.drxCmd, .macRlcDataInd 3 [7, 8, 9]] := by
  decide +kernel

end MacRlcSplit.Mac
