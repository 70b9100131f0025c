-- The DU side of the MAC/RLC split: one slot per channel, filled by the
-- receive thread from each CU reply and emptied by the MAC scheduler. The
-- slots know the channel but not the UE.
import MacRlcSplit.Split.Cu

namespace MacRlcSplit.Split

open Lib

/-! ## The globals -/

/-- `maxDRB` of the RRC ASN.1 files. -/
def maxDRB : Nat := 11

/-- The globals `du_rlc_srep_*` and `du_rlc_drep_*` of one channel. -/
structure Slot where
  srep_ready : Bool := false
  srep_data : MacRlcStatusResp := {}
  drep_ready : Bool := false
  drep_size : Nat := 0
  drep_data : List Byte := []

/-- The two groups of DU tables, `du_rlc_*_SRB` and `du_rlc_*_DRB`. -/
inductive Table where
  | srb
  | drb
deriving DecidableEq, Repr

/-- The entries that the tables are declared with. -/
def Table.size : Table → Nat
  | .srb => 3
  | .drb => maxDRB

/-- The source picks the table by the channel, and uses the channel as index into it: the
channels 11 to 13 are behind the `_DRB` tables. -/
def Table.of (channel : Nat) : Table := if channel < 3 then .srb else .drb

structure Du where
  srb : Vector Slot 3 := .replicate 3 {}
  drb : Vector Slot maxDRB := .replicate maxDRB {}

def Du.entry (du : Du) : Table → Nat → Slot
  | .srb, i => du.srb[i]?.getD {}
  | .drb, i => du.drb[i]?.getD {}

/-- A write of entry `i`. One behind the table changes no entry of it. -/
def Du.put (du : Du) (table : Table) (i : Nat) (s : Slot) : Du :=
  match table with
  | .srb => { du with srb := du.srb.setIfInBounds i s }
  | .drb => { du with drb := du.drb.setIfInBounds i s }

def Du.slot (du : Du) (channel : Nat) : Slot := du.entry (.of channel) channel

def Du.setSlot (du : Du) (channel : Nat) (s : Slot) : Du := du.put (.of channel) channel s

theorem Table.of_size {c : Nat} (hc : c < maxDRB) : c < (Table.of c).size := by
  unfold Table.of
  split
  · assumption
  · exact hc

theorem Du.slot_setSlot_self (du : Du) {c : Nat} (s : Slot) (hc : c < maxDRB) :
    (du.setSlot c s).slot c = s := by
  have hsize := Table.of_size hc
  unfold Du.setSlot Du.slot
  cases htable : Table.of c <;> rw [htable] at hsize
  · have hsize : c < 3 := hsize
    simp [Du.entry, Du.put, hsize]
  · simp [Du.entry, Du.put, hc]

theorem Du.slot_setSlot_of_ne (du : Du) {c d : Nat} (s : Slot) (h : d ≠ c) :
    (du.setSlot c s).slot d = du.slot d := by
  unfold Du.setSlot Du.slot
  cases Table.of c <;> cases Table.of d <;>
    simp [Du.entry, Du.put, Vector.getElem?_setIfInBounds_ne, Ne.symm h]

/-- `DU_BUF_SIZE` less the 6 bytes of `sp_head` and the 398 of `spmr_srep_drep`: the room
for PDUs in the buffer of `du_loop`. -/
def rxRoom : Nat := 8192 - 6 - 398

/-! ## The reply handler -/

/-- The entry of channel `i`, copied from the reply and from the buffer behind it. The
size is written even when it is 0; the data and the flag are not. -/
def fillSlot (buf : List Byte) (rep : SpmrSrepDrep) (tmplen_total i : Nat) (old : Slot) : Slot :=
  { srep_ready := true
    srep_data :=
      { bytes_in_buffer := rep.bytes i
        head_sdu_creation_time := rep.creation_time i
        head_sdu_is_segmented := rep.segmented i
        head_sdu_remaining_size_to_send := rep.remaining_bytes i
        pdus_in_buffer := rep.pdus i }
    drep_size := rep.tb_size i
    drep_data :=
      if rep.tb_size i ≠ 0 then overwrite (slice tmplen_total (rep.tb_size i) buf) old.drep_data
      else old.drep_data
    drep_ready := if rep.tb_size i ≠ 0 then true else old.drep_ready }

/-- One turn of the loop. The channel the reply names picks the table, the loop counter
the entry. -/
def handleChannel (buf : List Byte) (rep : SpmrSrepDrep) (st : Du × Nat) (i : Nat) : Du × Nat :=
  let (du, tmplen_total) := st
  let table := Table.of (rep.channel i)
  (du.put table i (fillSlot buf rep tmplen_total i (du.entry table i)),
    tmplen_total + rep.tb_size i)

def handleChannels (buf : List Byte) (rep : SpmrSrepDrep) (du : Du) : Nat → Du × Nat
  | 0 => (du, 0)
  | n + 1 => handleChannel buf rep (handleChannels buf rep du n) n

/-- `mac_rlc_handle_status_data_rep`, with the bytes behind the reply in `buf`. The UE
named by the reply is not looked at. -/
def macRlcHandleStatusDataRep (du : Du) (rep : SpmrSrepDrep) (buf : List Byte) : Du :=
  (handleChannels buf rep du NB_RB_MAX).1

/-! ## The scheduler's calls -/

/-- The channels that the source has a case for, but its tables no entry. -/
def PastTables (channel : Nat) : Prop := maxDRB ≤ channel ∧ channel < NB_RB_MAX

instance (channel : Nat) : Decidable (PastTables channel) :=
  inferInstanceAs (Decidable (_ ∧ _))

def Du.readData (du : Du) (channel : Nat) : Du × Nat × List Byte :=
  let slot := du.slot channel
  if channel < maxDRB ∧ slot.drep_ready then
    (du.setSlot channel { slot with drep_ready := false }, slot.drep_size,
      slot.drep_data.take slot.drep_size)
  else (du, 0, [])

/-- `mac_rlc_data_req` of the DU: the byte count returned and the bytes copied out, or `none`
for a channel whose globals are behind the tables. -/
def duMacRlcDataReq (du : Du) (channel : Nat) : Option (Du × Nat × List Byte) :=
  if PastTables channel then none else some (du.readData channel)

def Du.readStatus (du : Du) (channel : Nat) : Du × MacRlcStatusResp :=
  let slot := du.slot channel
  if channel < maxDRB ∧ slot.srep_ready then
    (du.setSlot channel { slot with srep_ready := false }, slot.srep_data)
  else (du, {})

/-- `mac_rlc_status_ind` of the DU: the request that is sent, if any, and the status that
is returned. Only the channels 0 and 1 send, and the answer is that of an earlier reply. -/
def duMacRlcStatusInd (du : Du) (rnti : Rnti) (frame : Nat) (channel : Nat) (tb_size : Int) :
    Option (Du × Option SpmrSreqDreq × MacRlcStatusResp) :=
  if PastTables channel then none
  else
    let sent := if channel ≤ 1 then some { rnti, frame, channel, tb_size } else none
    some ((du.readStatus channel).1, sent, (du.readStatus channel).2)

/-! ## What a reply leaves in the slots -/

def offset (rep : SpmrSrepDrep) : Nat → Nat
  | 0 => 0
  | n + 1 => offset rep n + rep.tb_size n

/-- After `n` turns the slots of the first `n` channels hold their entry of the reply and
the others are as they were. -/
theorem handleChannels_spec (buf : List Byte) (rep : SpmrSrepDrep) (du : Du) (n : Nat)
    (hch : ∀ i < n, rep.channel i = i) :
    (handleChannels buf rep du n).2 = offset rep n ∧
      ∀ c < maxDRB, (handleChannels buf rep du n).1.slot c =
        if c < n then fillSlot buf rep (offset rep c) c (du.slot c) else du.slot c := by
  induction n with
  | zero => exact ⟨rfl, fun c _ => by simp [handleChannels]⟩
  | succ n ih =>
    obtain ⟨htotal, hslots⟩ := ih fun i hi => hch i (by omega)
    have hstep : handleChannels buf rep du (n + 1) =
        ((handleChannels buf rep du n).1.setSlot n
          (fillSlot buf rep (offset rep n) n ((handleChannels buf rep du n).1.slot n)),
        offset rep (n + 1)) := by
      rw [handleChannels, handleChannel, hch n (by omega), htotal]
      rfl
    refine ⟨by rw [hstep], fun c hin => ?_⟩
    rw [hstep]
    by_cases hc : c = n
    · subst hc
      simp [Du.slot_setSlot_self _ _ hin, hslots _ hin]
    · rw [Du.slot_setSlot_of_ne _ _ hc, hslots c hin]
      have : c < n ↔ c < n + 1 := by omega
      simp only [this]

theorem offset_eq {n : Nat} {rep : SpmrSrepDrep} {data : List Byte} {pdus : Nat → List Byte}
    (hp : Packed n rep data pdus) {i : Nat} (hi : i ≤ n) :
    offset rep i = (concat pdus i).length := by
  induction i with
  | zero => rfl
  | succ i ih => simp [offset, concat, ih (by omega), hp.tb_size i (by omega)]

section Delivery

variable {rep : SpmrSrepDrep} {data : List Byte} {pdus : Nat → List Byte} {c : Nat}

theorem slot_handled (hp : Packed NB_RB_MAX rep data pdus) (du : Du) (buf : List Byte)
    (hc : c < maxDRB) :
    (macRlcHandleStatusDataRep du rep buf).slot c =
      fillSlot buf rep (offset rep c) c (du.slot c) := by
  have hspec := (handleChannels_spec buf rep du NB_RB_MAX hp.channel).2 c hc
  rwa [if_pos (Nat.lt_trans hc (by decide))] at hspec

theorem handle_flags (hp : Packed NB_RB_MAX rep data pdus) (du : Du) (buf : List Byte)
    (hc : c < maxDRB) :
    let s := (macRlcHandleStatusDataRep du rep buf).slot c
    s.drep_size = (pdus c).length ∧ (s.drep_ready ↔ pdus c ≠ [] ∨ (du.slot c).drep_ready) := by
  have hsize := hp.tb_size c (Nat.lt_trans hc (by decide))
  simp only [slot_handled hp du buf hc, fillSlot, hsize]
  refine ⟨trivial, ?_⟩
  by_cases he : pdus c = []
  · simp [he]
  · simp [he]

theorem handle_data (hp : Packed NB_RB_MAX rep data pdus) (du : Du) (stale : List Byte)
    (hfit : data.length ≤ rxRoom) (hc : c < maxDRB) (hne : pdus c ≠ []) :
    let s := (macRlcHandleStatusDataRep du rep (receive rxRoom data stale)).slot c
    s.drep_data.take s.drep_size = pdus c := by
  have hrb : c < NB_RB_MAX := Nat.lt_trans hc (by decide)
  have hsl : slice (offset rep c) (pdus c).length (receive rxRoom data stale) = pdus c := by
    rw [offset_eq hp hrb.le, slice_receive hfit, hp.data]
    · exact slice_concat _ hrb
    · rw [hp.data]
      exact le_length_concat _ hrb
  have hlen : (pdus c).length ≠ 0 := fun h => hne (List.length_eq_zero_iff.1 h)
  simp [slot_handled hp du _ hc, fillSlot, hp.tb_size c hrb, hsl, hlen]

end Delivery

/-! ## What the scheduler's calls leave -/

theorem readData_of_ready {du : Du} {c : Nat} (hc : c < maxDRB) (hr : (du.slot c).drep_ready) :
    (du.readData c).2 = ((du.slot c).drep_size,
      (du.slot c).drep_data.take (du.slot c).drep_size) := by
  simp [Du.readData, hc, hr]

theorem readData_ready (du : Du) {c d : Nat} (hd : d < maxDRB) :
    ((du.readData c).1.slot d).drep_ready = (decide (d ≠ c) && (du.slot d).drep_ready) := by
  unfold Du.readData
  by_cases hdc : d = c
  · subst hdc
    by_cases hr : (du.slot d).drep_ready = true <;> simp [hd, hr, Du.slot_setSlot_self]
  · dsimp only
    split_ifs <;> simp [hdc, Du.slot_setSlot_of_ne _ _ hdc]

theorem readData_other (du : Du) {c d : Nat} (hdc : d ≠ c) :
    (du.readData c).1.slot d = du.slot d := by
  unfold Du.readData
  dsimp only
  split_ifs <;> simp [Du.slot_setSlot_of_ne _ _ hdc]

theorem readStatus_drep (du : Du) (c d : Nat) :
    let s := (du.readStatus c).1.slot d
    s.drep_ready = (du.slot d).drep_ready ∧ s.drep_size = (du.slot d).drep_size ∧
      s.drep_data = (du.slot d).drep_data := by
  unfold Du.readStatus
  by_cases hr : c < maxDRB ∧ (du.slot c).srep_ready
  · by_cases hdc : d = c
    · subst hdc
      simp [hr, Du.slot_setSlot_self]
    · simp [hr, Du.slot_setSlot_of_ne _ _ hdc]
  · simp [hr]

end MacRlcSplit.Split
