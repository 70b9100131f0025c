-- The DU unpacks a status reply from the bytes it received, into two groups of
-- tables that it indexes with the channel. The tables of the DRBs end before
-- the last three channels.
import MacRlcSplit.Lib.Handler
import MacRlcSplit.Split.Du
import MacRlcSplit.Split.Wire

namespace MacRlcSplit.Split

open Lib List

/-! ## The handler -/

def DU_BUF_SIZE : Nat := 8192

/-- The bytes of `du_rlc_drep_data_SRB[i]` or `du_rlc_drep_data_DRB[i]`. There are none past the end
of the table. -/
def Table.room (table : Table) (i : Nat) : Nat :=
  if i < table.size then
    match table with
    | .srb => DU_BUF_SIZE
    | .drb => MAX_DLSCH_PAYLOAD_BYTES
  else 0

/-- The tables of the DU. The list `entries` is history only: the entries that were written,
also those behind a table. -/
structure DuRx where
  du : Du
  entries : List (Table × Nat) := []

def DuRx.put (s : DuRx) (table : Table) (i : Nat) (slot : Slot) : DuRx where
  du := s.du.put table i slot
  entries := s.entries ++ [(table, i)]

/-- The PDU of entry `i`, unless it has none: then the buffer is left as it is. -/
def copyPdu (mem : Nat → Byte) (tmplen_total size : Int) (room : Nat)
    (old : Slot) : Handler DuRx (List Byte) :=
  if size ≠ 0 then do
    let pdu ← Handler.copyFrom mem (404 + tmplen_total) size room
    pure (overwrite pdu old.drep_data)
  else pure old.drep_data

/-- One turn of the loop of `mac_rlc_handle_status_data_rep`, with the new `tmplen_total`. -/
def handleEntry (mem : Nat → Byte) (tmplen_total : Int) (i : Nat) : Handler DuRx Int := do
  let channel ← Handler.readLe mem (12 + 4 * i) 4
  let table := Table.of channel
  let bytes ← Handler.readLe mem (124 + 4 * i) 4
  let creation_time ← Handler.readLe mem (236 + 4 * i) 4
  let segmented ← Handler.readLe mem (348 + 4 * i) 4
  let remaining_bytes ← Handler.readLe mem (292 + 4 * i) 4
  let pdus ← Handler.readLe mem (180 + 4 * i) 4
  let tb_size ← Handler.readLe mem (68 + 4 * i) 4
  let s ← Handler.get
  let old := s.du.entry table i
  let data ← copyPdu mem tmplen_total (int32 tb_size) (table.room i) old
  Handler.set (s.put table i
    { srep_ready := true
      srep_data :=
        { bytes_in_buffer := int32 bytes
          head_sdu_creation_time := creation_time
          head_sdu_is_segmented := decide (segmented % 256 ≠ 0)
          head_sdu_remaining_size_to_send := int32 remaining_bytes
          pdus_in_buffer := int32 pdus }
      drep_size := (int32 tb_size).toNat
      drep_data := data
      drep_ready := if int32 tb_size ≠ 0 then true else old.drep_ready })
  pure (int32 (uint32 (tmplen_total + tb_size)))

def handleEntries (mem : Nat → Byte) : Nat → Handler DuRx Int
  | 0 => pure 0
  | n + 1 => do
    let tmplen_total ← handleEntries mem n
    handleEntry mem tmplen_total n

def duHandleStatusDataRep (mem : Nat → Byte) (len : Nat) : Handler DuRx Unit :=
  match spGenericIdentify sizeofSpHead len with
  | none => pure ()
  | some _ => do
    let _ ← handleEntries mem NB_RB_MAX
    pure ()

/-! ## What it does with a reply -/

section Reply

open Handler

variable {mem : Nat → Byte} {rep : SpmrSrepDrep} {data : List Byte} {W : Access → Prop}
  {i total : Nat}

/-- The table that entry `i` of a reply goes to. -/
def SpmrSrepDrep.table (rep : SpmrSrepDrep) (i : Nat) : Table := .of (rep.channel i)

variable {s : DuRx}

theorem keeps_copyPdu {size room : Nat} {old : Slot} {Q : List Byte → DuRx → Prop}
    (hdata : Holds mem 404 data) (hfit : total + size ≤ data.length)
    (hW : size ≠ 0 → W (.copy ((404 + total : Nat) : Int) size room))
    (hQ : Q (if size ≠ 0 then overwrite (slice total size data) old.drep_data else old.drep_data)
      s) :
    Keeps W (copyPdu mem total size room old) s Q := by
  unfold copyPdu
  by_cases hzero : size = 0
  · subst hzero
    exact keeps_pure.2 (by simpa using hQ)
  rw [if_pos (by omega), keeps_bind, keeps_copy]
  have hread : bytesAt mem (404 + total) size = slice total size data := bytesAt_of_holds hdata hfit
  refine ⟨by omega, hW hzero, keeps_pure.2 ?_⟩
  rw [if_pos hzero, ← hread] at hQ
  exact hQ

theorem keeps_handleEntry {Q : Int → DuRx → Prop} (hrep : Carries mem rep)
    (hdata : Holds mem 404 data) (hi : i < NB_RB_MAX) (hfit : total + rep.tb_size i ≤ data.length)
    (hlen : data.length < 2 ^ 31) (hread : ∀ off, off + 4 ≤ 404 → W (.read off 4))
    (hcopy : rep.tb_size i ≠ 0 →
      W (.copy ((404 + total : Nat) : Int) (rep.tb_size i) ((rep.table i).room i)))
    (hQ : ∀ s', (s'.du, total + rep.tb_size i) = handleChannel data rep (s.du, total) i →
      s'.entries = s.entries ++ [(rep.table i, i)] → Q ((total + rep.tb_size i : Nat) : Int) s') :
    Keeps W (handleEntry mem total i) s Q := by
  have hi14 : i < 14 := hi
  have hsize : int32 (rep.tb_size i) = rep.tb_size i := int32_of_lt (by omega)
  have htotal : int32 (uint32 ((total : Int) + (rep.tb_size i : Int))) =
      ((total + rep.tb_size i : Nat) : Int) := by
    rw [int32_uint32 (by omega) (by omega)]
    omega
  refine keeps_bind.2 (keeps_read.2 ⟨hread _ (by omega), ?_⟩)
  rw [hrep.channel i hi]
  iterate 6 refine keeps_bind.2 (keeps_read.2 ⟨hread _ (by omega), ?_⟩)
  rw [hrep.tb_size i hi, keeps_bind, keeps_get, keeps_bind, hsize]
  refine keeps_copyPdu hdata hfit hcopy ?_
  rw [keeps_bind, keeps_set, keeps_pure, htotal]
  refine hQ _ ?_ rfl
  rw [hrep.bytes i hi, hrep.creation_time i hi, hrep.segmented i hi, hrep.remaining_bytes i hi,
    hrep.pdus i hi]
  simp only [handleChannel, DuRx.put, fillSlot, Int.toNat_natCast, ne_eq, Int.natCast_eq_zero]

/-- The entries written in the first `n` turns. -/
def SpmrSrepDrep.entries (rep : SpmrSrepDrep) (n : Nat) : List (Table × Nat) :=
  (List.range n).map fun i => (rep.table i, i)

theorem offset_mono (rep : SpmrSrepDrep) {i n : Nat}
    (h : i < n) : offset rep i + rep.tb_size i ≤ offset rep n := by
  induction n with
  | zero => omega
  | succ n ih =>
    rcases Nat.lt_succ_iff_lt_or_eq.1 h with hlt | rfl
    · rw [offset]
      omega
    · exact le_rfl

theorem handleChannels_snd (buf : List Byte) (rep : SpmrSrepDrep) (du : Du) (n : Nat) :
    (handleChannels buf rep du n).2 = offset rep n := by
  induction n with
  | zero => rfl
  | succ n ih =>
    rw [handleChannels, offset, ← ih]
    rfl

theorem keeps_handleEntries (hrep : Carries mem rep) (hdata : Holds mem 404 data)
    (hread : ∀ off, off + 4 ≤ 404 → W (.read off 4)) (hlen : data.length < 2 ^ 31) {n : Nat}
    (hn : n ≤ NB_RB_MAX) (hfit : offset rep n ≤ data.length)
    (hcopy : ∀ i < n, rep.tb_size i ≠ 0 →
      W (.copy ((404 + offset rep i : Nat) : Int) (rep.tb_size i) ((rep.table i).room i))) :
    Keeps W (handleEntries mem n) s fun total s' => total = (offset rep n : Nat) ∧
      s'.du = (handleChannels data rep s.du n).1 ∧ s'.entries = s.entries ++ rep.entries n := by
  induction n with
  | zero => exact keeps_pure.2 ⟨rfl, rfl, by simp [SpmrSrepDrep.entries]⟩
  | succ n ih =>
    apply keeps_bind.2
    have hoff := offset_mono rep (Nat.lt_add_one n)
    refine (ih (by omega) (by omega) fun i hi => hcopy i (by omega)).mono ?_
    rintro total s' ⟨rfl, hdu, hentries⟩
    refine keeps_handleEntry hrep hdata hn (by omega) hlen hread (hcopy n (Nat.lt_succ_self n)) ?_
    intro s'' hstep hlast
    refine ⟨rfl, ?_, ?_⟩
    · have hbefore : handleChannels data rep s.du n = (s'.du, offset rep n) :=
        Prod.ext hdu.symm (handleChannels_snd data rep s.du n)
      rw [handleChannels, hbefore, ← hstep]
    · rw [hlast, hentries, SpmrSrepDrep.entries, SpmrSrepDrep.entries, range_succ, map_append,
        append_assoc]
      rfl

end Reply

/-! ## Replies of the CU -/

/-- The numbers of a status are those of its C types. -/
structure MacRlcStatusResp.Typed (r : MacRlcStatusResp) : Prop where
  bytes_in_buffer : Int32 r.bytes_in_buffer
  pdus_in_buffer : Int32 r.pdus_in_buffer
  head_sdu_creation_time : r.head_sdu_creation_time < 2 ^ 32
  head_sdu_remaining_size_to_send : Int32 r.head_sdu_remaining_size_to_send

def SpmrSrepDrep.status (rep : SpmrSrepDrep) (i : Nat) : MacRlcStatusResp where
  bytes_in_buffer := rep.bytes i
  pdus_in_buffer := rep.pdus i
  head_sdu_creation_time := rep.creation_time i
  head_sdu_remaining_size_to_send := rep.remaining_bytes i
  head_sdu_is_segmented := rep.segmented i

section Sent

variable {ε : Type} {rlc : RlcEntity ε} {req : SpmrSreqDreq} {coll : RlcColl ε}

variable {st : ReplyLoop ε}

theorem status_step {st' : ReplyLoop ε} {i : Nat} (h : replyChannel rlc req st i = some st')
    (j : Nat) : st'.srep_drep.status j = st'.ret j ↔ j = i ∨ st.srep_drep.status j = st.ret j := by
  unfold replyChannel at h
  split at h
  · cases h
  · cases h
    by_cases hj : j = i
    all_goals simp [hj, SpmrSrepDrep.status]

theorem status_loop {n : Nat} (h : replyChannels rlc req coll n = some st) {i : Nat} (hi : i < n) :
    st.srep_drep.status i = st.ret i := by
  induction n generalizing st with
  | zero => omega
  | succ n ih =>
    obtain ⟨u, hu, hstep⟩ := Option.bind_eq_some_iff.1 h
    rw [status_step hstep]
    rcases Nat.lt_succ_iff_lt_or_eq.1 hi with hlt | rfl
    · exact .inr (ih hu hlt)
    · exact .inl rfl

theorem typed_reply (h : macRlcStatusDataReqReply rlc req coll = some st)
    (htyped : ∀ i < NB_RB_MAX, (st.ret i).Typed) (hfit : st.cu_databuf_temp.length < 2 ^ 31) :
    st.srep_drep.Typed NB_RB_MAX := by
  have hpacked := (filled_loop h).packed
  have hstatus : ∀ i < NB_RB_MAX, (st.srep_drep.status i).Typed :=
    fun i hi => status_loop h hi ▸ htyped i hi
  refine ⟨fun i hi => ?_, fun i hi => ?_, fun i hi => (hstatus i hi).bytes_in_buffer,
    fun i hi => (hstatus i hi).pdus_in_buffer, fun i hi => (hstatus i hi).head_sdu_creation_time,
    fun i hi => (hstatus i hi).head_sdu_remaining_size_to_send⟩
  · rw [hpacked.channel i hi]
    have : i < 14 := hi
    omega
  · have hle := le_length_concat st.tmpbuf hi
    rw [← hpacked.data] at hle
    rw [hpacked.tb_size i hi]
    omega

/-- A slot with an entry of the reply: its five status fields and its PDU. -/
structure Slot.HasEntry (slot : Slot) (ret : MacRlcStatusResp) (pdu : List Byte) : Prop where
  srep_ready : slot.srep_ready = true
  srep_data : slot.srep_data = ret
  drep_size : slot.drep_size = pdu.length
  drep_data : slot.drep_data.take slot.drep_size = pdu

/-- The entry that the DU uses for a channel. -/
def channelEntry (i : Nat) : Table × Nat := (.of i, i)

theorem channelEntry_in {i : Nat} : (channelEntry i).2 < (channelEntry i).1.size ↔ i < maxDRB := by
  unfold channelEntry Table.of
  by_cases hsrb : i < 3
  · have hin : i < maxDRB := Nat.lt_trans hsrb (by decide)
    simpa [hsrb, Table.size] using hin
  · simp [hsrb, Table.size]

/-- A reply that fits the buffer of the DU, from the output buffer of the CU to the tables of
the DU. -/
theorem reply_unpacked (hst : macRlcStatusDataReqReply rlc req coll = some st)
    (htyped : ∀ i < NB_RB_MAX, (st.ret i).Typed)
    (hfit : sizeofSpHead + sizeofSrepDrep + st.cu_databuf_temp.length ≤ DU_BUF_SIZE)
    {cu_outbuf : List Byte} (hout : cu_outbuf.length = MAX_DLSCH_PAYLOAD_BYTES)
    (stale : Nat → Byte) (s : DuRx) :
    ∃ sent cu_outbuf' s' log,
      sendStatusDataRep st.srep_drep st.cu_databuf_temp cu_outbuf = some (sent, cu_outbuf') ∧
      duHandleStatusDataRep (received DU_BUF_SIZE sent stale) (min sent.length DU_BUF_SIZE) s =
        some ((), s', log) ∧
      (∀ i < maxDRB, (s'.du.slot i).HasEntry (st.ret i) (st.tmpbuf i)) ∧
      s'.entries = s.entries ++ (List.range NB_RB_MAX).map channelEntry := by
  have hpacked := (filled_loop hst).packed
  have hfit' : st.cu_databuf_temp.length ≤ 8192 - 404 := by
    unfold DU_BUF_SIZE sizeofSpHead sizeofSrepDrep at hfit
    omega
  have hroom : sizeofSpHead + sizeofSrepDrep + st.cu_databuf_temp.length ≤
      MAX_DLSCH_PAYLOAD_BYTES := by
    unfold MAX_DLSCH_PAYLOAD_BYTES sizeofSpHead sizeofSrepDrep
    omega
  obtain ⟨cu_outbuf', hsend, -⟩ := sendStatusDataRep_eq st.srep_drep hout hroom
  have hlen := st.srep_drep.length_datagram st.cu_databuf_temp
  have hmem : Holds (received DU_BUF_SIZE (st.srep_drep.datagram st.cu_databuf_temp) stale) 0
      (st.srep_drep.datagram st.cu_databuf_temp) := holds_received (hlen ▸ hfit) stale
  unfold SpmrSrepDrep.datagram at hmem
  rw [holds_append, holds_append] at hmem
  obtain ⟨⟨-, hrep⟩, hdata⟩ := hmem
  rw [length_append, SpmrSrepDrep.length_toWire, zero_add] at hdata
  have hcarries := carries_of_holds hrep (typed_reply hst htyped (by omega))
  have hoff : offset st.srep_drep NB_RB_MAX ≤ st.cu_databuf_temp.length := by
    rw [offset_eq hpacked le_rfl, hpacked.data]
  have hrun := keeps_handleEntries (W := fun _ => True) (s := s) hcarries hdata
    (fun _ _ => trivial) (by omega) le_rfl hoff (fun _ _ _ => trivial)
  obtain ⟨total, s', log, hrun, -, -, hdu, hentries⟩ := hrun
  refine ⟨_, _, s', log, hsend, ?_, fun i hi => ?_, ?_⟩
  · have hident : spGenericIdentify sizeofSpHead
        (min (st.srep_drep.datagram st.cu_databuf_temp).length DU_BUF_SIZE) =
          some sizeofSpHead := by
      rw [spGenericIdentify, if_neg]
      omega
    rw [duHandleStatusDataRep, hident]
    show ((handleEntries _ NB_RB_MAX) s).bind _ = _
    rw [SpmrSrepDrep.datagram, hrun]
    show some ((), s', log ++ []) = _
    rw [append_nil]
  · have hrb : i < NB_RB_MAX := Nat.lt_trans hi (by decide)
    rw [hdu]
    have hslot : (handleChannels st.cu_databuf_temp st.srep_drep s.du NB_RB_MAX).1.slot i = _ :=
      slot_handled hpacked s.du st.cu_databuf_temp hi
    rw [hslot]
    refine ⟨rfl, status_loop hst hrb, hpacked.tb_size i hrb, ?_⟩
    simp only [fillSlot, hpacked.tb_size i hrb]
    by_cases hzero : (st.tmpbuf i).length = 0
    · rw [hzero, take_zero, length_eq_zero_iff.1 hzero]
    · have hslice : slice (offset st.srep_drep i) (st.tmpbuf i).length st.cu_databuf_temp =
          st.tmpbuf i := by
        rw [offset_eq hpacked hrb.le, hpacked.data, slice_concat _ hrb]
      rw [if_pos hzero, hslice, take_overwrite]
  · have hown : st.srep_drep.entries NB_RB_MAX = (List.range NB_RB_MAX).map channelEntry := by
      apply map_congr_left
      intro i hi
      rw [SpmrSrepDrep.table, hpacked.channel i (mem_range.1 hi), channelEntry]
    rw [hentries, hown]

end Sent

/-- Every reply writes the entry of each of the 14 channels, of which the last three are
behind the tables. A reply that fits the buffer of the DU is otherwise unpacked as it was
made: each channel that has a slot has its own status and PDU there, if what is written
behind the tables spares the slots. -/
theorem a_reply_is_unpacked_as_it_was_made {ε : Type} (rlc : RlcEntity ε) (coll : RlcColl ε)
    (req : SpmrSreqDreq) (st : ReplyLoop ε) (hst : macRlcStatusDataReqReply rlc req coll = some st)
    (htyped : ∀ i < NB_RB_MAX, (st.ret i).Typed)
    (hfit : sizeofSpHead + sizeofSrepDrep + st.cu_databuf_temp.length ≤ DU_BUF_SIZE)
    (cu_outbuf : List Byte) (hout : cu_outbuf.length = MAX_DLSCH_PAYLOAD_BYTES)
    (stale : Nat → Byte) (s : DuRx) :
    ∃ sent cu_outbuf' s' log,
      sendStatusDataRep st.srep_drep st.cu_databuf_temp cu_outbuf = some (sent, cu_outbuf') ∧
      duHandleStatusDataRep (received DU_BUF_SIZE sent stale) (min sent.length DU_BUF_SIZE) s =
        some ((), s', log) ∧
      s'.entries = s.entries ++ (List.range NB_RB_MAX).map channelEntry ∧
      (∀ i, (channelEntry i).2 < (channelEntry i).1.size ↔ i < maxDRB) ∧
      ∀ behind : Du → Du, (∀ i < maxDRB, (behind s'.du).slot i = s'.du.slot i) →
        ∀ i < maxDRB, ((behind s'.du).slot i).HasEntry (st.ret i) (st.tmpbuf i) := by
  obtain ⟨sent, cu_outbuf', s', log, hsend, hrun, hslots, hentries⟩ :=
    reply_unpacked hst htyped hfit hout stale s
  refine ⟨sent, cu_outbuf', s', log, hsend, hrun, hentries, fun i => channelEntry_in, ?_⟩
  intro behind hspare i hi
  rw [hspare i hi]
  exact hslots i hi

def onePduRequest : SpmrSreqDreq := { rnti := 1, frame := 0, channel := 1, tb_size := 100 }

def clearOutbuf : List Byte := replicate MAX_DLSCH_PAYLOAD_BYTES 0

theorem length_clearOutbuf : clearOutbuf.length = MAX_DLSCH_PAYLOAD_BYTES := length_replicate

def clearMemory : Nat → Byte := fun _ => 0

def duStart : DuRx := { du := {} }

instance (z : Int) : Decidable (Int32 z) := inferInstanceAs (Decidable (-2 ^ 31 ≤ z ∧ z < 2 ^ 31))

instance (r : MacRlcStatusResp) : Decidable r.Typed :=
  decidable_of_iff (Int32 r.bytes_in_buffer ∧ Int32 r.pdus_in_buffer ∧
      r.head_sdu_creation_time < 2 ^ 32 ∧ Int32 r.head_sdu_remaining_size_to_send)
    ⟨fun ⟨h1, h2, h3, h4⟩ => ⟨h1, h2, h3, h4⟩, fun ⟨h1, h2, h3, h4⟩ => ⟨h1, h2, h3, h4⟩⟩

theorem onePdu_reply (c : Nat) (hc : c = 3 ∨ c = 11) :
    ∃ st, macRlcStatusDataReqReply queueRlc onePduRequest (oneBearer 1 c [[1, 2, 3]]) = some st ∧
      st.tmpbuf c = [1, 2, 3] ∧ (∀ i < NB_RB_MAX, (st.ret i).Typed) ∧
      sizeofSpHead + sizeofSrepDrep + st.cu_databuf_temp.length ≤ DU_BUF_SIZE := by
  have hcomputed : (macRlcStatusDataReqReply queueRlc onePduRequest (oneBearer 1 c [[1, 2, 3]])).any
      (fun st => decide (st.tmpbuf c = [1, 2, 3] ∧ (∀ i < NB_RB_MAX, (st.ret i).Typed) ∧
        sizeofSpHead + sizeofSrepDrep + st.cu_databuf_temp.length ≤ DU_BUF_SIZE)) := by
    rcases hc with rfl | rfl <;> decide +kernel
  obtain ⟨st, hst, h⟩ := (Option.any_eq_true _ _).1 hcomputed
  exact ⟨st, hst, of_decide_eq_true h⟩

/-- A PDU of DRB1 is in its slot. -/
theorem onePdu_unpacked :
    ∃ st, macRlcStatusDataReqReply queueRlc onePduRequest (oneBearer 1 3 [[1, 2, 3]]) = some st ∧
      ∃ sent cu_outbuf' s' log,
        sendStatusDataRep st.srep_drep st.cu_databuf_temp clearOutbuf = some (sent, cu_outbuf') ∧
        duHandleStatusDataRep (received DU_BUF_SIZE sent clearMemory) (min sent.length DU_BUF_SIZE)
          duStart = some ((), s', log) ∧
        (s'.du.slot 3).HasEntry (st.ret 3) [1, 2, 3] := by
  obtain ⟨st, hst, hpdu, htyped, hfit⟩ := onePdu_reply 3 (.inl rfl)
  obtain ⟨sent, cu_outbuf', s', log, hsend, hrun, -, -, hslots⟩ :=
    a_reply_is_unpacked_as_it_was_made queueRlc (oneBearer 1 3 [[1, 2, 3]]) onePduRequest st hst
      htyped hfit clearOutbuf length_clearOutbuf clearMemory duStart
  have hslot := hslots id (fun _ _ => rfl) 3 (by decide)
  rw [hpdu] at hslot
  exact ⟨st, hst, sent, cu_outbuf', s', log, hsend, hrun, hslot⟩

/-- With every reply the DU writes the entries 11 to 13 of tables that have 11 entries. For
DRB9 a PDU goes there. -/
theorem a_pdu_goes_past_the_tables :
    ∃ st, macRlcStatusDataReqReply queueRlc onePduRequest (oneBearer 1 11 [[1, 2, 3]]) = some st ∧
      st.tmpbuf 11 = [1, 2, 3] ∧
      ∃ sent cu_outbuf' s' log,
        sendStatusDataRep st.srep_drep st.cu_databuf_temp clearOutbuf = some (sent, cu_outbuf') ∧
        duHandleStatusDataRep (received DU_BUF_SIZE sent clearMemory) (min sent.length DU_BUF_SIZE)
          duStart = some ((), s', log) ∧
        (Table.drb, 11) ∈ s'.entries ∧ ¬ 11 < Table.drb.size := by
  obtain ⟨st, hst, hpdu, htyped, hfit⟩ := onePdu_reply 11 (.inr rfl)
  obtain ⟨sent, cu_outbuf', s', log, hsend, hrun, -, hentries⟩ :=
    reply_unpacked hst htyped hfit length_clearOutbuf clearMemory duStart
  refine ⟨st, hst, hpdu, sent, cu_outbuf', s', log, hsend, hrun, ?_, by decide⟩
  rw [hentries]
  decide

end MacRlcSplit.Split
