-- System information and CCCH over the split: the CU's RRC buffers, the
-- reply to a data request of the MAC, and the three DU slots that keep the
-- last SIB1, SIB2/3 and SRB0 payload.
import MacRlcSplit.Lib.Run
import MacRlcSplit.Split.Cu

namespace MacRlcSplit.Split.Rrc

open Function List Option

/-! ## Messages and buffers -/

def RAB_OFFSET : Nat := 7
def CCCH : Nat := 0
def BCCH : Nat := 3
def MCCH : Nat := 4

/-- `spmr_rrc_dreq`. -/
structure SpmrRrcDreq where
  CC_id : Int
  frame : Nat
  srb_id : Nat
  num_tb : Nat
deriving DecidableEq, Repr

/-- A buffer whose size is kept in one octet, as the bytes it holds. -/
structure OctetBuffer where
  bytes : List Byte
  size_le : bytes.length ≤ 255
deriving DecidableEq, Repr

def OctetBuffer.empty : OctetBuffer := ⟨[], by decide⟩

/-- The RRC buffers of one carrier of the CU. The size of the SRB0 `Tx_buffer` is a signed
octet. -/
structure Carrier where
  SI_Active : Bool := false
  SIB1 : OctetBuffer := .empty
  SIB23 : OctetBuffer := .empty
  Srb0_Active : Bool := false
  Srb0_Tx_buffer : OctetBuffer := .empty
  MCCH_Active : Bool := false
  MCCH_MESSAGE : OctetBuffer := .empty
deriving DecidableEq, Repr

/-- The RRC buffer that a data request copied from. -/
inductive Source where
  | sib1
  | sib23
  | srb0
  | mcch
deriving DecidableEq, Repr

/-! ## The CU -/

/-- The size of a buffer in a `char`. -/
def OctetBuffer.int8 (b : OctetBuffer) : Int :=
  if b.bytes.length < 128 then b.bytes.length else b.bytes.length - 256

/-- `mac_rrc_data_req` at the CU: the value returned, the bytes copied and, as history, the
buffer they were copied from. `rlc_mac.c` has no prototype of the function and takes the value
as an `int`, so a size of up to 255 comes back as it is. A SIB1 that was never set up, with
size 255, stops the process. -/
def macRrcDataReq (c : Carrier) (frame : Nat) (srb_id : Nat) :
    Option (Carrier × Int × List Byte × Option Source) :=
  if srb_id &&& RAB_OFFSET = BCCH then
    if c.SI_Active = false then some (c, 0, [], none)
    else if c.SIB1.bytes.length = 255 then none
    else if frame % 2 = 0 then some (c, c.SIB1.bytes.length, c.SIB1.bytes, some .sib1)
    else if frame % 8 = 1 then some (c, c.SIB23.bytes.length, c.SIB23.bytes, some .sib23)
    else some (c, 0, [], none)
  else if srb_id &&& RAB_OFFSET = CCCH then
    if c.Srb0_Active = false then some (c, -1, [], none)
    else if c.Srb0_Tx_buffer.int8 > 0 then
      some ({ c with Srb0_Tx_buffer := .empty }, c.Srb0_Tx_buffer.bytes.length,
        c.Srb0_Tx_buffer.bytes, some .srb0)
    else some (c, 0, [], none)
  else if srb_id &&& RAB_OFFSET = MCCH then
    if c.MCCH_Active = false then some (c, 0, [], none)
    else some (c, c.MCCH_MESSAGE.bytes.length, c.MCCH_MESSAGE.bytes, some .mcch)
  else some (c, 0, [], none)

/-- An answer of the CU: the payload it handed out and the buffer it is from, if any. -/
structure Served where
  src : Option Source
  payload : List Byte
deriving DecidableEq, Repr

/-- `spmr_rrc_drep` with the SDU behind it, whose length is `head.len` less the fixed part.
The field `num` is history: how many requests the CU had answered before. -/
structure Datagram where
  CC_id : Int
  frame : Nat
  srb_id : Nat
  sdu : List Byte
  num : Nat
deriving DecidableEq, Repr

def CCCH_PAYLOAD_SIZE_MAX : Nat := 128

/-- `mac_rrc_data_req_reply`. The message is first copied to `tmpbuf`, whatever its size: one
that is larger is written over the stack. A negative length is copied as a huge one, which the
process does not survive. -/
def macRrcDataReqReply (c : Carrier) (dreq : SpmrRrcDreq) (num : Nat) :
    Option (Carrier × Datagram × Served) :=
  match macRrcDataReq c dreq.frame dreq.srb_id with
  | none => none
  | some (c', tmplen, tmpbuf, src) =>
    if tmpbuf.length > CCCH_PAYLOAD_SIZE_MAX ∨ tmplen < 0 then none
    else some (c',
      { CC_id := dreq.CC_id, frame := dreq.frame, srb_id := dreq.srb_id
        sdu := tmpbuf.take tmplen.toNat, num },
      { src, payload := tmpbuf })

/-! ## The DU -/

/-- The first `du_rrc_drep_size_*` bytes of `du_rrc_drep_data_*`, which are written
together under the lock. -/
structure DuRrc where
  SIB1 : List Byte := []
  SIB23 : List Byte := []
  SRB0 : List Byte := []
deriving DecidableEq, Repr

def macRrcHandleDataRep (du : DuRrc) (drep : Datagram) : DuRrc :=
  let du :=
    if drep.srb_id &&& RAB_OFFSET = BCCH then
      let du := if drep.frame % 2 = 0 then { du with SIB1 := drep.sdu } else du
      if drep.frame % 8 = 1 then { du with SIB23 := drep.sdu } else du
    else du
  if drep.srb_id &&& RAB_OFFSET = CCCH then { du with SRB0 := drep.sdu } else du

/-- `mac_rrc_data_req` at the DU: what it copies out. The request itself is sent first, in
every case. -/
def duMacRrcDataReq (du : DuRrc) (frame : Nat) (srb_id : Nat) : List Byte :=
  if srb_id &&& RAB_OFFSET = BCCH ∧ frame % 2 = 0 then du.SIB1
  else if srb_id &&& RAB_OFFSET = BCCH ∧ frame % 8 = 1 then du.SIB23
  else if srb_id &&& RAB_OFFSET = CCCH then du.SRB0
  else []

/-! ## The system -/

/-- A call of `mac_rrc_data_req` at the DU and what it returned. In `src` stands the number
of the last delivered CCCH reply. -/
structure Polled where
  frame : Nat
  srb_id : Nat
  sdu : List Byte
  src : Option Nat
deriving DecidableEq, Repr

inductive Obs where
  | polled (p : Polled)
  | delivered (d : Datagram)
deriving DecidableEq, Repr

/-- The last delivered CCCH reply. The log has the latest event first. -/
def lastCcch : List Obs → Option Datagram
  | [] => none
  | .delivered d :: log => if d.srb_id &&& RAB_OFFSET = CCCH then some d else lastCcch log
  | .polled _ :: log => lastCcch log

/-- The fields `served` and `log` are history; `served` has the answers of the CU, oldest
first. -/
structure Sys where
  carriers : Int → Carrier
  du : DuRrc := {}
  reqs : List SpmrRrcDreq := []
  reps : List Datagram := []
  served : List Served := []
  log : List Obs := []

inductive Event where
  /-- The DU's MAC calls `mac_rrc_data_req`. -/
  | poll (dreq : SpmrRrcDreq)
  /-- The CU answers the request number `k` of those in flight. -/
  | reply (k : Nat)
  /-- The DU handles the reply number `k` of those in flight. -/
  | deliver (k : Nat)
  | loseReq (k : Nat)
  | loseRep (k : Nat)
  | dupReq (k : Nat)
  | dupRep (k : Nat)
  /-- The CU's RRC writes its buffers. -/
  | rrc (CC_id : Int) (c : Carrier)

def step (s : Sys) : Event → Option Sys
  | .poll dreq =>
    some { s with
      reqs := s.reqs ++ [dreq]
      log := .polled
        { frame := dreq.frame, srb_id := dreq.srb_id
          sdu := duMacRrcDataReq s.du dreq.frame dreq.srb_id
          src := (lastCcch s.log).map Datagram.num } :: s.log }
  | .reply k =>
    s.reqs[k]?.bind fun dreq =>
      (macRrcDataReqReply (s.carriers dreq.CC_id) dreq s.served.length).map fun (c, rep, served) =>
          { s with
            carriers := update s.carriers dreq.CC_id c
            reqs := s.reqs.eraseIdx k
            reps := s.reps ++ [rep]
            served := s.served ++ [served] }
  | .deliver k =>
    s.reps[k]?.map fun d =>
      { s with
        du := macRrcHandleDataRep s.du d
        reps := s.reps.eraseIdx k
        log := .delivered d :: s.log }
  | .loseReq k => some { s with reqs := s.reqs.eraseIdx k }
  | .loseRep k => some { s with reps := s.reps.eraseIdx k }
  | .dupReq k => s.reqs[k]?.map fun dreq => { s with reqs := s.reqs ++ [dreq] }
  | .dupRep k => s.reps[k]?.map fun d => { s with reps := s.reps ++ [d] }
  | .rrc CC_id c => some { s with carriers := update s.carriers CC_id c }

def start (carriers : Int → Carrier) : Sys := { carriers }

/-! ## What a reply holds -/

/-- The requests that a buffer answers. -/
def Source.Answers (frame : Nat) (srb_id : Nat) : Source → Prop
  | .sib1 => srb_id &&& RAB_OFFSET = BCCH ∧ frame % 2 = 0
  | .sib23 => srb_id &&& RAB_OFFSET = BCCH ∧ frame % 8 = 1
  | .srb0 => srb_id &&& RAB_OFFSET = CCCH
  | .mcch => srb_id &&& RAB_OFFSET = MCCH

theorem OctetBuffer.ne_nil_of_int8 {b : OctetBuffer} (h : b.int8 > 0) : b.bytes ≠ [] := by
  intro he
  simp [OctetBuffer.int8, he] at h

variable {c c' : Carrier} {d : Datagram}

/-- The bytes returned are those of the buffer that the frame and the bearer ask for, and
nothing without one; an SRB0 message is never empty. -/
theorem macRrcDataReq_spec {frame : Nat} {srb_id : Nat} {tmplen : Int} {tmpbuf : List Byte}
    {src : Option Source} (h : macRrcDataReq c frame srb_id = some (c', tmplen, tmpbuf, src))
    (hpos : ¬ tmplen < 0) :
    tmplen = tmpbuf.length ∧ (src = none → tmpbuf = []) ∧
      (src = some .srb0 → tmpbuf ≠ []) ∧ ∀ x ∈ src, x.Answers frame srb_id := by
  have copied : ∀ (b : OctetBuffer) (x : Source), x.Answers frame srb_id →
      (x = .srb0 → b.bytes ≠ []) → (some x = none → b.bytes = []) ∧
        (some x = some .srb0 → b.bytes ≠ []) ∧ ∀ y ∈ some x, y.Answers frame srb_id := by
    intro b x hx hne
    refine ⟨by simp, by simpa using hne, ?_⟩
    intro y hy
    cases hy
    exact hx
  unfold macRrcDataReq at h
  split_ifs at h with hbcch hact h255 heven hodd hccch hact hsize hmcch hact <;> cases h
  all_goals first
    | exact ⟨rfl, fun _ => rfl, by simp, by simp⟩
    | exact ⟨rfl, copied c.SIB1 .sib1 ⟨hbcch, heven⟩ (by simp)⟩
    | exact ⟨rfl, copied c.SIB23 .sib23 ⟨hbcch, hodd⟩ (by simp)⟩
    | exact ⟨rfl, copied c.Srb0_Tx_buffer .srb0 hccch (fun _ => OctetBuffer.ne_nil_of_int8 hsize)⟩
    | exact ⟨rfl, copied c.MCCH_MESSAGE .mcch hmcch (by simp)⟩
    | exact absurd (by decide) hpos

/-- An answer of the CU fits the datagram that carries it. -/
structure Served.Fits (v : Served) (d : Datagram) : Prop where
  payload : v.payload = d.sdu
  none : v.src = none → d.sdu = []
  srb0 : v.src = some .srb0 → d.sdu ≠ []
  answers : ∀ x ∈ v.src, x.Answers d.frame d.srb_id

/-- A datagram as the CU builds it: its SDU is what was handed out under its number, from
a buffer that answers its frame and bearer, or empty. -/
def Genuine (served : List Served) (d : Datagram) : Prop := ∃ v, served[d.num]? = some v ∧ v.Fits d

theorem Genuine.mono {served more : List Served}
    (h : Genuine served d) : Genuine (served ++ more) d := by
  obtain ⟨v, hget, hfits⟩ := h
  refine ⟨v, ?_, hfits⟩
  rw [getElem?_append_left (List.getElem?_eq_some_iff.1 hget).1, hget]

theorem reply_fits {dreq : SpmrRrcDreq} {num : Nat} {v : Served}
    (h : macRrcDataReqReply c dreq num = some (c', d, v)) : d.num = num ∧ v.Fits d := by
  unfold macRrcDataReqReply at h
  split at h
  · cases h
  · rename_i c' tmplen tmpbuf src hreq
    split_ifs at h with hbad
    cases h
    obtain ⟨rfl, hnone, hsrb0, hsrc⟩ := macRrcDataReq_spec hreq fun hneg => hbad (.inr hneg)
    exact ⟨rfl, by simp, by simpa using hnone, by simpa using hsrb0, hsrc⟩

theorem genuine_reply {dreq : SpmrRrcDreq} {served : List Served} {v : Served}
    (h : macRrcDataReqReply c dreq served.length = some (c', d, v)) :
    Genuine (served ++ [v]) d := by
  obtain ⟨hnum, hfits⟩ := reply_fits h
  exact ⟨v, by simp [hnum], hfits⟩

theorem step_reply {s t : Sys} {k : Nat} (h : step s (.reply k) = some t) :
    ∃ dreq c d v, s.reqs[k]? = some dreq ∧
      macRrcDataReqReply (s.carriers dreq.CC_id) dreq s.served.length = some (c, d, v) ∧
      t = { s with
        carriers := update s.carriers dreq.CC_id c
        reqs := s.reqs.eraseIdx k
        reps := s.reps ++ [d]
        served := s.served ++ [v] } := by
  obtain ⟨dreq, hreq, h⟩ := bind_eq_some_iff.1 h
  obtain ⟨⟨c, d, v⟩, hrep, rfl⟩ := map_eq_some_iff.1 h
  exact ⟨dreq, c, d, v, hreq, hrep, rfl⟩

theorem step_deliver {s t : Sys} {k : Nat} (h : step s (.deliver k) = some t) :
    ∃ d ∈ s.reps, s.reps[k]? = some d ∧
      t = { s with
        du := macRrcHandleDataRep s.du d
        reps := s.reps.eraseIdx k
        log := .delivered d :: s.log } := by
  obtain ⟨d, hd, rfl⟩ := map_eq_some_iff.1 h
  exact ⟨d, mem_of_getElem? hd, hd, rfl⟩

/-- The replies in flight are genuine in every run. -/
def Wire (s : Sys) : Prop := ∀ d ∈ s.reps, Genuine s.served d

theorem wire_step (s : Sys) (e : Event) (t : Sys) (hw : Wire s)
    (h : step s e = some t) : Wire t := by
  intro d hd
  cases e with
  | poll | loseReq | rrc =>
    cases h
    exact hw d hd
  | reply k =>
    obtain ⟨dreq, c, d', v, -, hrep, rfl⟩ := step_reply h
    rcases mem_append.1 hd with hd | hd
    · exact (hw d hd).mono
    · cases mem_singleton.1 hd
      exact genuine_reply hrep
  | deliver k =>
    obtain ⟨d', -, -, rfl⟩ := step_deliver h
    exact hw d ((eraseIdx_sublist _ k).subset hd)
  | loseRep k =>
    cases h
    exact hw d ((eraseIdx_sublist _ k).subset hd)
  | dupReq k =>
    obtain ⟨dreq, -, rfl⟩ := map_eq_some_iff.1 h
    exact hw d hd
  | dupRep k =>
    obtain ⟨d', hd', rfl⟩ := map_eq_some_iff.1 h
    rcases mem_append.1 hd with hd | hd
    · exact hw d hd
    · cases mem_singleton.1 hd
      exact hw d (mem_of_getElem? hd')

end MacRlcSplit.Split.Rrc
