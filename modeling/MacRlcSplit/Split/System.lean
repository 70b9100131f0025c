-- The split as one system: the DU scheduler and its receive thread, the CU
-- and its RLC bearers, and the requests and replies in flight between them,
-- which arrive in any order or not at all.
import MacRlcSplit.Lib.Run
import MacRlcSplit.Split.Du

namespace MacRlcSplit.Split

open Lib List

/-! ## The state -/

/-- A reply in flight. The fields `exec`, `req` and `pdus` are history: the number of the
CU execution that built it, the request it answers and the PDUs that were packed. -/
structure Datagram where
  srep_drep : SpmrSrepDrep
  data : List Byte
  exec : Nat
  req : SpmrSreqDreq
  pdus : Nat → List Byte

/-- A PDU that the CU took from an RLC bearer in execution `exec`. -/
structure Taken where
  exec : Nat
  key : RlcKey
  pdu : List Byte
deriving DecidableEq, Repr

/-- What a call of the DU's `mac_rlc_data_req` gave. In `src` stands the CU execution that
the PDU is owed to: that of the last reply with data for the channel, if it was unread. -/
structure Returned where
  rnti : Rnti
  channel : Nat
  size : Nat
  pdu : List Byte
  src : Option Nat
deriving DecidableEq, Repr

/-- What happened at the DU. -/
inductive Obs where
  | statusInd (rnti : Rnti) (channel : Nat) (tb_size : Int) (resp : MacRlcStatusResp)
  | delivered (d : Datagram)
  | returned (r : Returned)

/-- The last delivered reply with data for the channel, when no data request was made on
the channel since. The log has the latest event first. -/
def unread (c : Nat) : List Obs → Option Datagram
  | [] => none
  | .statusInd .. :: log => unread c log
  | .delivered d :: log => if d.srep_drep.tb_size c ≠ 0 then some d else unread c log
  | .returned r :: log => if r.channel = c then none else unread c log

/-- The fields `execs`, `taken` and `log` are history. -/
structure Sys (ε : Type) where
  coll : RlcColl ε
  du : Du := {}
  reqs : List SpmrSreqDreq := []
  reps : List Datagram := []
  execs : Nat := 0
  taken : List Taken := []
  log : List Obs := []

/-! ## The steps -/

inductive Event (ε : Type) where
  /-- The DU scheduler calls `mac_rlc_status_ind`. -/
  | statusInd (rnti : Rnti) (frame : Nat) (channel : Nat) (tb_size : Int)
  /-- The DU scheduler calls `mac_rlc_data_req`. -/
  | dataReq (rnti : Rnti) (channel : Nat)
  /-- The CU answers the request number `k` of those in flight. -/
  | reply (k : Nat)
  /-- The DU handles the reply number `k` of those in flight; `stale` is what its receive
  buffer still holds behind the datagram, and `behind` what the writes past the end of the
  tables do to the slots, which the layout of the globals decides. -/
  | deliver (k : Nat) (stale : List Byte) (behind : Du → Du)
  | loseReq (k : Nat)
  | loseRep (k : Nat)
  /-- Anything else that happens to an RLC bearer of the CU. -/
  | rlc (key : RlcKey) (u : Option (RlcUnion ε))

variable {ε : Type}

/-- The tables of the DU with the entries of a reply. -/
def Sys.handled (s : Sys ε) (d : Datagram) (stale : List Byte) : Du :=
  macRlcHandleStatusDataRep s.du d.srep_drep (receive rxRoom d.data stale)

def step (rlc : RlcEntity ε) (s : Sys ε) : Event ε → Option (Sys ε)
  | .statusInd rnti frame channel tb_size =>
    (duMacRlcStatusInd s.du rnti frame channel tb_size).map fun (du, sent, resp) =>
      { s with
        du
        reqs := s.reqs ++ sent.toList
        log := .statusInd rnti channel tb_size resp :: s.log }
  | .dataReq rnti channel =>
    let src := (unread channel s.log).map Datagram.exec
    (duMacRlcDataReq s.du channel).map fun (du, size, pdu) =>
      { s with du, log := .returned { rnti, channel, size, pdu, src } :: s.log }
  | .reply k =>
    s.reqs[k]?.bind fun req =>
      (macRlcStatusDataReqReply rlc req s.coll).map fun st =>
        { s with
          coll := st.coll
          reqs := s.reqs.eraseIdx k
          reps := s.reps ++ [{ srep_drep := st.srep_drep, data := st.cu_databuf_temp
                               exec := s.execs, req, pdus := st.tmpbuf }]
          execs := s.execs + 1
          taken := s.taken ++ st.taken.map fun t => { exec := s.execs, key := t.1, pdu := t.2 } }
  | .deliver k stale behind =>
    s.reps[k]?.map fun d =>
      { s with
        du := behind (s.handled d stale)
        reps := s.reps.eraseIdx k
        log := .delivered d :: s.log }
  | .loseReq k => some { s with reqs := s.reqs.eraseIdx k }
  | .loseRep k => some { s with reps := s.reps.eraseIdx k }
  | .rlc key u => some { s with coll := Function.update s.coll key u }

/-- The system before the first event, with any RLC bearers at the CU. -/
def start (coll : RlcColl ε) : Sys ε := { coll }

/-! ## The replies in flight -/

/-- A reply as the CU builds it: it carries the RNTI of its request, its PDUs are packed,
and each was taken from the bearer of that RNTI and its channel. -/
structure Genuine (rlc : RlcEntity ε) (taken : List Taken) (d : Datagram) : Prop where
  rnti : d.srep_drep.rnti = d.req.rnti
  packed : Packed NB_RB_MAX d.srep_drep d.data d.pdus
  taken : ∀ c < NB_RB_MAX, d.pdus c ≠ [] →
    { exec := d.exec, key := rlcCollKey d.req.rnti c, pdu := d.pdus c } ∈ taken
  budget : KeepsGrant rlc → ∀ c, d.pdus c = [] ∨ ((d.pdus c).length : Int) ≤ d.req.tb_size

variable {rlc : RlcEntity ε} {d : Datagram} {s t : Sys ε} {c : Nat}

theorem Genuine.mono {t t' : List Taken} (h : Genuine rlc t d) (hsub : t ⊆ t') : Genuine rlc t' d :=
  { h with taken := fun c hc hne => hsub (h.taken c hc hne) }

theorem genuine_reply {req : SpmrSreqDreq} {coll : RlcColl ε} {st : ReplyLoop ε}
    (h : macRlcStatusDataReqReply rlc req coll = some st) (n : Nat) (t : List Taken) :
    Genuine rlc (t ++ st.taken.map fun t => { exec := n, key := t.1, pdu := t.2 })
      { srep_drep := st.srep_drep, data := st.cu_databuf_temp, exec := n, req,
        pdus := st.tmpbuf } := by
  have hf := filled_loop h
  refine ⟨hf.rnti (by decide), hf.packed, fun c hc hne => ?_, fun hk => (budget_loop hk h).2⟩
  exact mem_append_right _ (mem_map.2 ⟨_, hf.taken c hc hne, rfl⟩)

theorem step_statusInd {rnti : Rnti} {frame : Nat} {tb : Int}
    (h : step rlc s (.statusInd rnti frame c tb) = some t) :
    ∃ sent : Option SpmrSreqDreq, t = { s with
      du := (s.du.readStatus c).1
      reqs := s.reqs ++ sent.toList
      log := .statusInd rnti c tb (s.du.readStatus c).2 :: s.log } := by
  obtain ⟨res, hres, rfl⟩ := Option.map_eq_some_iff.1 h
  unfold duMacRlcStatusInd at hres
  split_ifs at hres <;> (cases hres; exact ⟨_, rfl⟩)

theorem step_dataReq {rnti : Rnti} (h : step rlc s (.dataReq rnti c) = some t) :
    t = { s with
      du := (s.du.readData c).1
      log := .returned
        { rnti, channel := c
          size := (s.du.readData c).2.1
          pdu := (s.du.readData c).2.2
          src := (unread c s.log).map Datagram.exec } :: s.log } := by
  obtain ⟨res, hres, rfl⟩ := Option.map_eq_some_iff.1 h
  unfold duMacRlcDataReq at hres
  split_ifs at hres
  cases hres
  rfl

theorem step_reply {k : Nat} (h : step rlc s (.reply k) = some t) :
    ∃ req st, s.reqs[k]? = some req ∧ macRlcStatusDataReqReply rlc req s.coll = some st ∧
      t = { s with
        coll := st.coll
        reqs := s.reqs.eraseIdx k
        reps := s.reps ++ [{ srep_drep := st.srep_drep, data := st.cu_databuf_temp
                             exec := s.execs, req, pdus := st.tmpbuf }]
        execs := s.execs + 1
        taken := s.taken ++
          st.taken.map fun t => { exec := s.execs, key := t.1, pdu := t.2 } } := by
  obtain ⟨req, hreq, h⟩ := Option.bind_eq_some_iff.1 h
  obtain ⟨st, hst, rfl⟩ := Option.map_eq_some_iff.1 h
  exact ⟨req, st, hreq, hst, rfl⟩

theorem step_deliver {k : Nat} {stale : List Byte} {behind : Du → Du}
    (h : step rlc s (.deliver k stale behind) = some t) :
    ∃ d ∈ s.reps, s.reps[k]? = some d ∧
      t = { s with
        du := behind (s.handled d stale)
        reps := s.reps.eraseIdx k
        log := .delivered d :: s.log } := by
  obtain ⟨d, hd, rfl⟩ := Option.map_eq_some_iff.1 h
  exact ⟨d, mem_of_getElem? hd, hd, rfl⟩

/-! ## The memory behind the tables -/

/-- The PDU side of a slot. -/
def Slot.drep (slot : Slot) : Bool × Nat × List Byte :=
  (slot.drep_ready, slot.drep_size, slot.drep_data)

/-- What a handled reply writes behind the tables leaves the flag, the size and the data of
every channel that has a slot as they are. -/
def Spares (s : Sys ε) : Event ε → Prop
  | .deliver k stale behind => ∀ d ∈ s.reps[k]?, ∀ c < maxDRB,
    ((behind (s.handled d stale)).slot c).drep = ((s.handled d stale).slot c).drep
  | _ => True

instance (s : Sys ε) (e : Event ε) : Decidable (Spares s e) := by
  cases e <;> unfold Spares <;> infer_instance

/-- What a genuine reply leaves in a slot. -/
theorem slot_delivered {taken : List Taken} (hg : Genuine rlc taken d) {k : Nat} {stale : List Byte}
    {behind : Du → Du} (hspare : Spares s (.deliver k stale behind)) (hd : s.reps[k]? = some d)
    (hc : c < maxDRB) :
    let slot := (behind (s.handled d stale)).slot c
    slot.drep_size = (d.pdus c).length ∧
      (slot.drep_ready ↔ d.pdus c ≠ [] ∨ (s.du.slot c).drep_ready) ∧
      (d.data.length ≤ rxRoom → d.pdus c ≠ [] → slot.drep_data.take slot.drep_size = d.pdus c) := by
  have hsame := hspare d hd c hc
  simp only [Slot.drep, Prod.mk.injEq] at hsame
  obtain ⟨hready, hsize, hdata⟩ := hsame
  dsimp only
  rw [hready, hsize, hdata]
  obtain ⟨hlen, hflag⟩ := handle_flags hg.packed s.du (receive rxRoom d.data stale) hc
  exact ⟨hlen, hflag, fun hfit hne => handle_data hg.packed s.du stale hfit hc hne⟩

/-! ## The slots and what was delivered to them -/

/-- What holds in every run: the replies in flight are genuine, a slot has its flag set
exactly while a delivered PDU is unread, and its size is that of the PDU or 0. -/
structure Base (rlc : RlcEntity ε) (s : Sys ε) : Prop where
  wire : ∀ d ∈ s.reps, Genuine rlc s.taken d
  owed : ∀ c < maxDRB, ∀ d, unread c s.log = some d → Genuine rlc s.taken d
  ready : ∀ c < maxDRB, (s.du.slot c).drep_ready = (unread c s.log).isSome
  size : ∀ c < maxDRB, ∀ d, unread c s.log = some d →
    (s.du.slot c).drep_size = 0 ∨ (s.du.slot c).drep_size = (d.pdus c).length

theorem base_start (rlc : RlcEntity ε) (coll : RlcColl ε) : Base rlc (start coll) := by
  refine ⟨?_, ?_, ?_, ?_⟩
  · simp [start]
  · simp [start, unread]
  · intro c _
    unfold Du.slot
    cases Table.of c <;> simp [start, unread, Du.entry, Vector.getElem?_replicate] <;> split <;> rfl
  · simp [start, unread]

theorem unread_delivered {taken : List Taken} (hg : Genuine rlc taken d) (hc : c < maxDRB)
    (log : List Obs) :
    unread c (.delivered d :: log) = if d.pdus c = [] then unread c log else some d := by
  simp only [unread, hg.packed.tb_size c (Nat.lt_trans hc (by decide))]
  by_cases he : d.pdus c = [] <;> simp [he]

theorem base_deliver (hb : Base rlc s) {k : Nat} {stale : List Byte} {behind : Du → Du}
    (hspare : Spares s (.deliver k stale behind)) (hk : s.reps[k]? = some d) :
    Base rlc { s with
      du := behind (s.handled d stale)
      reps := s.reps.eraseIdx k
      log := .delivered d :: s.log } := by
  have hg := hb.wire d (mem_of_getElem? hk)
  refine ⟨fun d' hd' => hb.wire d' ((eraseIdx_sublist _ k).subset hd'), ?_, ?_, ?_⟩
  · intro c hc d' hd'
    rw [unread_delivered hg hc] at hd'
    split_ifs at hd'
    · exact hb.owed c hc d' hd'
    · cases hd'
      exact hg
  · intro c hc
    have hready := (slot_delivered hg hspare hk hc).2.1
    rw [unread_delivered hg hc, Bool.eq_iff_iff, hready, hb.ready c hc]
    by_cases he : d.pdus c = [] <;> simp [he]
  · intro c hc d' hd'
    have hsize := (slot_delivered hg hspare hk hc).1
    rw [unread_delivered hg hc] at hd'
    split_ifs at hd' with he
    · exact .inl (by simpa [he] using hsize)
    · cases hd'
      exact .inr hsize

theorem base_dataReq (hb : Base rlc s) {r : Returned} (hr : r.channel = c) :
    Base rlc { s with du := (s.du.readData c).1, log := .returned r :: s.log } := by
  subst hr
  refine ⟨hb.wire, ?_, ?_, ?_⟩
  · intro c' hc' d hd
    simp only [unread] at hd
    split_ifs at hd
    exact hb.owed c' hc' d hd
  · intro c' hc'
    rw [readData_ready _ hc', hb.ready c' hc', unread]
    by_cases hcc : r.channel = c'
    · simp [hcc]
    · simp [hcc, Ne.symm hcc]
  · intro c' hc' d hd
    simp only [unread] at hd
    split_ifs at hd with hcc
    rw [readData_other _ (Ne.symm hcc)]
    exact hb.size c' hc' d hd

theorem base_step (rlc : RlcEntity ε) (s : Sys ε) (e : Event ε) (t : Sys ε) (hb : Base rlc s)
    (hspare : Spares s e) (h : step rlc s e = some t) : Base rlc t := by
  cases e with
  | statusInd rnti frame c tb =>
    obtain ⟨sent, rfl⟩ := step_statusInd h
    have hslot := readStatus_drep s.du c
    refine ⟨hb.wire, hb.owed, fun c' hc' => ?_, fun c' hc' d hd => ?_⟩
    · exact (hslot c').1.trans (hb.ready c' hc')
    · have := hb.size c' hc' d hd
      rwa [← (hslot c').2.1] at this
  | dataReq rnti c =>
    obtain rfl := step_dataReq h
    exact base_dataReq hb rfl
  | reply k =>
    obtain ⟨req, st, -, hst, rfl⟩ := step_reply h
    refine ⟨fun d hd => ?_, fun c hc d hd => ?_, hb.ready, hb.size⟩
    · rcases mem_append.1 hd with hd | hd
      · exact (hb.wire d hd).mono (subset_append_left _ _)
      · cases mem_singleton.1 hd
        exact genuine_reply hst s.execs s.taken
    · exact (hb.owed c hc d hd).mono (subset_append_left _ _)
  | deliver k stale behind =>
    obtain ⟨d, -, hk, rfl⟩ := step_deliver h
    exact base_deliver hb hspare hk
  | loseReq | rlc =>
    cases h
    exact ⟨hb.wire, hb.owed, hb.ready, hb.size⟩
  | loseRep k =>
    cases h
    exact ⟨fun d hd => hb.wire d ((eraseIdx_sublist _ k).subset hd), hb.owed, hb.ready, hb.size⟩

/-! ## The bytes in the slots -/

/-- A reply is handled only if it fits the receive buffer. -/
def Fits (s : Sys ε) : Event ε → Prop
  | .deliver k _ _ => ∀ d ∈ s.reps[k]?, d.data.length ≤ rxRoom
  | _ => True

instance (s : Sys ε) (e : Event ε) : Decidable (Fits s e) := by
  cases e <;> unfold Fits <;> infer_instance

/-- The slot of a channel holds the unread PDU, unless an empty entry came after it. -/
def Whole (s : Sys ε) : Prop := ∀ c < maxDRB, ∀ d, unread c s.log = some d →
      (s.du.slot c).drep_size = 0 ∨ (s.du.slot c).drep_data.take (s.du.slot c).drep_size = d.pdus c

theorem whole_start (coll : RlcColl ε) : Whole (start coll) := by
  simp [Whole, start, unread]

theorem whole_step {e : Event ε} (hb : Base rlc s) (hw : Whole s) (hfit : Fits s e)
    (hspare : Spares s e) (h : step rlc s e = some t) :
    Whole t := by
  intro c hc d hd
  cases e with
  | statusInd rnti frame c' tb =>
    obtain ⟨sent, rfl⟩ := step_statusInd h
    obtain ⟨-, hsize, hdata⟩ := readStatus_drep s.du c' c
    have := hw c hc d hd
    rwa [← hsize, ← hdata] at this
  | dataReq rnti c' =>
    obtain rfl := step_dataReq h
    simp only [unread] at hd
    split_ifs at hd with hcc
    have := hw c hc d hd
    rwa [← readData_other s.du (Ne.symm hcc)] at this
  | reply k =>
    obtain ⟨req, st, -, -, rfl⟩ := step_reply h
    exact hw c hc d hd
  | deliver k stale behind =>
    obtain ⟨d', hd', hk, rfl⟩ := step_deliver h
    have hg := hb.wire d' hd'
    obtain ⟨hsize, -, hdata⟩ := slot_delivered hg hspare hk hc
    rw [unread_delivered hg hc] at hd
    split_ifs at hd with he
    · left
      simpa [he] using hsize
    · cases hd
      exact .inr (hdata (hfit d hk) he)
  | loseReq | loseRep | rlc =>
    cases h
    exact hw c hc d hd

end MacRlcSplit.Split
