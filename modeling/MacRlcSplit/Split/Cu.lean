-- The CU side of the MAC/RLC split: the RLC bearers behind the monolithic
-- interface of `rlc_mac.c`, and the reply loop that asks each of the 14
-- channels for its status and, if the budget allows, for a PDU.
import MacRlcSplit.Lib.Buffers

namespace MacRlcSplit.Split

open Lib Function

abbrev Byte := UInt8
abbrev Rnti := Nat

/-- SRB0 to SRB2 and DRB1 to DRB11. -/
def NB_RB_MAX : Nat := 14

/-! ## Messages -/

/-- `spmr_sreq_dreq`. The size travels as 32 unsigned bits and is read back as the same
signed number. -/
structure SpmrSreqDreq where
  rnti : Rnti
  frame : Nat
  channel : Nat
  tb_size : Int
deriving DecidableEq, Repr

/-- `spmr_srep_drep`. An array of 14 entries is a function of the index. -/
structure SpmrSrepDrep where
  rnti : Rnti := 0
  frame : Nat := 0
  channel : Nat → Nat := fun _ => 0
  tb_size : Nat → Nat := fun _ => 0
  bytes : Nat → Int := fun _ => 0
  pdus : Nat → Int := fun _ => 0
  creation_time : Nat → Nat := fun _ => 0
  remaining_bytes : Nat → Int := fun _ => 0
  segmented : Nat → Bool := fun _ => false

/-! ## The RLC bearers -/

inductive RlcMode where
  | none
  | am
  | um
  | tm
deriving DecidableEq, Repr

/-- `struct mac_status_resp`, what an RLC entity answers to a status indication. -/
structure MacStatusResp where
  buffer_occupancy_in_bytes : Int := 0
  buffer_occupancy_in_pdus : Int := 0
  head_sdu_creation_time : Nat := 0
  head_sdu_remaining_size_to_send : Int := 0
  head_sdu_is_segmented : Bool := false
deriving DecidableEq, Repr

/-- `mac_rlc_status_resp_t`, what the MAC gets to see of it. -/
structure MacRlcStatusResp where
  bytes_in_buffer : Int := 0
  pdus_in_buffer : Int := 0
  head_sdu_creation_time : Nat := 0
  head_sdu_remaining_size_to_send : Int := 0
  head_sdu_is_segmented : Bool := false
deriving DecidableEq, Repr

/-- The two calls the MAC makes on an RLC entity: a status indication with a grant, and a
request for the transport blocks cut for it. -/
structure RlcEntity (ε : Type) where
  mac_status_indication : ε → Nat → Int → ε × MacStatusResp
  mac_data_request : ε → Nat → ε × List (List Byte)

structure RlcUnion (ε : Type) where
  mode : RlcMode
  rlc : ε

/-- The fields of `RLC_COLL_KEY_VALUE` that differ between the bearers of one eNB. -/
structure RlcKey where
  rnti : Rnti
  rb_id : Nat
  srb_flag : Bool
deriving DecidableEq, Repr

abbrev RlcColl (ε : Type) := RlcKey → Option (RlcUnion ε)

def rlcCollKey (rnti : Rnti) (channel : Nat) : RlcKey :=
  { rnti
    rb_id := if channel > 2 then channel - 2 else channel
    srb_flag := decide (channel ≤ 2) }

section Monolithic

variable {ε : Type} (rlc : RlcEntity ε)

/-- `mac_rlc_status_ind` of the monolithic build, which the CU runs too. Each mode fills
its own fields of the answer; a bearer that is not configured has nothing to send. -/
def macRlcStatusInd (coll : RlcColl ε) (rnti : Rnti) (frame : Nat) (channel : Nat)
    (tb_size : Int) : RlcColl ε × MacRlcStatusResp :=
  match coll (rlcCollKey rnti channel) with
  | none => (coll, {})
  | some u =>
    let (e, resp) := rlc.mac_status_indication u.rlc frame tb_size
    let coll' := update coll (rlcCollKey rnti channel) (some { u with rlc := e })
    match u.mode with
    | .none => (coll, {})
    | .am => (coll',
        { bytes_in_buffer := resp.buffer_occupancy_in_bytes
          head_sdu_creation_time := resp.head_sdu_creation_time
          head_sdu_remaining_size_to_send := resp.head_sdu_remaining_size_to_send
          head_sdu_is_segmented := resp.head_sdu_is_segmented })
    | .um => (coll',
        { bytes_in_buffer := resp.buffer_occupancy_in_bytes
          pdus_in_buffer := resp.buffer_occupancy_in_pdus
          head_sdu_creation_time := resp.head_sdu_creation_time
          head_sdu_remaining_size_to_send := resp.head_sdu_remaining_size_to_send
          head_sdu_is_segmented := resp.head_sdu_is_segmented })
    | .tm => (coll',
        { bytes_in_buffer := resp.buffer_occupancy_in_bytes
          pdus_in_buffer := resp.buffer_occupancy_in_pdus })

/-- `mac_rlc_serialize_tb`: the transport blocks, one after the other. -/
def macRlcSerializeTb (tbs : List (List Byte)) : List Byte := tbs.flatten

/-- `mac_rlc_data_req` of the monolithic build. It stops the process when the channel is
out of range or the bearer is not configured. -/
def macRlcDataReq (coll : RlcColl ε) (rnti : Rnti) (frame : Nat)
    (channel : Nat) : Option (RlcColl ε × List Byte) :=
  if channel < NB_RB_MAX then
    match coll (rlcCollKey rnti channel) with
    | none => none
    | some u =>
      match u.mode with
      | .none => some (coll, [])
      | _ =>
        let (e, data) := rlc.mac_data_request u.rlc frame
        some (update coll (rlcCollKey rnti channel) (some { u with rlc := e }),
          macRlcSerializeTb data)
  else none

end Monolithic

/-! ## The reply loop -/

/-- The locals of `mac_rlc_status_data_req_reply`. A buffer `tmpbuf[i]` holds the
`tmplen[i]` bytes that were written to it. The list `taken` is history only: what each
call of `mac_rlc_data_req` gave, with the bearer it was made on. -/
structure ReplyLoop (ε : Type) where
  coll : RlcColl ε
  tbs : Int
  ret : Nat → MacRlcStatusResp := fun _ => {}
  tmpbuf : Nat → List Byte := fun _ => []
  srep_drep : SpmrSrepDrep := {}
  cu_databuf_temp : List Byte := []
  taken : List (RlcKey × List Byte) := []

section Reply

variable {ε : Type} (rlc : RlcEntity ε) (sreq_dreq : SpmrSreqDreq)

/-- The status of channel `i` and, when the budget, the requesting channel and the status
allow it, a PDU of it. -/
def askChannel (st : ReplyLoop ε) (i : Nat) :
    Option (RlcColl ε × MacRlcStatusResp × List Byte × List (RlcKey × List Byte)) :=
  let (coll, ret) := macRlcStatusInd rlc st.coll sreq_dreq.rnti sreq_dreq.frame i st.tbs
  if st.tbs > 0 ∧ sreq_dreq.channel ≠ 0 ∧ ret.bytes_in_buffer > 0 then
    match macRlcDataReq rlc coll sreq_dreq.rnti sreq_dreq.frame i with
    | none => none
    | some (coll', pdu) => some (coll', ret, pdu, [(rlcCollKey sreq_dreq.rnti i, pdu)])
  else some (coll, ret, [], [])

/-- The 3 bytes charged for a PDU when a data channel asked. -/
def dtchHeaderLen (tmplen : Nat) : Int :=
  if sreq_dreq.channel > 2 ∧ tmplen > 0 then 3 else 0

/-- One turn of the loop: the answer of channel `i` goes into the reply, its PDU behind
the PDUs before it, and its cost is taken from the budget. -/
def replyChannel (st : ReplyLoop ε) (i : Nat) : Option (ReplyLoop ε) :=
  match askChannel rlc sreq_dreq st i with
  | none => none
  | some (coll, ret, pdu, taken) =>
    let rest := st.tbs - pdu.length - dtchHeaderLen sreq_dreq pdu.length
    some
      { coll
        tbs := if rest ≠ 0 then rest else 0
        ret := update st.ret i ret
        tmpbuf := update st.tmpbuf i pdu
        srep_drep :=
          { rnti := sreq_dreq.rnti
            frame := sreq_dreq.frame
            channel := update st.srep_drep.channel i i
            tb_size := update st.srep_drep.tb_size i pdu.length
            bytes := update st.srep_drep.bytes i ret.bytes_in_buffer
            pdus := update st.srep_drep.pdus i ret.pdus_in_buffer
            creation_time := update st.srep_drep.creation_time i ret.head_sdu_creation_time
            remaining_bytes :=
              update st.srep_drep.remaining_bytes i ret.head_sdu_remaining_size_to_send
            segmented := update st.srep_drep.segmented i ret.head_sdu_is_segmented }
        cu_databuf_temp := st.cu_databuf_temp ++ pdu
        taken := st.taken ++ taken }

def replyChannels (coll : RlcColl ε) : Nat → Option (ReplyLoop ε)
  | 0 => some { coll, tbs := sreq_dreq.tb_size }
  | n + 1 => (replyChannels coll n).bind fun st => replyChannel rlc sreq_dreq st n

/-- `mac_rlc_status_data_req_reply`: the locals at the end of the loop. The datagram is
`srep_drep` followed by `cu_databuf_temp`. -/
def macRlcStatusDataReqReply (coll : RlcColl ε) : Option (ReplyLoop ε) :=
  replyChannels rlc sreq_dreq coll NB_RB_MAX

end Reply

/-! ## What the reply holds -/

section Facts

variable {ε : Type} {rlc : RlcEntity ε} {req : SpmrSreqDreq} {coll : RlcColl ε}

variable {st : ReplyLoop ε} {i n : Nat}

theorem askChannel_taken {coll' : RlcColl ε} {ret : MacRlcStatusResp} {pdu : List Byte}
    {taken : List (RlcKey × List Byte)}
    (h : askChannel rlc req st i = some (coll', ret, pdu, taken)) (hp : pdu ≠ []) :
    (rlcCollKey req.rnti i, pdu) ∈ taken := by
  unfold askChannel at h
  simp only at h
  split_ifs at h
  · split at h
    · cases h
    · cases h
      exact List.mem_singleton_self _
  · cases h
    exact absurd rfl hp

theorem replyChannel_some {st' : ReplyLoop ε} (h : replyChannel rlc req st i = some st') :
    ∃ coll ret pdu taken, askChannel rlc req st i = some (coll, ret, pdu, taken) ∧
      st'.coll = coll ∧ st'.tbs = st.tbs - pdu.length - dtchHeaderLen req pdu.length ∧
      st'.tmpbuf = update st.tmpbuf i pdu ∧
      st'.srep_drep.rnti = req.rnti ∧
      st'.srep_drep.channel = update st.srep_drep.channel i i ∧
      st'.srep_drep.tb_size = update st.srep_drep.tb_size i pdu.length ∧
      st'.cu_databuf_temp = st.cu_databuf_temp ++ pdu ∧ st'.taken = st.taken ++ taken := by
  unfold replyChannel at h
  split at h
  · cases h
  · rename_i coll ret pdu taken hask
    cases h
    refine ⟨coll, ret, pdu, taken, hask, rfl, ?_, rfl, rfl, rfl, rfl, rfl, rfl⟩
    simp only [ite_not]
    split_ifs with h0 <;> simp [h0]

/-- A reply packs the PDUs of the first `n` channels: each channel names itself and has
the size of its PDU as `tb_size`, and the data area is the PDUs one after the other. -/
structure Packed (n : Nat) (rep : SpmrSrepDrep) (data : List Byte)
    (pdus : Nat → List Byte) : Prop where
  channel : ∀ i < n, rep.channel i = i
  tb_size : ∀ i < n, rep.tb_size i = (pdus i).length
  data : data = concat pdus n

/-- After `n` turns: the PDUs so far are packed, under the RNTI of the request, and every
PDU was taken from the bearer of its channel. -/
structure Filled (req : SpmrSreqDreq) (n : Nat) (st : ReplyLoop ε) : Prop where
  packed : Packed n st.srep_drep st.cu_databuf_temp st.tmpbuf
  rnti : 0 < n → st.srep_drep.rnti = req.rnti
  taken : ∀ i < n, st.tmpbuf i ≠ [] → (rlcCollKey req.rnti i, st.tmpbuf i) ∈ st.taken

theorem filled_step {st' : ReplyLoop ε} (hf : Filled req n st)
    (h : replyChannel rlc req st n = some st') : Filled req (n + 1) st' := by
  obtain ⟨_, _, pdu, _, hask, -, -, hbuf, hrnti, hch, htb, hdata, htaken⟩ := replyChannel_some h
  have old : ∀ i < n, st'.tmpbuf i = st.tmpbuf i := fun i hi => by
    rw [hbuf, update_of_ne (by omega)]
  have new : st'.tmpbuf n = pdu := by rw [hbuf, update_self]
  refine ⟨⟨fun i hi => ?_, fun i hi => ?_, ?_⟩, fun _ => hrnti, fun i hi => ?_⟩
  · rcases Nat.lt_succ_iff_lt_or_eq.1 hi with hlt | rfl
    · rw [hch, update_of_ne (by omega), hf.packed.channel i hlt]
    · rw [hch, update_self]
  · rcases Nat.lt_succ_iff_lt_or_eq.1 hi with hlt | rfl
    · rw [htb, update_of_ne (by omega), old i hlt, hf.packed.tb_size i hlt]
    · rw [htb, new, update_self]
  · rw [hdata, hf.packed.data, concat, new, concat_congr old]
  · rcases Nat.lt_succ_iff_lt_or_eq.1 hi with hlt | rfl
    · rw [old i hlt, htaken]
      exact fun hne => List.mem_append_left _ (hf.taken i hlt hne)
    · rw [new, htaken]
      exact fun hne => List.mem_append_right _ (askChannel_taken hask hne)

theorem filled_loop (h : replyChannels rlc req coll n = some st) : Filled req n st := by
  induction n generalizing st with
  | zero =>
    cases h
    exact ⟨⟨by omega, by omega, rfl⟩, by omega, by omega⟩
  | succ n ih =>
    obtain ⟨u, hu, hstep⟩ := Option.bind_eq_some_iff.1 h
    exact filled_step (ih hu) hstep

/-! ## The budget -/

/-- What the monolithic interface promises: a data request gives at most the grant of the
status indication before it. -/
def KeepsGrant (rlc : RlcEntity ε) : Prop := ∀ e frame (tbs : Int), 0 < tbs → ((macRlcSerializeTb
      (rlc.mac_data_request (rlc.mac_status_indication e frame tbs).1 frame).2).length : Int) ≤ tbs

theorem askChannel_le (hk : KeepsGrant rlc) {coll' : RlcColl ε} {ret : MacRlcStatusResp}
    {pdu : List Byte} {taken : List (RlcKey × List Byte)}
    (h : askChannel rlc req st i = some (coll', ret, pdu, taken)) :
    pdu = [] ∨ (pdu.length : Int) ≤ st.tbs := by
  unfold askChannel macRlcStatusInd macRlcDataReq at h
  rcases hc : st.coll (rlcCollKey req.rnti i) with _ | u
  · simp only [hc] at h
    split_ifs at h
    cases h
    exact .inl rfl
  · simp only [hc] at h
    rcases hm : u.mode <;> simp only [hm] at h
    · split_ifs at h with hgo
      · exact absurd hgo.2.2 (by decide)
      · cases h
        exact .inl rfl
    all_goals
      simp only [update_self] at h
      split_ifs at h with hgo
      · cases h
        exact .inr (hk u.rlc req.frame st.tbs hgo.1)
      · cases h
        exact .inl rfl

/-- The budget only shrinks, so no PDU of the reply is larger than the grant the request
asked with. -/
theorem budget_loop (hk : KeepsGrant rlc) (h : replyChannels rlc req coll n = some st) :
    st.tbs ≤ req.tb_size ∧
      ∀ i, st.tmpbuf i = [] ∨ ((st.tmpbuf i).length : Int) ≤ req.tb_size := by
  induction n generalizing st with
  | zero =>
    cases h
    exact ⟨Int.le_refl _, fun _ => Or.inl rfl⟩
  | succ n ih =>
    obtain ⟨u, hu, hstep⟩ := Option.bind_eq_some_iff.1 h
    obtain ⟨htbs, hbufs⟩ := ih hu
    obtain ⟨_, _, pdu, _, hask, -, htbs', hbuf, -⟩ := replyChannel_some hstep
    have hhead : 0 ≤ dtchHeaderLen req pdu.length := by
      unfold dtchHeaderLen
      split_ifs <;> omega
    refine ⟨by omega, fun i => ?_⟩
    by_cases hi : i = n
    · subst hi
      rw [hbuf, update_self]
      exact (askChannel_le hk hask).imp_right (by omega)
    · rw [hbuf, update_of_ne hi]
      exact hbufs i

end Facts

/-- A bearer of whole PDUs: it keeps the last grant, and a data request gives the first
PDU if the grant has room for it. -/
def queueRlc : RlcEntity (Int × List (List Byte)) where
  mac_status_indication := fun (_, queue) _ tbs =>
    ((tbs, queue), { buffer_occupancy_in_bytes := queue.flatten.length })
  mac_data_request := fun (grant, queue) _ =>
    match queue with
    | [] => ((grant, []), [])
    | pdu :: rest =>
      if (pdu.length : Int) ≤ grant then ((grant, rest), [pdu]) else ((grant, pdu :: rest), [])

theorem queueRlc_keepsGrant : KeepsGrant queueRlc := by
  rintro ⟨grant, queue⟩ frame tbs hpos
  rcases queue with _ | ⟨pdu, rest⟩
  · simpa [queueRlc, macRlcSerializeTb] using Int.le_of_lt hpos
  · simp only [queueRlc, macRlcSerializeTb]
    split_ifs with hroom
    · simpa using hroom
    · simpa using Int.le_of_lt hpos

def oneBearer (rnti : Rnti) (channel : Nat) (queue : List (List Byte)) :
    RlcColl (Int × List (List Byte)) :=
  fun key => if key = rlcCollKey rnti channel then some { mode := .am, rlc := (0, queue) } else none

end MacRlcSplit.Split
