-- A UM sender and a UM receiver with a link between them that loses,
-- repeats and reorders PDUs: the receiver delivers SDUs of the sender, in
-- their order and each at most once.
import MacRlcSplit.Um.Stream

namespace MacRlcSplit.Um

open Lib Am List Option

/-! ## The link -/

/-- Two entities, and the history of one direction: `sdus` are the SDUs given to the sender, and
`sent` its PDUs, `top` of which are at or before the last one that has reached the receiver. -/
structure Link where
  sender : Entity
  receiver : Entity
  sdus : List (List Byte) := []
  sent : List (List Byte) := []
  top : Nat := 0

/-- Calls to the two entities, and the PDUs that arrive. A PDU that is never delivered is lost,
and one may be delivered again or after later ones. -/
inductive LinkEvent where
  | sender (e : Event)
  | receiver (e : Event)
  | deliver (ctxt : Ctxt) (i : Nat) (tail : Mem)

def Event.sdu : Event → List (List Byte)
  | .dataReq req => [req.data]
  | _ => []

def Event.pdu (tx : Tx) : Event → List (List Byte)
  | .macDataRequest junk => (rlcUmGetPdus tx junk).2.toList.map fun req =>
    req.data.read 0 req.tb_size
  | _ => []

def Event.isReceive : Event → Bool
  | .receive .. => true
  | _ => false

/-- The PDU as the MAC indicates it, in a block with other bytes after it. -/
def arrival (tail : Mem) (pdu : List Byte) : MacTbInd where
  data := tail.copy 0 pdu
  size := pdu.length

namespace Link

def start (cfg cfg' : Config) : Link where
  sender := rlcUmConfigure cfg
  receiver := rlcUmConfigure cfg'

def step (s : Link) : LinkEvent → Option Link
  | .sender e => (Um.step s.sender e).map fun t =>
    { s with sender := t, sdus := s.sdus ++ e.sdu, sent := s.sent ++ e.pdu s.sender.tx }
  | .receiver e =>
    -- PDUs reach the receiver from the sender only
    if e.isReceive then some s else (Um.step s.receiver e).map fun t => { s with receiver := t }
  | .deliver ctxt i tail =>
    match s.sent[i]? with
    | none => some s
    | some pdu => (rlcUmReceive s.receiver ctxt (arrival tail pdu)).map fun t =>
      { s with receiver := t, top := max s.top (i + 1) }

/-- No PDU is delayed by UM_Window_Size SNs or more. -/
def InTime (s : Link) : LinkEvent → Prop
  | .deliver _ i _ => s.top ≤ i + s.receiver.rx.windowSize
  | _ => True

instance (s : Link) (e : LinkEvent) : Decidable (s.InTime e) := by
  cases e <;> unfold InTime <;> infer_instance

/-- What the code needs beyond that: SDUs that the receiver has room for, PDUs whose LIs are read
back and that end with their payload, and no loss of half of the SNs in a row. -/
def Sound (s : Link) : LinkEvent → Prop
  | .sender (.dataReq req) => req.data.length ≤ s.receiver.rx.cfg.sduMaxSize
  | .sender (.macDataRequest _) => LisFit s.sender.tx ∧ Exact s.sender.tx
  | .deliver _ i _ => i < s.top + s.receiver.rx.half
  | _ => True

instance (s : Link) (e : LinkEvent) : Decidable (s.Sound e) := by
  unfold Sound
  split <;> infer_instance

end Link

/-! ## The stream between them -/

/-- The symbols that PDU number `k` carries. The numbers start at `m`. -/
def partAt (parts : List (List (Cell Byte))) (m k : Nat) : List (Cell Byte) :=
  if k < m then [] else parts.getD (k - m) []

/-- The symbols before PDU number `k`. -/
def streamAt (parts : List (List (Cell Byte))) (m k : Nat) : List (Cell Byte) :=
  (parts.take (k - m)).flatten

variable {n : SnLength} {parts : List (List (Cell Byte))} {m k top : Nat} {sdus : List (List Byte)}

theorem streamAt_succ (parts : List (List (Cell Byte))) (m k : Nat) :
    streamAt parts m (k + 1) = streamAt parts m k ++ partAt parts m k := by
  unfold streamAt partAt
  split
  · next hlt =>
    have h₀ : k + 1 - m = 0 := by omega
    have h₁ : k - m = 0 := by omega
    simp [h₀, h₁]
  · next hge =>
    have hsucc : k + 1 - m = k - m + 1 := by omega
    rw [hsucc, take_add_one, getD_eq_getElem?_getD]
    cases parts[k - m]? <;> simp

theorem streamAt_mono : streamAt parts m k <+: parts.flatten := by
  conv => rhs; rw [← take_append_drop (k - m) parts, flatten_append]
  exact prefix_append _ _

theorem streamAt_append (h : k ≤ parts.length + m) (part : List (Cell Byte)) :
    streamAt (parts ++ [part]) m k = streamAt parts m k := by
  unfold streamAt
  rw [take_append_of_le_length (by omega)]

theorem partAt_append (h : k < parts.length + m) (part : List (Cell Byte)) :
    partAt (parts ++ [part]) m k = partAt parts m k := by
  unfold partAt
  split
  · rfl
  · rw [getD_eq_getElem?_getD, getD_eq_getElem?_getD, getElem?_append_left (by omega)]

/-! ## The sending side -/

/-- PDU number `i` of the sender, wherever it is read. -/
structure PduOf (n : SnLength) (i : Nat) (pdu : List Byte) (part : List (Cell Byte)) : Prop where
  size : ∀ tail, (arrival tail pdu).size % 2 ^ 16 ≠ 0
  carries : ∀ tail, CarriesCells n (arrival tail pdu) part
  sn : ∀ tail, n.sn (arrival tail pdu).data = i % n.modulo

/-- The PDUs sent carry a front of the stream of the SDUs, and the queue has the rest. -/
structure Sending (n : SnLength) (tx : Tx) (sent sdus : List (List Byte))
    (parts : List (List (Cell Byte))) : Prop where
  tx_sn_length : tx.tx_sn_length = n
  ok : TxOk tx
  vt_us : tx.vt_us = sent.length % 2 ^ 16
  count : parts.length = sent.length
  stream : parts.flatten ++ queueCells tx.input_sdus = frames sdus
  pdus : ∀ i pdu part, sent[i]? = some pdu → parts[i]? = some part → PduOf n i pdu part

section Sending

variable {tx : Tx} {sent : List (List Byte)}

theorem Sending.front (snd : Sending n tx sent sdus parts) : parts.flatten <+: frames sdus := by
  rw [← snd.stream]
  exact prefix_append _ _

theorem Sending.dataReq (snd : Sending n tx sent sdus parts) (req : RlcUmDataReq) :
    Sending n (rlcUmDataReq tx req) sent (sdus ++ [req.data]) parts where
  tx_sn_length := snd.tx_sn_length
  ok :=
    { tail := by
        intro y hy
        simp only [rlcUmDataReq] at hy
        cases hq : tx.input_sdus with
        | nil => simp [hq] at hy
        | cons x l =>
          have htail := snd.ok.tail
          rw [hq] at hy htail
          rcases mem_append.1 hy with hold | hnew
          · exact htail y hold
          · rw [mem_singleton.1 hnew]
            rfl
      left := by
        simp [rlcUmDataReq, snd.ok.left, queueBytes, TxSdu.sdu_remaining_size]
      grant := snd.ok.grant }
  vt_us := snd.vt_us
  count := snd.count
  stream := by
    simp only [rlcUmDataReq, queueCells_append, frames, flatMap_append]
    rw [← append_assoc, snd.stream]
    simp [frames, queueCells, TxSdu.whole, TxSdu.rest]
  pdus := snd.pdus

theorem Sending.grant (snd : Sending n tx sent sdus parts) (size : Nat) :
    Sending n { tx with nb_bytes_requested_by_mac := size % 2 ^ 16 } sent sdus parts :=
  ⟨snd.tx_sn_length, ⟨snd.ok.tail, snd.ok.left, Nat.mod_lt _ (by decide)⟩, snd.vt_us, snd.count,
    snd.stream, snd.pdus⟩

theorem Sending.pdu {tx' : Tx} {req : TbReq} {part : List (Cell Byte)}
    (snd : Sending n tx sent sdus parts) (sends : Sends tx tx' req part) :
    Sending n tx' (sent ++ [req.data.read 0 req.tb_size]) sdus (parts ++ [part]) := by
  have hlen : (req.data.read 0 req.tb_size).length = req.tb_size := length_read _ _ _
  have hpos := sends.pos
  have hfits := sends.fits
  have this : PduOf n sent.length (req.data.read 0 req.tb_size) part := by
    have hread : ∀ tail a, a < req.tb_size →
        (arrival tail (req.data.read 0 req.tb_size)).data a = req.data a :=
          fun tail a ha => copy_read ha
    refine ⟨fun tail => ?_, fun tail => ?_, fun tail => ?_⟩
    · simp only [arrival, hlen]
      omega
    · rw [← snd.tx_sn_length]
      exact (sends.carries _ hlen (hread tail)).1
    · have hsn := (sends.carries _ hlen (hread tail)).2
      rw [snd.tx_sn_length, snd.vt_us] at hsn
      rw [hsn]
      cases n <;> simp only [SnLength.modulo] <;> omega
  exact {
    tx_sn_length := by rw [sends.tx_sn_length, snd.tx_sn_length]
    ok := sends.ok
    vt_us := by
      rw [sends.vt_us, snd.vt_us, length_append, length_singleton]
      omega
    count := by simp [snd.count]
    stream := by
      rw [← snd.stream, sends.leaves]
      simp
    pdus := by
      intro i pdu p hpdu hp
      rcases Nat.lt_trichotomy i sent.length with hlt | rfl | hgt
      · rw [getElem?_append_left hlt] at hpdu
        rw [getElem?_append_left (by rw [snd.count]; exact hlt)] at hp
        exact snd.pdus i pdu p hpdu hp
      · rw [getElem?_concat_length] at hpdu
        rw [← snd.count, getElem?_concat_length] at hp
        cases hpdu
        cases hp
        exact this
      · rw [getElem?_eq_none (by simp; omega)] at hpdu
        cases hpdu }

end Sending

/-! ## The receiving side -/

theorem Reads.append {cells : List (Cell Byte)} {o : Output} (reads : Reads sdus cells o)
    (more : List (List Byte)) : Reads (sdus ++ more) cells o := by
  have longer : ∀ n, sdus.take n <+: (sdus ++ more).take n := fun n => by
    rw [take_append]
    exact prefix_append _ _
  unfold Reads at reads ⊢
  split at reads
  · next hmissing =>
    obtain ⟨hempty, n, p, hpos, hdel⟩ := reads
    rw [if_pos hmissing]
    exact ⟨hempty, n, p, hpos.append more, hdel.trans (longer n).sublist⟩
  · next hmissing =>
    obtain ⟨n, hpos, hdel⟩ := reads
    rw [if_neg hmissing]
    exact ⟨n, hpos.append more, hdel.trans (longer n).sublist⟩

/-- The receiver has read the stream up to VR(UR), and the PDUs that it holds are the ones of
their numbers. -/
structure Receiving (n : SnLength) (rx : Rx) (top : Nat) (sdus : List (List Byte))
    (parts : List (List (Cell Byte))) : Prop where
  rx_sn_length : rx.cfg.rx_sn_length = n
  top_le : top ≤ parts.length
  front : parts.flatten <+: frames sdus
  sdus_ok : ∀ m ∈ sdus, m ≠ [] ∧ m.length ≤ rx.cfg.sduMaxSize
  numbers : ∃ ur buf, Numbered rx ur (top + n.modulo) buf ∧ Timed rx ur (top + n.modulo) ∧
    (∀ k tb, buf k = some tb → CarriesCells n tb (partAt parts n.modulo k)) ∧
    ReadsAt n sdus (streamAt parts n.modulo ur) rx.out ur

section Receiving

variable {rx rx' : Rx}

theorem Receiving.delivered (rcv : Receiving n rx top sdus parts) :
    rx.out.delivered.Sublist sdus := by
  obtain ⟨ur, buf, -, -, -, hreads⟩ := rcv.numbers
  obtain ⟨n, p, -, hdel⟩ := hreads.reads.position
  exact hdel.trans (take_sublist n sdus)

theorem Receiving.sdu (rcv : Receiving n rx top sdus parts) {sdu : List Byte} (hne : sdu ≠ [])
    (short : sdu.length ≤ rx.cfg.sduMaxSize) : Receiving n rx top (sdus ++ [sdu]) parts := by
  obtain ⟨hn, hle, hfront, hok, ur, buf, num, timed, hbuf, hreads⟩ := rcv
  refine ⟨hn, hle, hfront.trans ?_, ?_, ur, buf, num, timed, hbuf, hreads.reads.append _,
    hreads.follows⟩
  · rw [frames, frames, flatMap_append]
    exact prefix_append _ _
  · exact forall_mem_append.2 ⟨hok, forall_mem_singleton.2 ⟨hne, short⟩⟩

theorem Receiving.part (rcv : Receiving n rx top sdus parts) {part : List (Cell Byte)}
    (front : (parts ++ [part]).flatten <+: frames sdus) :
    Receiving n rx top sdus (parts ++ [part]) := by
  obtain ⟨hn, hle, -, hok, ur, buf, num, timed, hbuf, hreads⟩ := rcv
  have hur := num.high
  refine ⟨hn, by simp; omega, front, hok, ur, buf, num, timed, ?_, ?_⟩
  · intro k tb hk
    have hlt : k < top + n.modulo := by
      by_contra hge
      simp [num.empty k (Nat.le_of_not_lt hge)] at hk
    rw [partAt_append (by omega)]
    exact hbuf k tb hk
  · rw [streamAt_append (by omega)]
    exact hreads

theorem Receiving.moves {ur ur' top' : Nat} {buf : Nat → Option MacTbInd}
    (rcv : Receiving n rx top sdus parts) (hcfg : rx'.cfg = rx.cfg) (htop : top' ≤ parts.length)
    (num : Numbered rx' ur' (top' + n.modulo) buf) (timed : Timed rx' ur' (top' + n.modulo))
    (hbuf : ∀ k tb, buf k = some tb → CarriesCells n tb (partAt parts n.modulo k)) (hle : ur ≤ ur')
    (hreads : ReadsAt n sdus (streamAt parts n.modulo ur) rx.out ur)
    (hout : visitAll rx.cfg buf ur (ur' - ur) rx.out = some rx'.out) :
    Receiving n rx' top' sdus parts := by
  refine ⟨by rw [hcfg]; exact rcv.rx_sn_length, htop, rcv.front, by rw [hcfg]; exact rcv.sdus_ok,
    ur', buf, num, timed, hbuf, ?_⟩
  have hend : ur + (ur' - ur) = ur' := by omega
  have hn := rcv.rx_sn_length
  subst hn
  have hread := visitAll_reads (fun m hm => (rcv.sdus_ok m hm).1) (fun m hm => (rcv.sdus_ok m hm).2)
    (streamAt_succ parts rx.cfg.rx_sn_length.modulo) hreads (streamAt_mono.trans rcv.front)
    (fun k _ _ tb htb => hbuf k tb htb) hout
  rw [hend] at hread
  exact hread

theorem Receiving.checkTimer {ctxt : Ctxt} (rcv : Receiving n rx top sdus parts)
    (h : rlcUmCheckTimerDarTimeOut rx ctxt = some rx') : Receiving n rx' top sdus parts := by
  obtain ⟨ur, buf, num, timed, hbuf, hreads⟩ := rcv.numbers
  obtain ⟨ur', hcfg, num', timed', hle, hout, -⟩ := checkTimer_spec num timed h
  exact rcv.moves hcfg rcv.top_le num' timed' hbuf hle hreads hout

theorem Receiving.deliver {ctxt : Ctxt} {i : Nat} {pdu : List Byte} {tail : Mem}
    {part : List (Cell Byte)} (rcv : Receiving n rx top sdus parts) (hpart : parts[i]? = some part)
    (hpdu : PduOf n i pdu part) (hlow : top ≤ i + rx.windowSize) (hhigh : i < top + rx.half)
    (h : rlcUmReceiveProcessDar rx ctxt (arrival tail pdu) = some rx') :
    Receiving n rx' (max top (i + 1)) sdus parts := by
  obtain ⟨ur, buf, num, timed, hbuf, hreads⟩ := rcv.numbers
  have hn := rcv.rx_sn_length
  have htop := rcv.top_le
  have hi : i < parts.length := (List.getElem?_eq_some_iff.1 hpart).1
  have hmod : rx.modulo = n.modulo := by rw [← hn]; rfl
  have hsn : rx.cfg.rx_sn_length.sn (arrival tail pdu).data = (i + n.modulo) % rx.modulo := by
    rw [hn, hmod, Nat.add_mod_right]
    exact hpdu.sn tail
  rcases processDar_spec num timed ⟨by omega, by omega⟩ hsn h with ⟨rfl, hold⟩ | ⟨hnew, ur', stored⟩
  · rw [Nat.max_eq_left (by omega)]
    exact rcv
  have hmax : max (top + n.modulo) (i + n.modulo + 1) = max top (i + 1) + n.modulo := by omega
  obtain ⟨hcfg, num', timed', hle, hout, -⟩ := stored
  rw [hmax] at num' timed'
  refine rcv.moves hcfg (by omega) num' timed' ?_ hle hreads hout
  intro k tb hk
  by_cases hki : k = i + n.modulo
  · subst hki
    rw [Function.update_self] at hk
    cases hk
    have hthis : partAt parts n.modulo (i + n.modulo) = part := by
      simp [partAt, hpart]
    rw [hthis]
    exact hpdu.carries tail
  · rw [Function.update_of_ne hki] at hk
    exact hbuf k tb hk

end Receiving

/-! ## Runs -/

/-- Both sides agree on the stream. -/
def Linked (s : Link) : Prop :=
  ∃ n parts, Sending n s.sender.tx s.sent s.sdus parts ∧
  Receiving n s.receiver.rx s.top s.sdus parts

theorem linked_start {cfg cfg' : Config} (same : cfg'.rx_sn_length = cfg.tx_sn_length) :
    Linked (Link.start cfg cfg') := by
  refine ⟨cfg.tx_sn_length, [], ?_, ?_⟩
  · exact ⟨rfl, ⟨by simp [Link.start, rlcUmConfigure], rfl, Nat.two_pow_pos 16⟩, rfl, rfl,
      rfl, by simp⟩
  have num := numbered_configure cfg'
  have timed := timed_configure cfg'
  rw [same] at num timed
  refine ⟨same, Nat.le_refl 0, nil_prefix, by simp [Link.start], cfg.tx_sn_length.modulo,
    fun _ => none, ?_, ?_, by simp, ?_, fun _ => ?_⟩
  · simpa [Link.start] using num
  · simpa [Link.start] using timed
  · simp only [Reads, Link.start, rlcUmConfigure, Bool.false_eq_true, if_false]
    refine ⟨0, ⟨?_, Nat.le_refl 0, .inl rfl⟩, nil_sublist _⟩
    simp [streamAt, frames, mark]
  · simp only [Link.start, rlcUmConfigure, same]
    cases cfg.tx_sn_length <;> rfl

variable {t : Entity} {e : Event} {s : Link}

theorem step_rx {s : Entity} (own : e.isReceive = false) (h : step s e = some t) :
    t.rx = s.rx ∨ ∃ ctxt, rlcUmCheckTimerDarTimeOut s.rx ctxt = some t.rx := by
  cases e with
  | dataReq | macDataRequest =>
    cases h
    exact .inl rfl
  | macStatusIndication ctxt tbs_size =>
    obtain ⟨u, hu, rfl⟩ := map_eq_some_iff.1 h
    obtain ⟨rx', hrx, rfl⟩ := map_eq_some_iff.1 hu
    exact .inr ⟨ctxt, hrx⟩
  | checkTimer ctxt =>
    obtain ⟨rx', hrx, rfl⟩ := map_eq_some_iff.1 h
    exact .inr ⟨ctxt, hrx⟩
  | receive ctxt tb => cases own

theorem linked_receiver (linked : Linked s) (own : e.isReceive = false)
    (h : step s.receiver e = some t) : Linked { s with receiver := t } := by
  obtain ⟨n, parts, snd, rcv⟩ := linked
  refine ⟨n, parts, snd, ?_⟩
  rcases step_rx own h with hsame | ⟨ctxt, htimer⟩
  · rw [hsame]
    exact rcv
  · exact rcv.checkTimer htimer

theorem linked_sender (linked : Linked s) (sound : s.Sound (.sender e))
    (h : step s.sender e = some t) :
    Linked { s with sender := t, sdus := s.sdus ++ e.sdu, sent :=
      s.sent ++ e.pdu s.sender.tx } := by
  obtain ⟨n, parts, snd, rcv⟩ := linked
  cases e with
  | dataReq req =>
    cases h
    refine ⟨n, parts, ?_, rcv.sdu (ne_nil_of_length_pos req.pos) sound⟩
    simpa [Event.pdu, Event.sdu] using snd.dataReq req
  | macDataRequest junk =>
    cases h
    simp only [Event.sdu, Event.pdu, append_nil]
    cases hpdu : (rlcUmGetPdus s.sender.tx junk).2 with
    | none =>
      have hsame := getPdus_none (Prod.ext rfl hpdu : rlcUmGetPdus s.sender.tx junk = (_, none))
      refine ⟨n, parts, ?_, rcv⟩
      simpa [hsame] using snd
    | some req =>
      obtain ⟨part, sends⟩ := getPdus_sends snd.ok sound.1 sound.2
        (Prod.ext rfl hpdu : rlcUmGetPdus s.sender.tx junk = (_, some req))
      have snd' := snd.pdu sends
      exact ⟨n, parts ++ [part], snd', rcv.part snd'.front⟩
  | macStatusIndication ctxt tbs_size =>
    obtain ⟨u, hu, rfl⟩ := map_eq_some_iff.1 h
    obtain ⟨rx', hrx, rfl⟩ := map_eq_some_iff.1 hu
    simp only [Event.sdu, Event.pdu, append_nil]
    exact ⟨n, parts, snd.grant tbs_size, rcv⟩
  | checkTimer ctxt =>
    obtain ⟨rx', hrx, rfl⟩ := map_eq_some_iff.1 h
    simp only [Event.sdu, Event.pdu, append_nil]
    exact ⟨n, parts, snd, rcv⟩
  | receive ctxt tb =>
    simp only [Event.sdu, Event.pdu, append_nil]
    have htx : t.tx = s.sender.tx := by
      simp only [step, rlcUmReceive] at h
      split at h
      · cases h
        rfl
      · obtain ⟨rx', hrx, rfl⟩ := map_eq_some_iff.1 h
        rfl
    refine ⟨n, parts, ?_, rcv⟩
    rw [htx]
    exact snd

theorem linked_deliver {ctxt : Ctxt} {i : Nat} {tail : Mem} {pdu : List Byte} (linked : Linked s)
    (hpdu : s.sent[i]? = some pdu) (hlow : s.InTime (.deliver ctxt i tail))
    (hhigh : s.Sound (.deliver ctxt i tail))
    (h : rlcUmReceive s.receiver ctxt (arrival tail pdu) = some t) :
    Linked { s with receiver := t, top := max s.top (i + 1) } := by
  obtain ⟨n, parts, snd, rcv⟩ := linked
  have hi : i < parts.length := by
    rw [snd.count]
    exact (List.getElem?_eq_some_iff.1 hpdu).1
  have hpart : parts[i]? = some parts[i] := getElem?_eq_getElem hi
  have pduOf := snd.pdus i pdu _ hpdu hpart
  unfold rlcUmReceive at h
  rw [if_neg (pduOf.size tail)] at h
  obtain ⟨rx', hdar, rfl⟩ := map_eq_some_iff.1 h
  exact ⟨n, parts, snd, rcv.deliver hpart pduOf hlow hhigh hdar⟩

/-- Both sides still agree on the stream after an event in time. -/
theorem linked_step {t : Link} {e : LinkEvent} (linked : Linked s) (inTime : s.InTime e)
    (sound : s.Sound e) (h : s.step e = some t) : Linked t := by
  cases e with
  | sender e =>
    obtain ⟨u, hu, rfl⟩ := map_eq_some_iff.1 h
    exact linked_sender linked sound hu
  | receiver e =>
    cases hair : e.isReceive with
    | true =>
      simp only [Link.step, hair, if_true, some.injEq] at h
      rw [← h]
      exact linked
    | false =>
      simp only [Link.step, hair, Bool.false_eq_true, if_false] at h
      obtain ⟨u, hu, rfl⟩ := map_eq_some_iff.1 h
      exact linked_receiver linked hair hu
  | deliver ctxt i tail =>
    cases hpdu : s.sent[i]? with
    | none =>
      simp only [Link.step, hpdu, some.injEq] at h
      rw [← h]
      exact linked
    | some pdu =>
      simp only [Link.step, hpdu] at h
      obtain ⟨u, hu, rfl⟩ := map_eq_some_iff.1 h
      exact linked_deliver linked hpdu inTime sound hu

/-- Whatever the link does to PDUs that are in time, the SDUs delivered are SDUs of the sender, in
order and each at most once, as long as every step is sound. -/
theorem um_delivers_only_sent_sdus {cfg cfg' : Config} {es : List LinkEvent} {s : Link}
    (same : cfg'.rx_sn_length = cfg.tx_sn_length)
    (meets : Meets Link.step (fun s e => s.InTime e ∧ s.Sound e) (Link.start cfg cfg') es)
    (h : run Link.step (Link.start cfg cfg') es = some s) :
    s.receiver.rx.out.delivered.Sublist s.sdus := by
  have linked : Linked s := run_invariant
    (fun s e t linked hc hs => linked_step linked hc.1 hc.2 hs) (linked_start same) meets h
  obtain ⟨n, parts, -, rcv⟩ := linked
  exact rcv.delivered

def shortSdu (b : Byte) (n : Nat) (h : n < 2 ^ 16 - 1) : LinkEvent :=
  .sender (.dataReq ⟨replicate (n + 1) b, by simp, by simp; omega⟩)

def nextPdu (size : Nat) : List LinkEvent :=
  [.sender (.macStatusIndication ⟨1, 0⟩ size), .sender (.macDataRequest fun _ => 0xAA)]

def arrives (frame i : Nat) : LinkEvent := .deliver ⟨frame, 0⟩ i fun _ => 0x55

/-- Three SDUs in two PDUs that change places, then one SDU that is lost and one that is not. -/
def lossyRun : List LinkEvent :=
  [shortSdu 1 2 (by decide), shortSdu 2 1 (by decide), shortSdu 3 0 (by decide)] ++ nextPdu 8 ++
    nextPdu 10 ++ [arrives 1 1, arrives 1 0, arrives 1 1, shortSdu 4 0 (by decide)] ++ nextPdu 10 ++
    [shortSdu 5 0 (by decide)] ++ nextPdu 10 ++ [arrives 1 3, .receiver (.checkTimer ⟨3, 0⟩)]

theorem um_delivers_after_a_loss :
    ∃ s, run Link.step (Link.start ⟨5, .ten, .ten, false, true⟩ ⟨5, .ten, .ten, false, true⟩)
      lossyRun = some s ∧
      s.receiver.rx.out.delivered = [[1, 1, 1], [2, 2], [3], [5]] ∧
      s.receiver.rx.out.delivered.Sublist s.sdus := by
  have meets : Meets Link.step (fun s e => s.InTime e ∧ s.Sound e)
      (Link.start ⟨5, .ten, .ten, false, true⟩ ⟨5, .ten, .ten, false, true⟩) lossyRun := by
    decide +kernel
  obtain ⟨s, hs, hdel⟩ : ∃ s,
      run Link.step (Link.start ⟨5, .ten, .ten, false, true⟩ ⟨5, .ten, .ten, false, true⟩)
      lossyRun = some s ∧ s.receiver.rx.out.delivered = [[1, 1, 1], [2, 2], [3], [5]] := run_decided
      (by decide +kernel)
  exact ⟨s, hs, hdel, um_delivers_only_sent_sdus rfl meets hs⟩

/-- With a 10-bit SN, a PDU that has room for an LI but not for the SDU after it keeps that room,
and the SDU it ends with is delivered with what was in the block. -/
theorem um_delivers_stale_bytes :
    ∃ s, run Link.step (Link.start ⟨5, .ten, .ten, false, true⟩ ⟨5, .ten, .ten, false, true⟩)
        ([shortSdu 1 2 (by decide), shortSdu 2 0 (by decide)] ++ nextPdu 7 ++ [arrives 1 0]) =
          some s ∧
      s.receiver.rx.out.delivered = [[1, 1, 1, 0xAA, 0xAA]] ∧ s.sdus = [[1, 1, 1], [2]] := by
  exact run_decided (by decide +kernel)

end MacRlcSplit.Um
