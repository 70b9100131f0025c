-- Whether each PDU a delivered reply carried is returned to the MAC exactly
-- once. A slot behaves as a mailbox as long as the scheduler reads it before
-- the next reply is handled; that reply may be empty for the channel.
import MacRlcSplit.Lib.Mailbox
import MacRlcSplit.Split.Isolation

namespace MacRlcSplit.Split

open Lib List

variable {ε : Type}

/-! ## The mailbox of a channel -/

/-- The PDUs of the channel in the delivered replies, oldest first, each with the CU
execution that dequeued it. -/
def deliveredPdus (c : Nat) : List Obs → List (Nat × List Byte)
  | [] => []
  | .delivered d :: log =>
    deliveredPdus c log ++ (if d.pdus c ≠ [] then [(d.exec, d.pdus c)] else [])
  | _ :: log => deliveredPdus c log

def returnedPdus (c : Nat) : List Obs → List (Nat × List Byte)
  | [] => []
  | .returned r :: log =>
    returnedPdus c log ++ (if r.channel = c ∧ r.pdu ≠
      [] then (r.src.map fun n => (n, r.pdu)).toList else [])
  | _ :: log => returnedPdus c log

/-- The channel as a mailbox between the CU and the MAC: the DU slot is where a PDU
waits. -/
def Sys.mailbox (s : Sys ε) (c : Nat) : Mailbox (Nat × List Byte) where
  sent := deliveredPdus c s.log
  got := returnedPdus c s.log
  waiting := (unread c s.log).map fun d =>
    (d.exec, (s.du.slot c).drep_data.take (s.du.slot c).drep_size)

/-- No reply is handled while a PDU delivered on the channel is unread. -/
def ReadFirst (c : Nat) (s : Sys ε) : Event ε → Prop
  | .deliver _ _ _ => unread c s.log = none
  | _ => True

instance (c : Nat) (s : Sys ε) (e : Event ε) : Decidable (ReadFirst c s e) := by
  rcases e with ⟨⟩ <;> dsimp only [ReadFirst] <;> infer_instance

/-- The slot holds the unread PDU, all of it. -/
def Kept (c : Nat) (s : Sys ε) : Prop := ∀ d, unread c s.log = some d →
    (s.du.slot c).drep_data.take (s.du.slot c).drep_size = d.pdus c ∧ d.pdus c ≠ []

/-! ## One step is one move of the mailbox -/

variable {s t : Sys ε} {c : Nat} {rlc : RlcEntity ε}

theorem mailbox_eq (hsent : deliveredPdus c t.log = deliveredPdus c s.log)
    (hgot : returnedPdus c t.log = returnedPdus c s.log) (hun : unread c t.log = unread c s.log)
    (hdata : (t.du.slot c).drep_data = (s.du.slot c).drep_data)
    (hsize : (t.du.slot c).drep_size = (s.du.slot c).drep_size) : t.mailbox c = s.mailbox c := by
  simp only [Sys.mailbox, hsent, hgot, hun, hdata, hsize]

theorem mailbox_deliver (hc : c < maxDRB) {d : Datagram} (hg : Genuine rlc s.taken d) {k : Nat}
    {stale : List Byte} {behind : Du → Du} (hk : s.reps[k]? = some d)
    (hspare : Spares s (.deliver k stale behind)) (hfit : d.data.length ≤ rxRoom)
    (hread : unread c s.log = none) :
    let t : Sys ε := { s with
      du := behind (s.handled d stale)
      reps := s.reps.eraseIdx k
      log := .delivered d :: s.log }
    (d.pdus c = [] ∧ t.mailbox c = s.mailbox c) ∨
      (d.pdus c ≠ [] ∧ t.mailbox c = (s.mailbox c).put (d.exec, d.pdus c)) := by
  have hun := unread_delivered hg hc s.log
  by_cases he : d.pdus c = []
  · left
    refine ⟨he, ?_⟩
    simp [Sys.mailbox, deliveredPdus, returnedPdus, hun, he, hread]
  · right
    refine ⟨he, ?_⟩
    have hdata := (slot_delivered hg hspare hk hc).2.2 hfit he
    simp [Sys.mailbox, Mailbox.put, deliveredPdus, returnedPdus, hun, he, hdata]

theorem mailbox_dataReq (hc : c < maxDRB) (hb : Base rlc s) (hk : Kept c s) {rnti : Rnti}
    (h : step rlc s (.dataReq rnti c) = some t) : t.mailbox c = (s.mailbox c).take := by
  have hready := hb.ready c hc
  obtain rfl := step_dataReq h
  rcases hun : unread c s.log with _ | d
  · simp [Sys.mailbox, Mailbox.take, deliveredPdus, returnedPdus, unread, hun]
  · have hyes : (s.du.slot c).drep_ready := by simpa [hun] using hready
    obtain ⟨hwhole, hne⟩ := hk d hun
    simp [Sys.mailbox, Mailbox.take, deliveredPdus, returnedPdus, unread, hun,
      readData_of_ready hc hyes, hwhole, hne]

theorem mailbox_dataReq_other {c' : Nat} (hcc : c ≠ c') {rnti : Rnti}
    (h : step rlc s (.dataReq rnti c') = some t) : t.mailbox c = s.mailbox c := by
  obtain rfl := step_dataReq h
  have hslot := readData_other s.du hcc
  refine mailbox_eq rfl ?_ ?_ (by rw [hslot]) (by rw [hslot])
  · simp [returnedPdus, Ne.symm hcc]
  · simp [unread, Ne.symm hcc]

/-- A step reads the mailbox, fills it when it is empty, or leaves it alone. -/
theorem mailbox_step {e : Event ε} (hc : c < maxDRB) (hb : Base rlc s) (hk : Kept c s)
    (hfit : Fits s e) (hspare : Spares s e) (hread : ReadFirst c s e) (h : step rlc s e = some t) :
    t.mailbox c = s.mailbox c ∨ t.mailbox c = (s.mailbox c).take ∨
      ((s.mailbox c).waiting = none ∧ ∃ a, t.mailbox c = (s.mailbox c).put a) := by
  cases e with
  | statusInd rnti frame c' tb =>
    obtain ⟨sent, rfl⟩ := step_statusInd h
    obtain ⟨-, hsize, hdata⟩ := readStatus_drep s.du c' c
    exact .inl (mailbox_eq rfl rfl rfl hdata hsize)
  | dataReq rnti c' =>
    by_cases hcc : c = c'
    · subst hcc
      exact .inr (Or.inl (mailbox_dataReq hc hb hk h))
    · exact .inl (mailbox_dataReq_other hcc h)
  | reply k =>
    obtain ⟨req, st, -, -, rfl⟩ := step_reply h
    exact .inl rfl
  | deliver k stale behind =>
    obtain ⟨d, hd, hdk, rfl⟩ := step_deliver h
    have hnone : unread c s.log = none := hread
    rcases mailbox_deliver hc (hb.wire d hd) hdk hspare (hfit d hdk) hnone with ⟨-, hm⟩ | ⟨-, hm⟩
    · exact .inl hm
    · refine Or.inr (Or.inr ⟨?_, _, hm⟩)
      simp [Sys.mailbox, hnone]
  | loseReq | loseRep | rlc =>
    cases h
    exact .inl rfl

theorem kept_step {e : Event ε} (hc : c < maxDRB) (hb : Base rlc s) (hk : Kept c s)
    (hfit : Fits s e) (hspare : Spares s e) (hread : ReadFirst c s e)
    (h : step rlc s e = some t) : Kept c t := by
  intro d hd
  cases e with
  | statusInd rnti frame c' tb =>
    obtain ⟨sent, rfl⟩ := step_statusInd h
    obtain ⟨-, hsize, hdata⟩ := readStatus_drep s.du c' c
    rw [hsize, hdata]
    exact hk d hd
  | dataReq rnti c' =>
    obtain rfl := step_dataReq h
    simp only [unread] at hd
    split_ifs at hd with hcc
    rw [readData_other s.du (Ne.symm hcc)]
    exact hk d hd
  | reply k =>
    obtain ⟨req, st, -, -, rfl⟩ := step_reply h
    exact hk d hd
  | deliver k stale behind =>
    obtain ⟨d', hd', hdk, rfl⟩ := step_deliver h
    have hg := hb.wire d' hd'
    rw [unread_delivered hg hc, (hread : unread c s.log = none)] at hd
    split_ifs at hd with he
    cases hd
    exact ⟨(slot_delivered hg hspare hdk hc).2.2 (hfit d hdk) he, he⟩
  | loseReq | loseRep | rlc =>
    cases h
    exact hk d hd

/-! ## No reply is handled twice -/

/-- The CU executions whose replies were delivered, oldest first. -/
def deliveredExecs : List Obs → List Nat
  | [] => []
  | .delivered d :: log => deliveredExecs log ++ [d.exec]
  | _ :: log => deliveredExecs log

theorem numbered_step (rlc : RlcEntity ε) (s : Sys ε) (e : Event ε) (t : Sys ε)
    (hn : Numbered (s.reps.map Datagram.exec) (deliveredExecs s.log) s.execs)
    (h : step rlc s e = some t) :
    Numbered (t.reps.map Datagram.exec) (deliveredExecs t.log) t.execs := by
  cases e with
  | statusInd rnti frame c tb =>
    obtain ⟨sent, rfl⟩ := step_statusInd h
    exact hn
  | dataReq rnti c =>
    obtain rfl := step_dataReq h
    exact hn
  | reply k =>
    obtain ⟨req, st, -, -, rfl⟩ := step_reply h
    rw [map_append]
    exact hn.send
  | deliver k stale behind =>
    obtain ⟨d, -, hk, rfl⟩ := step_deliver h
    rw [← eraseIdx_map]
    exact hn.arrive (by simp [hk])
  | loseReq | rlc =>
    cases h
    exact hn
  | loseRep k =>
    cases h
    rw [← eraseIdx_map]
    exact hn.lose k

theorem deliveredPdus_sublist (c : Nat) (log : List Obs) :
    ((deliveredPdus c log).map Prod.fst).Sublist (deliveredExecs log) := by
  induction log with
  | nil => exact List.Sublist.refl _
  | cons o log ih =>
    cases o with
    | delivered d =>
      simp only [deliveredPdus, deliveredExecs, map_append]
      refine ih.append ?_
      split_ifs <;> simp
    | statusInd | returned => exact ih

/-! ## Every run -/

/-- Two requests of UE 1 on channel 1 and the CU's two replies, which take what the bearer
has queued. -/
def askedTwice : List (Event (Int × List (List Byte))) :=
  [.statusInd 1 0 1 10, .reply 0, .statusInd 1 0 1 10, .reply 0]

/-- The returned PDUs and the unread one are some of the delivered ones, in their order. -/
def Drawn (c : Nat) (s : Sys ε) : Prop :=
  returnedPdus c s.log ++ ((unread c s.log).map fun d => (d.exec, d.pdus c)).toList <+ deliveredPdus
    c s.log

theorem drawn_step {e : Event ε} (hc : c < maxDRB) (hb : Base rlc s) (hw : Whole s) (hd : Drawn c s)
    (h : step rlc s e = some t) : Drawn c t := by
  have hold := (sublist_append_left _ _).trans hd
  unfold Drawn at hd ⊢
  cases e with
  | statusInd =>
    obtain ⟨sent, rfl⟩ := step_statusInd h
    exact hd
  | dataReq rnti c' =>
    obtain rfl := step_dataReq h
    simp only [returnedPdus, deliveredPdus, unread]
    by_cases hcc : c' = c
    · subst hcc
      by_cases hne : (s.du.readData c').2.2 = []
      · simpa [hne] using hold
      · obtain ⟨-, d, hun, hpdu⟩ := dataReq_pdu hb hw hne
        rw [hpdu] at hne ⊢
        simpa [hne, hun] using hd
    · simpa [hcc] using hd
  | reply k =>
    obtain ⟨req, st, -, -, rfl⟩ := step_reply h
    exact hd
  | deliver k stale behind =>
    obtain ⟨d, hmem, -, rfl⟩ := step_deliver h
    rw [unread_delivered (hb.wire d hmem) hc]
    simp only [returnedPdus, deliveredPdus]
    by_cases he : d.pdus c = []
    · simpa [he] using hd
    · simpa [he] using hold
  | loseReq | loseRep | rlc =>
    cases h
    exact hd

end MacRlcSplit.Split
