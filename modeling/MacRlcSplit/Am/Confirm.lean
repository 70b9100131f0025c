-- Confirmations to the upper layer. The calls of `rlc_data_conf` pass
-- `is_data_plane` where the status is read, so that a signalling bearer never
-- gets a YES and a data bearer gets nothing else, also for an SDU that is given
-- up. In a run where none is and no slot is reused too early, every
-- confirmation is sound.
import MacRlcSplit.Am.Slots

namespace MacRlcSplit.Am

open Lib List Function

/-! ## What a sound history is -/

/-- A history, latest first, in which every confirmation is sound: a YES comes once, after
the acknowledgement of every PDU that carried a byte of the SDU, and none of its bytes is sent
later; no SDU gets both a YES and a NO. -/
def Sound : List TxRecord → Prop
  | [] => True
  | .carried _ n :: l => (∀ a, .conf n a ∈ l → a.status = .no) ∧ Sound l
  | .acked _ :: l => Sound l
  | .conf n a :: l =>
    (a.status = .yes → (∀ p, .carried p n ∈ l → .acked p ∈ l) ∧ ∀ a', .conf n a' ∉ l) ∧
      (∀ a', .conf n a' ∈ l → a'.status = .no) ∧ Sound l

def TxRecord.sdu : TxRecord → Option Nat
  | .carried _ n => some n
  | .acked _ => none
  | .conf n _ => some n

/-- No confirmation of the SDU is in the history. -/
def Unconfirmed (log : List TxRecord) (n : Nat) : Prop := ∀ a, .conf n a ∉ log

def TxSdu.free (x : TxSdu) : Prop := x.nb_pdus = 0 ∧ x.mem_block = none

/-- A slot with an SDU that is not confirmed: `w` of its PDUs are to be acknowledged, and
`pend` says which PDUs those may be. -/
structure Busy (w : Nat → Int) (pend : Nat → Nat → Prop) (q : Sdus) (i : Nat) : Prop where
  balance : ((q.input_sdus i).nb_pdus : Int) = (q.input_sdus i).nb_pdus_ack + w i
  few : (q.input_sdus i).nb_pdus < 32
  owner_lt : q.owner i < q.accepted
  unconfirmed : Unconfirmed q.log (q.owner i)
  carried : ∀ p, .carried p (q.owner i) ∈ q.log → .acked p ∈ q.log ∨ pend i p

/-- The queue and its history. No PDU lists a free slot. -/
structure Confirms (w : Nat → Int) (pend : Nat → Nat → Prop) (q : Sdus) : Prop where
  sound : Sound q.log
  numbered : ∀ r ∈ q.log, ∀ n, r.sdu = some n → n < q.accepted
  free : ∀ i, (q.input_sdus i).free → w i = 0
  busy : ∀ i, ¬ (q.input_sdus i).free → Busy w pend q i
  distinct : ∀ i j, ¬ (q.input_sdus i).free → ¬ (q.input_sdus j).free → q.owner i = q.owner j →
    i = j

variable {w w' : Nat → Int} {pend pend' : Nat → Nat → Prop} {q q' : Sdus} {i : Nat}

variable {j : Nat} {x : TxSdu} {l : List Nat} {s s' : Entity} {b : Nat → Nat}

theorem Busy.other {new : List TxRecord} (h : Busy w pend q j)
    (slot : q'.input_sdus j = q.input_sdus j) (owner : q'.owner = q.owner)
    (accepted : q'.accepted = q.accepted) (log : q'.log = new ++ q.log)
    (about : ∀ r ∈ new, r.sdu ≠ some (q.owner j)) (weight : w' j = w j)
    (pending : ∀ p, pend j p → pend' j p) : Busy w' pend' q' j := by
  refine ⟨?_, ?_, ?_, ?_, ?_⟩
  · rw [slot, weight]
    exact h.balance
  · rw [slot]
    exact h.few
  · rw [owner, accepted]
    exact h.owner_lt
  · intro a hmem
    rw [log, owner] at hmem
    rcases mem_append.1 hmem with hnew | hold
    · exact about _ hnew rfl
    · exact h.unconfirmed a hold
  · intro p hmem
    rw [log, owner] at hmem
    rcases mem_append.1 hmem with hnew | hold
    · exact absurd rfl (about _ hnew)
    · rw [log]
      exact (h.carried p hold).imp (mem_append_right new) (pending p)

theorem Confirms.set {n : List TxRecord} (h : Confirms w pend q)
    (table : q'.input_sdus = update q.input_sdus i x) (owner : q'.owner = q.owner)
    (accepted : q'.accepted = q.accepted) (log : q'.log = n ++ q.log)
    (was_busy : n ≠ [] ∨ ¬ x.free → ¬ (q.input_sdus i).free)
    (about : ∀ r ∈ n, r.sdu = some (q.owner i)) (sound : Sound q'.log) (rest : ∀ j ≠ i, w' j = w j)
    (pending : ∀ j p, j ≠ i → pend j p → pend' j p) (free : x.free → w' i = 0)
    (busy : ¬ x.free → Busy w' pend' q' i) :
    Confirms w' pend' q' := by
  have slot : ∀ j, q'.input_sdus j = if j = i then x else q.input_sdus j := by
    intro j
    rw [table, update_apply]
  have was : ∀ j, ¬ (q'.input_sdus j).free → ¬ (q.input_sdus j).free := by
    intro j hj
    rw [slot] at hj
    split at hj
    · next heq =>
      rw [heq]
      exact was_busy (.inr hj)
    · exact hj
  refine ⟨sound, ?_, ?_, ?_, ?_⟩
  · intro r hr k hk
    rw [log] at hr
    rw [accepted]
    rcases mem_append.1 hr with hnew | hold
    · rw [about r hnew] at hk
      cases hk
      exact (h.busy i (was_busy (.inl (ne_nil_of_mem hnew)))).owner_lt
    · exact h.numbered r hold k hk
  · intro j hj
    rw [slot] at hj
    split at hj
    · next heq =>
      rw [heq]
      exact free hj
    · next hne =>
      rw [rest j hne]
      exact h.free j hj
  · intro j hj
    by_cases heq : j = i
    · subst heq
      rw [slot, if_pos rfl] at hj
      exact busy hj
    · refine (h.busy j (was j hj)).other (by rw [slot, if_neg heq]) owner accepted log ?_
        (rest j heq) (fun p => pending j p heq)
      intro r hr hsdu
      rw [about r hr] at hsdu
      have hi := was_busy (.inl (ne_nil_of_mem hr))
      exact heq (h.distinct j i (was j hj) hi (Option.some.inj hsdu).symm)
  · intro j k hj hk heq
    rw [owner] at heq
    exact h.distinct j k (was j hj) (was k hk) heq

theorem Confirms.count (h : Confirms w pend q) (table : q'.input_sdus = update q.input_sdus i x)
    (owner : q'.owner = q.owner) (accepted : q'.accepted = q.accepted) (log : q'.log = q.log)
    (tag : x.free ↔ (q.input_sdus i).free) (rest : ∀ j ≠ i, w' j = w j) (free : x.free → w' i = 0)
    (busy : Busy w pend q i → (x.nb_pdus : Int) = x.nb_pdus_ack + w' i ∧ x.nb_pdus < 32) :
    Confirms w' pend q' := by
  refine h.set (n := []) table owner accepted log ?_ (fun r hr => by cases hr)
    (log ▸ h.sound) rest (fun _ _ _ hp => hp) free ?_
  · rintro (hnil | hx)
    · exact absurd rfl hnil
    · exact fun hfree => hx (tag.2 hfree)
  · intro hx
    have old := h.busy i (fun hfree => hx (tag.2 hfree))
    have slot : q'.input_sdus i = x := by rw [table, update_self]
    obtain ⟨balance, few⟩ := busy old
    refine ⟨by rw [slot]; exact balance, by rw [slot]; exact few, ?_, ?_, ?_⟩
    · rw [owner, accepted]
      exact old.owner_lt
    · rw [log, owner]
      exact old.unconfirmed
    · rw [log, owner]
      exact old.carried

/-! ## Acknowledgements -/

theorem Confirms.conf {a : DataConf} (h : Confirms w pend q)
    (busy : ¬ (q.input_sdus i).free) (table : ∃ y, q'.input_sdus = update q.input_sdus i y)
    (owner : q'.owner = q.owner) (accepted : q'.accepted = q.accepted)
    (log : q'.log = .conf (q.owner i) a :: q.log) (sound : Sound q'.log)
    (rest : ∀ j ≠ i, w' j = w j) (last : w' i = 0) : Confirms w' pend (freeInSdu q' i) := by
  obtain ⟨y, table⟩ := table
  refine h.set (x := { transmitted_successfully := true }) (n := [.conf (q.owner i) a])
    ?_ owner accepted log (fun _ => busy) ?_ sound rest (fun _ _ _ hp => hp) (fun _ => last) ?_
  · unfold freeInSdu
    rw [table, update_idem]
  · intro r hr
    cases mem_singleton.1 hr
    rfl
  · intro hx
    exact absurd ⟨rfl, rfl⟩ hx

theorem Confirms.ackSdu (h : Confirms w pend q) (listed : 0 < w i)
    (more : ∀ p, pend i p → 1 < w i) : Confirms (update w i (w i - 1)) pend (ackSdu q i) := by
  have rest : ∀ j ≠ i, update w i (w i - 1) j = w j := fun j hne => update_of_ne hne _ _
  have hfree : ¬ (q.input_sdus i).free := by
    intro hfree
    have := h.free i hfree
    omega
  have old := h.busy i hfree
  have balance := old.balance
  have few := old.few
  have count : ((q.input_sdus i).nb_pdus_ack + 1) % 256 = (q.input_sdus i).nb_pdus_ack + 1 :=
    Nat.mod_eq_of_lt (by omega)
  unfold Am.ackSdu
  dsimp only
  split
  · next hlast =>
    have last : w i = 1 := by omega
    refine h.conf (a := q.dataConf (q.input_sdus i).mui .yes) hfree ⟨_, rfl⟩ rfl rfl rfl ?_ rest ?_
    · refine ⟨fun _ => ⟨?_, old.unconfirmed⟩, fun a ha => absurd ha (old.unconfirmed a), h.sound⟩
      intro p hp
      refine (old.carried p hp).resolve_right ?_
      intro hpend
      have := more p hpend
      omega
    · rw [update_self]
      omega
  · refine h.count rfl rfl rfl rfl Iff.rfl rest ?_ ?_
    · intro hx
      exact absurd hx hfree
    · intro _
      rw [update_self]
      exact ⟨by dsimp only; omega, few⟩

theorem Confirms.ackSdus (nonneg : ∀ i, 0 ≤ w i) (more : ∀ i p, pend i p → 0 < w i)
    (h : Confirms (fun i => w i + l.count i) pend q) : Confirms w pend (l.foldl Am.ackSdu q) := by
  induction l generalizing q with
  | nil => simpa using h
  | cons i l ih =>
    apply ih
    have hw := nonneg i
    have hcount := count_cons_self (a := i) (l := l)
    have step := h.ackSdu (i := i) (by omega) ?_
    · convert step using 1
      funext j
      rw [update_apply]
      split
      · next heq =>
        subst heq
        omega
      · next hne => rw [count_cons_of_ne (Ne.symm hne)]
    · intro p hp
      have := more i p hp
      omega

theorem Confirms.acked {a : Nat} (h : Confirms w pend q)
    (pending : ∀ i p, pend i p → pend' i p ∨ p = a) :
    Confirms w pend' { q with log := .acked a :: q.log } := by
  refine ⟨h.sound, ?_, h.free, ?_, h.distinct⟩
  · intro r hr n hn
    rcases mem_cons.1 hr with rfl | hold
    · cases hn
    · exact h.numbered r hold n hn
  · intro i hi
    have old := h.busy i hi
    refine ⟨old.balance, old.few, old.owner_lt, ?_, ?_⟩
    · intro a hmem
      rcases mem_cons.1 hmem with heq | hold
      · cases heq
      · exact old.unconfirmed a hold
    · intro p hmem
      rcases mem_cons.1 hmem with heq | hold
      · cases heq
      rcases old.carried p hold with hacked | hpend
      · exact .inl (mem_cons_of_mem _ hacked)
      · rcases pending i p hpend with hpend' | rfl
        · exact .inr hpend'
        · exact .inl mem_cons_self

/-! ## A new PDU, and a new SDU -/

theorem not_free_of_isSome (h : x.mem_block.isSome) : ¬ x.free := by
  intro hfree
  rw [hfree.2] at h
  cases h

theorem Confirms.listed (h : Confirms (fun j => w j + l.count j) pend q)
    (hsome : (q.input_sdus i).mem_block.isSome) (few : (q.input_sdus i).nb_pdus + 1 < 32) :
    Confirms (fun j => w j + (l ++ [i]).count j) pend (q.listed i) := by
  have hbusy := not_free_of_isSome hsome
  have hx : ¬ ({ q.input_sdus i with nb_pdus := (q.input_sdus i).nb_pdus + 1 } : TxSdu).free :=
    not_free_of_isSome hsome
  refine h.count rfl rfl rfl rfl (iff_of_false hx hbusy) ?_ (fun hfree => absurd hfree hx) ?_
  · intro j hne
    simp [Ne.symm hne]
  · intro old
    have := old.balance
    dsimp only at this ⊢
    rw [count_append, count_singleton_self]
    exact ⟨by omega, few⟩

theorem Confirms.carry {a : Nat} (h : Confirms w pend q) (hsome : (q.input_sdus i).mem_block.isSome)
    (table : q'.input_sdus = update q.input_sdus i x) (owner : q'.owner = q.owner)
    (accepted : q'.accepted = q.accepted) (log : q'.log = .carried a (q.owner i) :: q.log)
    (nb_pdus : x.nb_pdus = (q.input_sdus i).nb_pdus)
    (nb_pdus_ack : x.nb_pdus_ack = (q.input_sdus i).nb_pdus_ack) (pos : 0 < w i)
    (pending : pend i a) : Confirms w pend q' := by
  have old := h.busy i (not_free_of_isSome hsome)
  have balance := old.balance
  have hx : ¬ x.free := by
    intro hfree
    have := hfree.1
    omega
  refine h.set (n := [.carried a (q.owner i)]) table owner accepted log
    (fun _ => not_free_of_isSome hsome) ?_ ?_ (fun _ _ => rfl) (fun _ _ _ hp => hp)
    (fun hfree => absurd hfree hx) ?_
  · intro r hr
    cases mem_singleton.1 hr
    rfl
  · rw [log]
    exact ⟨fun a ha => absurd ha (old.unconfirmed a), h.sound⟩
  · intro _
    have slot : q'.input_sdus i = x := by rw [table, update_self]
    refine ⟨?_, ?_, ?_, ?_, ?_⟩
    · rw [slot, nb_pdus, nb_pdus_ack]
      exact balance
    · rw [slot, nb_pdus]
      exact old.few
    · rw [owner, accepted]
      exact old.owner_lt
    · intro a hmem
      rw [log, owner] at hmem
      rcases mem_cons.1 hmem with heq | hold
      · cases heq
      · exact old.unconfirmed a hold
    · intro p hmem
      rw [log, owner] at hmem
      rcases mem_cons.1 hmem with heq | hold
      · cases heq
        exact .inr pending
      · rw [log]
        exact (old.carried p hold).imp_left (mem_cons_of_mem _)

theorem Confirms.mono (h : Confirms w pend q)
    (pending : ∀ i p, pend i p → pend' i p) : Confirms w pend' q := by
  refine ⟨h.sound, h.numbered, h.free, ?_, h.distinct⟩
  intro i hi
  have old := h.busy i hi
  exact ⟨old.balance, old.few, old.owner_lt, old.unconfirmed,
    fun p hp => (old.carried p hp).imp_right (pending i p)⟩

theorem Confirms.cutPdu {junk : Mem} {plan : Plan} (h : Confirms w pend s.sdus)
    (planned : planPdu 31 s.sdus s.sdus.current_sdu_index (dataPduSize s - 2) 2 0 0 [] =
      some plan) (nonneg : ∀ i, 0 ≤ w i) (pending : ∀ i p, pend i p → pend' i p)
    (new : ∀ i ∈ plan.sdus_index, pend' i s.retrans.sent) :
    Confirms (fun i => w i + plan.sdus_index.count i) pend' (s.cutPdu junk plan).sdus := by
  have pos : ∀ i ∈ plan.sdus_index, 0 < w i + plan.sdus_index.count i := by
    intro i hi
    have := nonneg i
    have := count_pos_iff.2 hi
    omega
  apply cutPdu_rule planned
  · intro q n current listed _ hq
    exact hq.carry current rfl rfl rfl rfl rfl rfl (pos _ listed) (new _ listed)
  · intro q current listed hq
    unfold Sdus.finish freeInSduData
    dsimp only
    rw [if_pos current]
    exact hq.carry current rfl rfl rfl rfl rfl rfl (pos _ listed) (new _ listed)
  · refine planPdu_rule (P := fun q l => Confirms (fun i => w i + l.count i) pend' q) ?_ ?_ planned
    · intro q l i hsome few hq
      exact hq.listed hsome few
    · simpa using h.mono pending

theorem Confirms.dataReq (h : Confirms w pend q) (req : RlcAmDataReq)
    (unlisted : q.hasRoom → w q.next_sdu_index = 0) : Confirms w pend (rlcAmDataReq q req) := by
  unfold rlcAmDataReq
  split
  swap
  · refine ⟨h.sound, h.numbered, h.free, ?_, h.distinct⟩
    intro i hi
    have old := h.busy i hi
    exact ⟨old.balance, old.few, old.owner_lt, old.unconfirmed, old.carried⟩
  next room =>
  refine ⟨h.sound, ?_, ?_, ?_, ?_⟩
  · intro r hr n hn
    exact Nat.lt_succ_of_lt (h.numbered r hr n hn)
  · intro i
    dsimp only [Sdus.set]
    rw [update_apply]
    split
    · intro hfree
      cases hfree.2
    · exact h.free i
  · intro i hi
    dsimp only [Sdus.set] at hi
    by_cases heq : i = q.next_sdu_index
    · subst heq
      have newest : ∀ r ∈ q.log, r.sdu ≠ some q.accepted := by
        intro r hr hn
        exact lt_irrefl _ (h.numbered r hr _ hn)
      refine ⟨?_, ?_, ?_, ?_, ?_⟩ <;> dsimp only [Sdus.set] <;> rw [update_self]
      · rw [unlisted room]
        rfl
      · exact (by decide : 0 < 32)
      · exact Nat.lt_succ_self _
      · exact fun a hmem => newest _ hmem rfl
      · exact fun p hmem => absurd rfl (newest _ hmem)
    · rw [update_of_ne heq] at hi
      have old := h.busy i hi
      refine ⟨?_, ?_, ?_, ?_, ?_⟩ <;> dsimp only [Sdus.set] <;> rw [update_of_ne heq]
      · exact old.balance
      · exact old.few
      · exact Nat.lt_succ_of_lt old.owner_lt
      · exact old.unconfirmed
      · exact old.carried
  · intro i j hi hj
    dsimp only [Sdus.set] at hi hj ⊢
    by_cases hin : i = q.next_sdu_index <;> by_cases hjn : j = q.next_sdu_index
    · intro _
      rw [hin, hjn]
    · rw [update_of_ne hjn] at hj
      rw [hin, update_self, update_of_ne hjn]
      intro heq
      have := (h.busy j hj).owner_lt
      omega
    · rw [update_of_ne hin] at hi
      rw [hjn, update_self, update_of_ne hin]
      intro heq
      have := (h.busy i hi).owner_lt
      omega
    · rw [update_of_ne hin] at hi
      rw [update_of_ne hjn] at hj
      rw [update_of_ne hin, update_of_ne hjn]
      exact h.distinct i j hi hj

/-! ## The law -/

def Retrans.pending (r : Retrans) (i p : Nat) : Prop :=
  ∃ sn < 1024, (r.pdu_retrans_buffer sn).held = true ∧ r.number sn = p ∧
  i ∈ (r.pdu_retrans_buffer sn).sdus_index

variable {r r' : Retrans} {sn sn' : Nat}

theorem count_le_listings (lt : sn < 1024) (held : (r.pdu_retrans_buffer sn).held)
    (i : Nat) : ((r.pdu_retrans_buffer sn).sdus_index.count i : Int) ≤ r.listings i := by
  have hle : (r.pdu_retrans_buffer sn).lists i ≤ r.listings i := le_total _ (lists_nonneg i) lt
  rwa [TxPdu.lists, if_pos held] at hle

theorem listings_pos_of_pending {p : Nat} (h : r.pending i p) : 0 < r.listings i := by
  obtain ⟨sn, lt, held, -, hi⟩ := h
  have := count_le_listings lt held i
  have := count_pos_iff.2 hi
  omega

theorem pending_of_same
    (held : ∀ sn, (r.pdu_retrans_buffer sn).held → (r'.pdu_retrans_buffer sn).held ∧
        (r'.pdu_retrans_buffer sn).sdus_index = (r.pdu_retrans_buffer sn).sdus_index)
    (number : r'.number = r.number) (i p : Nat) (h : r.pending i p) : r'.pending i p := by
  obtain ⟨sn, lt, hheld, hnumber, hi⟩ := h
  obtain ⟨hheld', hindex⟩ := held sn hheld
  exact ⟨sn, lt, hheld', number ▸ hnumber, hindex ▸ hi⟩

/-- The queue and its history are in order, and no hit that may still come gives up an SDU. -/
structure ConfirmsLaw (b : Nat → Nat) (s : Entity) : Prop where
  confirms : Confirms s.retrans.listings s.retrans.pending s.sdus
  calm : Calm b s

theorem ConfirmsLaw.same (same : TxSame s s') (h : ConfirmsLaw b s) : ConfirmsLaw b s' := by
  refine ⟨?_, h.calm.same same⟩
  rw [same.sdus, funext (listings_keeps same.retrans)]
  apply h.confirms.mono
  apply pending_of_same
  · intro sn held
    exact ⟨(same.retrans.held sn).trans held, (same.retrans.entry sn held).sdus_index⟩
  · exact same.retrans.number

theorem ConfirmsLaw.acked {sn : Nat} (win : TxWin s.retrans)
    (held : (s.retrans.pdu_retrans_buffer sn).held)
    (h : ConfirmsLaw b s) : ConfirmsLaw b (s.acked sn) := by
  have lt := (win.inFlight_of_held held).1
  refine ⟨?_, h.calm.acked⟩
  apply Confirms.ackSdus (listings_nonneg _) (fun i p => listings_pos_of_pending)
  have hw : (fun i => (s.acked sn).retrans.listings i +
      ((s.retrans.pdu_retrans_buffer sn).sdus_index.count i : Nat)) = s.retrans.listings := by
    funext i
    have : (s.acked sn).retrans.listings i = _ := listings_acked lt held i
    omega
  rw [hw]
  apply h.confirms.acked
  rintro i p ⟨sn', lt', held', hnumber, hi⟩
  by_cases heq : sn' = sn
  · rw [← hnumber, heq]
    exact .inr rfl
  · have hold : (s.acked sn).retrans.pdu_retrans_buffer sn' = s.retrans.pdu_retrans_buffer sn' :=
      update_of_ne heq _ _
    exact .inl ⟨sn', lt', by rw [hold]; exact held', hnumber, by rw [hold]; exact hi⟩

/-- One hit raises a count by one at most, and one less is to come. -/
theorem ConfirmsLaw.raised {n : Int} (h : ConfirmsLaw b s)
    (held : (s.retrans.pdu_retrans_buffer sn).held) (hit : 0 < b sn)
    (count : n ≤ (s.retrans.pdu_retrans_buffer sn).retx_count + 1) (cfg : s'.cfg = s.cfg)
    (buffer : s'.retrans.pdu_retrans_buffer = update s.retrans.pdu_retrans_buffer sn
      { s.retrans.pdu_retrans_buffer sn with retx_count := n })
    (number : s'.retrans.number = s.retrans.number) (sdus : s'.sdus = s.sdus) :
    ConfirmsLaw (update b sn (b sn - 1)) s' := by
  refine ⟨?_, h.calm.raised hit held count cfg buffer⟩
  rw [sdus, funext (listings_retx buffer)]
  apply h.confirms.mono
  apply pending_of_same
  · intro sn' held'
    rw [buffer, update_apply]
    split
    · next heq => exact ⟨heq ▸ held', heq ▸ rfl⟩
    · exact ⟨held', rfl⟩
  · exact number

theorem ConfirmsLaw.nacked {sn : Nat} (win : TxWin s.retrans)
    (held : (s.retrans.pdu_retrans_buffer sn).held) (hit : 0 < b sn) (h : ConfirmsLaw b s) :
    ConfirmsLaw (update b sn (b sn - 1)) (s.nacked sn) :=
  h.raised held hit (nackCount_le (win.retx sn)) rfl rfl rfl (h.calm.nacked_sdus win held hit)

theorem ConfirmsLaw.resent {sn : Nat} (win : TxWin s.retrans)
    (held : (s.retrans.pdu_retrans_buffer sn).held) (hit : 0 < b sn) (h : ConfirmsLaw b s) :
    ConfirmsLaw (update b sn (b sn - 1)) { s with retrans := s.retrans.resent sn } := by
  have := win.retx sn
  exact h.raised held hit (int8_le (by omega)) rfl rfl rfl rfl

theorem ConfirmsLaw.cut {junk : Mem} {plan : Plan} (win : TxWin s.retrans)
    (planned : planPdu 31 s.sdus s.sdus.current_sdu_index (dataPduSize s - 2) 2 0 0 [] =
      some plan) (h : ConfirmsLaw (fun _ => 0) s) :
    ConfirmsLaw (fun _ => 0) (s.cutPdu junk plan) := by
  refine ⟨?_, calm_zero _⟩
  rw [listings_cutPdu win]
  refine h.confirms.cutPdu planned (listings_nonneg _) ?_ ?_
  · rintro i p ⟨sn, lt, held, hnumber, hi⟩
    have hne : sn ≠ s.retrans.vt_s := by
      rintro rfl
      exact lt_irrefl _ (win.inFlight_of_held held).2
    have hold : (s.cutPdu junk plan).retrans.pdu_retrans_buffer sn =
        s.retrans.pdu_retrans_buffer sn := update_of_ne hne _ _
    refine ⟨sn, lt, by rw [hold]; exact held, ?_, by rw [hold]; exact hi⟩
    rw [← hnumber]
    exact update_of_ne hne _ _
  · intro i hi
    refine ⟨s.retrans.vt_s, win.vt_s, ?_, update_self _ _ _, ?_⟩
    · rw [Entity.cutPdu, store_apply, if_pos rfl]
      rfl
    · rw [Entity.cutPdu, store_apply, if_pos rfl]
      exact hi

theorem confirms_law : Law ConfirmsLaw where
  same := ConfirmsLaw.same
  less le h := ⟨h.confirms, h.calm.less le⟩
  acked := ConfirmsLaw.acked
  nacked := ConfirmsLaw.nacked
  resent win held hit _ h := h.resent win held hit
  cut win _ _ planned h := h.cut win planned

/-- An entity of a bearer before its first call. -/
def bearerEntity (cfg : Config) (srb_flag : Bool) (rb_id : Nat) : Entity :=
  rlcAmSetDebugInfos (rlcAmConfigure cfg) srb_flag rb_id

theorem confirms_configure (cfg : Config) (srb_flag : Bool) (rb_id : Nat) :
    ConfirmsLaw (fun _ => 0) (bearerEntity cfg srb_flag rb_id) := by
  have none : ∀ i, (bearerEntity cfg srb_flag rb_id).retrans.listings i = 0 :=
    fun i => total_eq_zero fun _ _ => rfl
  refine ⟨⟨trivial, ?_, fun i _ => none i, ?_, ?_⟩, calm_zero _⟩
  · intro r hr
    cases hr
  · intro i hi
    exact absurd ⟨rfl, rfl⟩ hi
  · intro i j hi
    exact absurd ⟨rfl, rfl⟩ hi

/-! ## Signalling bearers -/

/-- Every confirmation so far was a NO, and the next ones will be. -/
structure OnlyNo (q : Sdus) : Prop where
  plane : q.is_data_plane = false
  status : ∀ n a, .conf n a ∈ q.log → a.status = .no

theorem OnlyNo.push {r : TxRecord} (h : OnlyNo q) (plane : q'.is_data_plane = q.is_data_plane)
    (log : q'.log = r :: q.log) (new : ∀ n a, r = .conf n a → a.status = .no) : OnlyNo q' := by
  refine ⟨plane.trans h.plane, fun n a hmem => ?_⟩
  rw [log] at hmem
  rcases mem_cons.1 hmem with heq | hold
  · exact new n a heq.symm
  · exact h.status n a hold

theorem OnlyNo.dataConf (h : OnlyNo q) (mui : Nat)
    (c : Confirm) : (q.dataConf mui c).status = .no := by
  simp [Sdus.dataConf, h.plane]

theorem OnlyNo.ackSdu (h : OnlyNo q) (i : Nat) : OnlyNo (ackSdu q i) := by
  unfold Am.ackSdu
  dsimp only
  split
  · exact h.push rfl rfl fun n a heq => by cases heq; exact h.dataConf _ _
  · exact ⟨h.plane, h.status⟩

theorem OnlyNo.discardSdu (h : OnlyNo q) (i : Nat) : OnlyNo (discardSdu q i) := by
  unfold Am.discardSdu
  dsimp only
  split
  · exact h.push rfl rfl fun n a heq => by cases heq; exact h.dataConf _ _
  · exact ⟨h.plane, h.status⟩

theorem OnlyNo.foldl {f : Sdus → Nat → Sdus} (keep : ∀ q i, OnlyNo q → OnlyNo (f q i))
    (h : OnlyNo q) : OnlyNo (l.foldl f q) := by
  induction l generalizing q with
  | nil => exact h
  | cons i l ih => exact ih (keep q i h)

theorem onlyNo_law : Law fun _ s => OnlyNo s.sdus where
  same same h := same.sdus ▸ h
  less _ h := h
  acked _ _ h :=
    OnlyNo.foldl (fun _ i hq => hq.ackSdu i) (h.push rfl rfl fun _ _ heq => by cases heq)
  nacked _ _ _ h := by
    unfold Entity.nacked
    dsimp only
    split
    · exact OnlyNo.foldl (fun _ i hq => hq.discardSdu i) h
    · exact h
  resent _ _ _ _ h := h
  cut _ _ _ planned h := by
    apply cutPdu_rule planned
    · intro q n _ _ _ hq
      exact hq.push rfl rfl fun _ _ heq => by cases heq
    · intro q current _ hq
      unfold Sdus.finish freeInSduData
      dsimp only
      rw [if_pos current]
      exact hq.push rfl rfl fun _ _ heq => by cases heq
    · refine planPdu_rule (P := fun q _ => OnlyNo q) ?_ h planned
      intro q l i _ _ hq
      exact ⟨hq.plane, hq.status⟩

theorem OnlyNo.dataReq (h : OnlyNo q) (req : RlcAmDataReq) : OnlyNo (rlcAmDataReq q req) := by
  unfold rlcAmDataReq
  split <;> exact ⟨h.plane, h.status⟩

theorem sound_of_no {log : List TxRecord} (h : ∀ n a, .conf n a ∈ log → a.status = .no) :
    Sound log := by
  induction log with
  | nil => trivial
  | cons r log ih =>
    have tail : ∀ n a, .conf n a ∈ log → a.status = .no :=
      fun n a ha => h n a (mem_cons_of_mem r ha)
    cases r with
    | carried p n => exact ⟨tail n, ih tail⟩
    | acked p => exact ih tail
    | conf n a =>
      refine ⟨fun hyes => ?_, tail n, ih tail⟩
      rw [h n a mem_cons_self] at hyes
      cases hyes

/-! ## Confirmations over whole runs -/

/-- A call that keeps the confirmations sound: an SDU is stored only in a slot that no
outstanding PDU lists, and no hit takes the `retx_count` of an outstanding PDU to the
threshold. -/
def ConfirmsSafely (s : Entity) : Event → Prop
  | .dataReq _ => s.sdus.hasRoom = true → ∀ sn ∈ s.retrans.flight, s.retrans.outstanding sn →
    s.sdus.next_sdu_index ∉ (s.retrans.pdu_retrans_buffer sn).sdus_index
  | e => ∀ sn ∈ s.retrans.flight, s.retrans.outstanding sn → 0 < hits e sn →
    (s.retrans.pdu_retrans_buffer sn).retx_count + hits e sn < s.cfg.max_retx_threshold

instance (s : Entity) (e : Event) : Decidable (ConfirmsSafely s e) := by
  rcases e with ⟨⟩ <;> dsimp only [ConfirmsSafely] <;> infer_instance

theorem listings_of_unlisted (win : TxWin s.retrans)
    (h : ∀ sn ∈ s.retrans.flight, s.retrans.outstanding sn →
      i ∉ (s.retrans.pdu_retrans_buffer sn).sdus_index) : s.retrans.listings i = 0 := by
  apply total_eq_zero
  intro sn _
  unfold TxPdu.lists
  split
  · next held =>
    have hi := h sn (win.mem_flight (win.inFlight_of_held held)) (win.held_iff.1 held)
    rw [count_eq_zero_of_not_mem hi]
    rfl
  · rfl

/-- What `rlc_data_conf` is told is sound in every run of a signalling bearer, and in every run
of a data bearer whose calls keep it so: a YES comes at most once and after every PDU with a
byte of the SDU was acknowledged, and never with a NO. -/
theorem confirmations_are_sound {cfg : Config} {srb_flag : Bool} {rb_id : Nat} {es : List Event}
    {s : Entity}
    (meets : srb_flag = false → Meets step ConfirmsSafely (bearerEntity cfg srb_flag rb_id) es)
    (h : run step (bearerEntity cfg srb_flag rb_id) es = some s) : Sound s.sdus.log := by
  have win : TxWin (bearerEntity cfg srb_flag rb_id).retrans := txWin_configure cfg
  cases srb_flag with
  | true =>
    have start : OnlyNo (bearerEntity cfg true rb_id).sdus := ⟨rfl, fun n a hmem => by cases hmem⟩
    have hrun := onlyNo_law.run (C := fun _ _ => True) win start
      (fun _ _ _ _ hp => hp) (fun _ req _ _ hp => hp.dataReq req)
      (meets_of_forall (fun _ _ => trivial) _) h
    exact sound_of_no hrun.2.status
  | false =>
    have room : ∀ s e, ConfirmsSafely s e → TxWin s.retrans → ConfirmsLaw (fun _ => 0) s →
        ConfirmsLaw (hits e) s := by
      intro s e safely win hp
      refine ⟨hp.confirms, ?_⟩
      cases e with
      | dataReq req => exact calm_zero s
      | _ => exact calm_of_flight win safely
    have accept : ∀ s req, ConfirmsSafely s (.dataReq req) → TxWin s.retrans →
        ConfirmsLaw (fun _ => 0) s →
        ConfirmsLaw (fun _ => 0) { s with sdus := rlcAmDataReq s.sdus req } := by
      intro s req safely win hp
      exact ⟨hp.confirms.dataReq req fun room => listings_of_unlisted win (safely room),
        calm_zero _⟩
    exact (confirms_law.run win (confirms_configure cfg false rb_id) room accept
      (meets rfl) h).2.confirms.sound

/-- The entity of DRB1 with a retransmission threshold of 1. -/
def drbEntity : Entity := bearerEntity ⟨1, 4, 100, 20, 20, 20⟩ false 1

/-- Two SDUs of one byte, of which the second is NACKed before it is acknowledged. -/
def twoYesRun : List Event := oneByte 7 ++ [.macDataIndication ⟨2, 0⟩ (statusTb 1 [])] ++
    oneByte 8 ++
    [.macDataIndication ⟨3, 0⟩ (statusTb 2 [wholeNack 1]),
      .macDataIndication ⟨5, 0⟩ (statusTb 2 [])]

/-- Both are confirmed with a YES. -/
theorem two_sound_confirmations : Meets step ConfirmsSafely drbEntity twoYesRun ∧
      ∃ s, run step drbEntity twoYesRun = some s ∧
        s.sdus.log = [.conf 1 ⟨1, 8, 1, .yes⟩, .acked 1, .carried 1 1, .conf 0 ⟨1, 7, 1, .yes⟩,
          .acked 0, .carried 0 0] ∧ Sound s.sdus.log := by
  have meets : Meets step ConfirmsSafely drbEntity twoYesRun := by decide +kernel
  obtain ⟨s, hs, hlog⟩ : ∃ s, run step drbEntity twoYesRun = some s ∧ s.sdus.log =
      [.conf 1 ⟨1, 8, 1, .yes⟩, .acked 1, .carried 1 1, .conf 0 ⟨1, 7, 1, .yes⟩, .acked 0,
        .carried 0 0] :=
    run_decided (by decide +kernel)
  exact ⟨meets, s, hs, hlog, confirmations_are_sound (fun _ => meets) hs⟩

/-- One byte in one PDU, which is NACKed twice. -/
def givenUpRun : List Event := oneByte 7 ++
    [.macDataIndication ⟨3, 0⟩ (statusTb 1 [wholeNack 0]),
      .macDataIndication ⟨4, 0⟩ (statusTb 1 [wholeNack 0])]

/-- The SDU is given up. `rlc_data_conf` is called for a NO, but on a data bearer the status it
is given is YES. -/
theorem a_yes_without_an_acknowledgement : ∃ s, run step drbEntity givenUpRun = some s ∧
      s.sdus.log = [.conf 0 ⟨1, 7, 0, .yes⟩, .carried 0 0] ∧ ¬ Sound s.sdus.log := by
  obtain ⟨s, hs, hlog⟩ : ∃ s, run step drbEntity givenUpRun = some s ∧
      s.sdus.log = [.conf 0 ⟨1, 7, 0, .yes⟩, .carried 0 0] := run_decided (by decide +kernel)
  refine ⟨s, hs, hlog, ?_⟩
  rw [hlog]
  rintro ⟨all, -, -⟩
  exact absurd ((all rfl).1 0 (by decide)) (by decide)

end MacRlcSplit.Am
