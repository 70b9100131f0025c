-- `buffer_occupancy` over the whole life of a UM entity: the queue and its
-- segmentation keep it right, and a configuration request, which sets it to 0
-- and leaves `dar_buffer` as it is, is carried out on a new entity only.
import MacRlcSplit.Um.Stream

namespace MacRlcSplit.Um

open Lib Am List

/-! ## Configuration requests -/

/-- `rlc_um_set_debug_infos` and `rlc_um_configure` with `rlc_um_reset_state_variables`. The queue,
`dar_buffer` and the SDU under construction are not looked at. -/
def Entity.configure (s : Entity) (cfg : Config) : Entity where
  tx := { s.tx with tx_sn_length := cfg.tx_sn_length, buffer_occupancy := 0, vt_us := 0 }
  rx :=
    { s.rx with
      cfg := cfg
      vr_ur := 0
      vr_ux := 0
      vr_uh := 0
      t_reordering := { ms_duration := cfg.timer_reordering }
      out :=
        { s.rx.out with
          last_reassemblied_sn := cfg.rx_sn_length.modulo - 1
          last_reassemblied_missing_sn := cfg.rx_sn_length.modulo - 1
          reassembly_missing_sn_detected := false } }

/-- An entity with its `protocol_state`. -/
structure Bearer where
  protocol_state : ProtocolState
  entity : Entity

/-- `rlc_um_init` on a new entity. -/
def rlcUmInit : Bearer where
  protocol_state := .null
  entity :=
    { tx := { tx_sn_length := .ten }
      rx := { cfg := ⟨0, .ten, .ten, false, false⟩, out :=
        { last_reassemblied_sn := 0, last_reassemblied_missing_sn := 0 } } }

/-- `config_req_rlc_um`, and `config_req_rlc_um_asn1` with values that are in its tables.
`rlc_um_init` does nothing on an entity that is initialized. -/
def configReqRlcUm (b : Bearer) (cfg : Config) : Bearer :=
  match b.protocol_state with
  | .null => ⟨.dataTransferReady, b.entity.configure cfg⟩
  -- `rlc_um_fsm_notify_event` expects no configuration in this state and returns 0
  | .dataTransferReady => b

/-- The first configuration gives the entity that the other modules start with. -/
theorem configured_once (cfg : Config) :
    configReqRlcUm rlcUmInit cfg = ⟨.dataTransferReady, rlcUmConfigure cfg⟩ := rfl

inductive BearerEvent where
  | call (e : Event)
  | configReq (cfg : Config)

def bearerStep (b : Bearer) : BearerEvent → Option Bearer
  | .call e => (step b.entity e).map ({ b with entity := · })
  | .configReq cfg => some (configReqRlcUm b cfg)

/-! ## The queue -/

/-- `buffer_occupancy` is what the queue holds. -/
def Occupied (s : Entity) : Prop := s.tx.buffer_occupancy = queueBytes s.tx.input_sdus

theorem fillPdu_left {test_num_li li : Nat} {q : List TxSdu} {f : Fill}
    (h : f.buffer_occupancy = queueBytes q) :
    (fillPdu test_num_li li q f).buffer_occupancy =
      queueBytes (fillPdu test_num_li li q f).input_sdus := by
  induction q generalizing li f with
  | nil => exact h
  | cons x l ih =>
    rw [queueBytes_cons] at h
    have hrest : f.buffer_occupancy - x.sdu_remaining_size = queueBytes l := by omega
    rw [fillPdu]
    split
    · next hlt =>
      simp only [queueBytes_cons, TxSdu.cut, TxSdu.sdu_remaining_size] at hlt h ⊢
      omega
    · split
      · exact hrest
      · split
        · exact ih hrest
        · exact hrest

theorem occupied_step {s t : Entity} {e : Event} (h : Occupied s)
    (hstep : step s e = some t) : Occupied t := by
  cases e with
  | dataReq req =>
    cases hstep
    unfold Occupied queueBytes at h ⊢
    simp [rlcUmDataReq, h, TxSdu.sdu_remaining_size]
  | macDataRequest junk =>
    cases hstep
    unfold Occupied rlcUmGetPdus rlcUmSegment10 rlcUmSegment5
    split <;> split_ifs
    · exact h
    · exact fillPdu_left h
    · exact h
    · exact fillPdu_left h
  | macStatusIndication ctxt tbs_size =>
    obtain ⟨u, hu, rfl⟩ := Option.map_eq_some_iff.1 hstep
    obtain ⟨rx, -, rfl⟩ := Option.map_eq_some_iff.1 hu
    exact h
  | receive ctxt tb =>
    simp only [step, rlcUmReceive] at hstep
    split at hstep
    · cases hstep
      exact h
    · obtain ⟨rx, -, rfl⟩ := Option.map_eq_some_iff.1 hstep
      exact h
  | checkTimer ctxt =>
    obtain ⟨rx, -, rfl⟩ := Option.map_eq_some_iff.1 hstep
    exact h

/-! ## Runs -/

/-- What a call is to leave: the occupancy right and, after a configuration that is carried out,
no PDU in `dar_buffer`. -/
def Leaves (b : Bearer) (e : BearerEvent) : Prop := ∀ t ∈ bearerStep b e, Occupied t.entity ∧
  ∀ cfg, e = .configReq cfg → t = b ∨ ∀ sn, t.entity.rx.dar_buffer sn = none

/-- The bearer is ready and its occupancy right. -/
def Ready (b : Bearer) : Prop := b.protocol_state = .dataTransferReady ∧ Occupied b.entity

theorem ready_step {b t : Bearer} {e : BearerEvent} (h : Ready b)
    (hstep : bearerStep b e = some t) : Ready t ∧ ∀ cfg, e = .configReq cfg → t = b := by
  cases e with
  | call e =>
    obtain ⟨s, hs, rfl⟩ := Option.map_eq_some_iff.1 hstep
    exact ⟨⟨h.1, occupied_step h.2 hs⟩, nofun⟩
  | configReq cfg =>
    have hrefused : configReqRlcUm b cfg = b := by rw [configReqRlcUm, h.1]
    cases hstep
    rw [hrefused]
    exact ⟨h, fun _ _ => rfl⟩

theorem leaves_of_ready {b : Bearer} (h : Ready b)
    (es : List BearerEvent) : Meets bearerStep Leaves b es := by
  induction es generalizing b with
  | nil => trivial
  | cons e es ih =>
    refine ⟨fun t ht => ?_, fun t ht => ih (ready_step h ht).1⟩
    obtain ⟨hready, hrefused⟩ := ready_step h ht
    exact ⟨hready.2, fun cfg he => .inl (hrefused cfg he)⟩

/-- RRC configures an entity as it creates it. In every run from there, with any further
configuration requests, each call leaves the occupancy right, and each configuration either
changes nothing or leaves an empty `dar_buffer`. -/
theorem occupancy_is_right (cfg : Config) (es : List BearerEvent) :
    Meets bearerStep Leaves rlcUmInit (.configReq cfg :: es) := by
  have hready : Ready (configReqRlcUm rlcUmInit cfg) := ⟨rfl, rfl⟩
  constructor
  · intro t ht
    cases ht
    exact ⟨hready.2, fun _ _ => .inr fun _ => rfl⟩
  · intro t ht
    cases ht
    exact leaves_of_ready hready es

end MacRlcSplit.Um
