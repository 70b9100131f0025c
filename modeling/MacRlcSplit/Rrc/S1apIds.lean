-- The ids by which S1AP and the RRC name a UE: the two tables of id records,
-- the messages of the MME that are led to a context through them, and what
-- they reach when RNTIs are used again.
import MacRlcSplit.Rrc.ContextRuns
import Mathlib.Data.List.AList

namespace MacRlcSplit.Rrc

/-! ## The functions -/

def UE_INITIAL_ID_INVALID : Nat := 0

/-- `rrc_ue_s1ap_ids_s`. -/
structure S1apIds where
  ue_initial_id : Nat
  eNB_ue_s1ap_id : Nat
  ue_rnti : Nat
deriving DecidableEq, Repr

/-- `s1ap_eNB_ue_context_s`, with the block of the context that the id was assigned for. -/
structure UeDesc where
  ue_initial_id : Nat
  owner : Nat
deriving DecidableEq, Repr

/-- The contexts and the id records of the RRC, and the descriptors of S1AP by `eNB_ue_s1ap_id`. -/
structure S1ap where
  rrc : Contexts := {}
  initial_id2_s1ap_ids : AList fun _ : Nat => S1apIds := ∅
  s1ap_id2_s1ap_ids : AList fun _ : Nat => S1apIds := ∅
  ue_initial_id : Nat := 0
  s1ap_ue_head : AList fun _ : Nat => UeDesc := ∅

/-- The context in the tree is written to. -/
def Contexts.write (s : Contexts) (c : UeContext) : Contexts :=
  { s with rrc_ue_head := (s.rrc_ue_head.remove c.rnti).insert c }

namespace S1ap

/-- `rrc_eNB_S1AP_get_ue_ids`. A message with an initial id is looked up by it alone, and its
`eNB_ue_s1ap_id` is noted in both tables the first time. -/
def getUeIds (s : S1ap) (ue_initial_id eNB_ue_s1ap_id : Nat) : Option S1apIds × S1ap :=
  if ue_initial_id = UE_INITIAL_ID_INVALID then
    (if 0 < eNB_ue_s1ap_id then s.s1ap_id2_s1ap_ids.lookup eNB_ue_s1ap_id else none, s)
  else
    match s.initial_id2_s1ap_ids.lookup ue_initial_id with
    | none => (none, s)
    | some result =>
      if 0 < eNB_ue_s1ap_id ∧ s.s1ap_id2_s1ap_ids.lookup eNB_ue_s1ap_id = none then
        let result := { result with eNB_ue_s1ap_id := eNB_ue_s1ap_id }
        (some result, { s with
          initial_id2_s1ap_ids := s.initial_id2_s1ap_ids.insert ue_initial_id result
          s1ap_id2_s1ap_ids := s.s1ap_id2_s1ap_ids.insert eNB_ue_s1ap_id result })
      else
        (some result, s)

def removeUeIds (s : S1ap) (ue_ids : S1apIds) : S1ap :=
  { s with
    s1ap_id2_s1ap_ids :=
      if 0 < ue_ids.eNB_ue_s1ap_id then s.s1ap_id2_s1ap_ids.erase
        ue_ids.eNB_ue_s1ap_id else s.s1ap_id2_s1ap_ids
    initial_id2_s1ap_ids :=
      if ue_ids.ue_initial_id ≠ UE_INITIAL_ID_INVALID then s.initial_id2_s1ap_ids.erase
        ue_ids.ue_initial_id
      else s.initial_id2_s1ap_ids }

def getUeContext (s : S1ap) (ue_initial_id eNB_ue_s1ap_id : Nat) : Option UeContext × S1ap :=
  let (temp, s) := s.getUeIds ue_initial_id eNB_ue_s1ap_id
  (temp.bind fun ue_ids => s.rrc.rrcEnbGetUeContext ue_ids.ue_rnti, s)

def getNextUeInitialId (ue_initial_id : Nat) : Nat :=
  let next := (ue_initial_id + 1) % 2 ^ 16
  if next = UE_INITIAL_ID_INVALID then 1 else next

/-- `rrc_eNB_send_S1AP_NAS_FIRST_REQ` for the context of an RNTI. -/
def recordFirstReq (s : S1ap) (rnti : Nat) (c : UeContext) : S1ap :=
  let ue_initial_id := getNextUeInitialId s.ue_initial_id
  { s with
    rrc := s.rrc.write { c with ue_initial_id := ue_initial_id }
    ue_initial_id := ue_initial_id
    initial_id2_s1ap_ids :=
      s.initial_id2_s1ap_ids.insert ue_initial_id ⟨ue_initial_id, UE_INITIAL_ID_INVALID, rnti⟩ }

/-- The first NAS message of the UE of an RNTI, and the descriptor that S1AP makes of it unless it
has no MME: with the number that is drawn last, which no other descriptor has. -/
def sendNasFirstReq (s : S1ap) (rnti : Nat) (drawn : Option Nat) : Option S1ap :=
  match s.rrc.rrcEnbGetUeContext rnti with
  | none => some s
  | some c =>
    let sent := s.recordFirstReq rnti c
    match drawn with
    | none => some sent
    | some rand =>
      let eNB_ue_s1ap_id := rand % 2 ^ 24
      if s.s1ap_ue_head.lookup eNB_ue_s1ap_id = none then
        some { sent with s1ap_ue_head := s.s1ap_ue_head.insert eNB_ue_s1ap_id ⟨sent.ue_initial_id,
          c.block⟩ }
      else
        none

/-- The messages about one UE that the RRC has a handler for. -/
inductive Message where
  | downlinkNas
  | initialContextSetupReq
  | ueCtxtModificationReq
  | ueContextReleaseReq
  | eRabSetupReq
  | ueContextReleaseCommand
deriving DecidableEq, Repr

/-- The initial id that is looked up for a message, where `d` is the descriptor of its
`eNB_ue_s1ap_id`. -/
def Message.ueInitialId (d : UeDesc) : Message → Nat
  | .downlinkNas | .initialContextSetupReq | .eRabSetupReq => d.ue_initial_id
  | .ueCtxtModificationReq | .ueContextReleaseReq | .ueContextReleaseCommand =>
    UE_INITIAL_ID_INVALID

/-- What a message writes into the context that it is applied to. -/
def Message.write (eNB_ue_s1ap_id : Nat) (c : UeContext) : Message → UeContext
  | .downlinkNas => if c.eNB_ue_s1ap_id = 0 then { c with eNB_ue_s1ap_id := eNB_ue_s1ap_id } else c
  | .initialContextSetupReq | .eRabSetupReq => { c with eNB_ue_s1ap_id := eNB_ue_s1ap_id }
  | .ueCtxtModificationReq | .ueContextReleaseReq | .ueContextReleaseCommand => c

def applied (s : S1ap) (m : Message) (eNB_ue_s1ap_id : Nat) (d : UeDesc) : Option UeContext :=
  (s.getUeContext (m.ueInitialId d) eNB_ue_s1ap_id).1

/-- The handlers of the RRC. The one for downlink NAS messages reads the context before it asks
whether there is one, and the one for the release command takes the records of the id out. -/
def process (s : S1ap) (m : Message) (eNB_ue_s1ap_id : Nat) (d : UeDesc) : Option S1ap :=
  let looked := (s.getUeContext (m.ueInitialId d) eNB_ue_s1ap_id).2
  if m = .ueContextReleaseCommand then
    match (looked.getUeIds UE_INITIAL_ID_INVALID eNB_ue_s1ap_id).1 with
    | none => some looked
    | some ue_ids => some (looked.removeUeIds ue_ids)
  else
    match s.applied m eNB_ue_s1ap_id d with
    | none => if m = .downlinkNas then none else some looked
    | some c => some { looked with rrc := looked.rrc.write (m.write eNB_ue_s1ap_id c) }

/-- What S1AP does to its descriptor: the initial id goes with the first setup request, and the
descriptor with the answer to the release command. -/
def updateDesc (s : S1ap) (m : Message) (eNB_ue_s1ap_id : Nat) (d : UeDesc) : S1ap :=
  match m with
  | .initialContextSetupReq =>
    { s with s1ap_ue_head := s.s1ap_ue_head.insert eNB_ue_s1ap_id { d with ue_initial_id := 0 } }
  | .ueContextReleaseCommand => { s with s1ap_ue_head := s.s1ap_ue_head.erase eNB_ue_s1ap_id }
  | _ => s

/-- A message of the MME. S1AP discards it unless it has a descriptor for its id. -/
def receive (s : S1ap) (m : Message) (eNB_ue_s1ap_id : Nat) : Option S1ap :=
  match s.s1ap_ue_head.lookup eNB_ue_s1ap_id with
  | none => some s
  | some d => (s.process m eNB_ue_s1ap_id d).map fun s => s.updateDesc m eNB_ue_s1ap_id d

inductive Event where
  | contexts (e : Contexts.Event)
  | nasFirstReq (rnti : Nat) (drawn : Option Nat)
  | message (m : Message) (eNB_ue_s1ap_id : Nat)
deriving DecidableEq, Repr

def step (s : S1ap) : Event → Option S1ap
  | .contexts e => (Contexts.step s.rrc e).map fun rrc => { s with rrc := rrc }
  | .nasFirstReq rnti drawn => s.sendNasFirstReq rnti drawn
  | .message m eNB_ue_s1ap_id => s.receive m eNB_ue_s1ap_id

end S1ap

end MacRlcSplit.Rrc
