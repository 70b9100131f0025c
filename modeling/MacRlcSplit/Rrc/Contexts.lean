-- The UE contexts of the RRC: the tree by RNTI, the allocator of local uids,
-- the connection requests that create a context or take one over, and the
-- removal of a UE.
import MacRlcSplit.Lib.Bitmap
import MacRlcSplit.Lib.Tree
import MacRlcSplit.Mac.UeList

namespace MacRlcSplit.Rrc

open Lib List

/-! ## The functions -/

def UID_LINEAR_ALLOCATOR_BITMAP_SIZE : Nat := Mac.NUMBER_OF_UE_MAX / 8 / 4 + 1

def UINT_MAX : Nat := 2 ^ 32 - 1

def NOT_A_RANDOM_UE_IDENTITY : Nat := 0xFFFFFFFF

structure STmsi where
  mme_code : Nat
  m_tmsi : Nat
deriving DecidableEq, Repr

/-- `rrc_eNB_ue_context_s`, with the fields that a UE is found by. -/
structure UeContext where
  /-- The block of memory that the context was allocated in. -/
  block : Nat
  local_uid : Nat
  rnti : Nat
  random_ue_identity : Nat
  Initialue_identity_s_TMSI : Option STmsi := none
  ue_initial_id : Nat := 0
  eNB_ue_s1ap_id : Nat := 0
deriving DecidableEq, Repr

/-- `eNB_RRC_INST`, with the number of contexts that were allocated so far. -/
structure Contexts where
  rrc_ue_head : Tree UeContext UeContext.rnti := Tree.empty
  bitmap : Nat → BitVec 32 := fun _ => 0#32
  Nb_ue : Nat := 0
  blocks : Nat := 0

namespace Contexts

def ues (s : Contexts) : List UeContext := s.rrc_ue_head.elems

def uidLinearAllocatorNew (s : Contexts) : Nat × Contexts :=
  let (uid, bitmap) := Bitmap.new UID_LINEAR_ALLOCATOR_BITMAP_SIZE s.bitmap
  (uid.getD UINT_MAX, { s with bitmap := bitmap })

def uidLinearAllocatorFree (s : Contexts) (uid : Nat) : Contexts :=
  { s with bitmap := Bitmap.free UID_LINEAR_ALLOCATOR_BITMAP_SIZE s.bitmap uid }

def rrcEnbGetUeContext (s : Contexts) (rnti : Nat) : Option UeContext := s.rrc_ue_head.find rnti

def rrcEnbUeContextRandomExist (s : Contexts) (ue_identity : Nat) : Option UeContext :=
  s.ues.find? fun c => c.random_ue_identity == ue_identity

def rrcEnbUeContextStmsiExist (s : Contexts) (s_tmsi : STmsi) : Option UeContext :=
  s.ues.find? fun c => c.Initialue_identity_s_TMSI == some s_tmsi

/-- A context as `rrc_eNB_allocate_new_UE_context` gives it, with the identities that are written
into it. -/
def newContext (s : Contexts) (rnti ue_identity : Nat) (s_tmsi : Option STmsi) : UeContext where
  block := s.blocks
  local_uid := s.uidLinearAllocatorNew.1
  rnti := rnti
  random_ue_identity := ue_identity
  Initialue_identity_s_TMSI := s_tmsi

def addContext (s : Contexts) (c : UeContext) : Contexts :=
  { s.uidLinearAllocatorNew.2 with rrc_ue_head := s.rrc_ue_head.insert c, blocks := s.blocks + 1 }

/-- `rrc_eNB_get_next_free_ue_context`, with the S-TMSI that the caller writes into the new
context. -/
def rrcEnbGetNextFreeUeContext (s : Contexts) (rnti ue_identity : Nat)
    (s_tmsi : Option STmsi) : Option Contexts :=
  match s.rrcEnbGetUeContext rnti with
  | some _ => none
  | none =>
    match s.rrcEnbUeContextRandomExist ue_identity with
    | some _ => none
    | none => some (s.addContext (s.newContext rnti ue_identity s_tmsi))

/-- `InitialUE-Identity`, with the number whose lowest octet is the first one of the random
value. -/
inductive UeIdentity where
  | randomValue (value : Nat)
  | sTmsi (s_tmsi : STmsi)
  | other
deriving DecidableEq, Repr

/-- What `rrc_eNB_decode_ccch` makes of a connection request: the context of the RNTI is used again,
a context is created, the context of the S-TMSI is taken over, or there is none. -/
inductive Outcome where
  | known
  | accepted
  | reconnected
  | refused
  | dropped
  | rejected
deriving DecidableEq, Repr

def countUe (s : Contexts) : Contexts := { s with Nb_ue := (s.Nb_ue + 1) % 2 ^ 8 }

/-- The context gets another RNTI: it is taken out of the tree and put in again. -/
def rekey (s : Contexts) (c : UeContext) (rnti : Nat) : Contexts :=
  { s with rrc_ue_head := (s.rrc_ue_head.remove c.rnti).insert { c with rnti := rnti } }

/-- The random value is copied to the last five of the eight octets of `random_value`. -/
def randomValue (value : Nat) : Nat := value * 2 ^ 24

/-- `rrc_eNB_decode_ccch` for an `rrcConnectionRequest`. -/
def rrcConnectionRequest (s : Contexts) (rnti : Nat)
    (ue_Identity : UeIdentity) : Outcome × Contexts :=
  match s.rrcEnbGetUeContext rnti with
  | some _ => (.known, s)
  | none =>
    match ue_Identity with
    | .randomValue value =>
      match s.rrcEnbUeContextRandomExist (randomValue value) with
      | some _ => (.refused, s)
      | none =>
        match s.rrcEnbGetNextFreeUeContext rnti (randomValue value) none with
        | none => (.refused, s)
        | some s => (.accepted, s.countUe)
    | .sTmsi s_tmsi =>
      match s.rrcEnbUeContextStmsiExist s_tmsi with
      | some c => (.reconnected, s.rekey c rnti)
      | none =>
        match s.rrcEnbGetNextFreeUeContext rnti NOT_A_RANDOM_UE_IDENTITY (some s_tmsi) with
        | none => (.dropped, s)
        | some s => (.accepted, s.countUe)
    | .other => (.rejected, s)

/-- `rrc_eNB_remove_ue_context`, as `rrc_eNB_free_UE` calls it for the context of a UE. -/
def rrcEnbFreeUe (s : Contexts) (rnti : Nat) : Contexts :=
  match s.rrcEnbGetUeContext rnti with
  | none => s
  | some c => { s with rrc_ue_head := s.rrc_ue_head.remove c.rnti }.uidLinearAllocatorFree
      c.local_uid

/-! ## What a request does -/

variable {s s' : Contexts} {rnti : Nat}

/-- The identity that the context of a request holds. -/
def Holds (c : UeContext) : UeIdentity → Prop
  | .randomValue value => c.random_ue_identity = randomValue value
  | .sTmsi s_tmsi => c.Initialue_identity_s_TMSI = some s_tmsi
  | .other => False

theorem randomExist_eq_none {ue_identity : Nat} :
    s.rrcEnbUeContextRandomExist ue_identity = none ↔ ∀ c ∈ s.ues,
    c.random_ue_identity ≠ ue_identity := by
  simp [rrcEnbUeContextRandomExist, find?_eq_none]

theorem stmsiExist_eq_none {s_tmsi : STmsi} :
    s.rrcEnbUeContextStmsiExist s_tmsi = none ↔ ∀ c ∈ s.ues,
    c.Initialue_identity_s_TMSI ≠ some s_tmsi := by
  simp [rrcEnbUeContextStmsiExist, find?_eq_none]

theorem getNextFree_eq {ue_identity : Nat} (hrnti : s.rrcEnbGetUeContext rnti = none)
    (hid : ∀ c ∈ s.ues, c.random_ue_identity ≠ ue_identity) (s_tmsi : Option STmsi) :
    s.rrcEnbGetNextFreeUeContext rnti ue_identity s_tmsi =
      some (s.addContext (s.newContext rnti ue_identity s_tmsi)) := by
  rw [rrcEnbGetNextFreeUeContext, hrnti, randomExist_eq_none.2 hid]

theorem request_cases (s : Contexts) (rnti : Nat) (ue_Identity : UeIdentity) :
    (s.rrcConnectionRequest rnti ue_Identity).2 = s ∨
    (s.rrcEnbGetUeContext rnti = none ∧ ∃ c : UeContext,
      c.rnti = rnti ∧ c.local_uid = s.uidLinearAllocatorNew.1 ∧
      c.block = s.blocks ∧ (s.rrcConnectionRequest rnti ue_Identity).2 = (s.addContext c).countUe) ∨
    (s.rrcEnbGetUeContext rnti = none ∧ ∃ s_tmsi, ue_Identity = .sTmsi s_tmsi ∧ ∃ c ∈ s.ues,
      c.Initialue_identity_s_TMSI = some s_tmsi ∧
      (s.rrcConnectionRequest rnti ue_Identity).2 = s.rekey c rnti) := by
  unfold rrcConnectionRequest
  cases hrnti : s.rrcEnbGetUeContext rnti with
  | some c => exact .inl rfl
  | none =>
    cases ue_Identity with
    | other => exact .inl rfl
    | randomValue value =>
      cases hid : s.rrcEnbUeContextRandomExist (randomValue value) with
      | some c =>
        left
        simp only [hid]
      | none =>
        right; left
        refine ⟨rfl, s.newContext rnti (randomValue value) none, rfl, rfl, rfl, ?_⟩
        simp only [hid, getNextFree_eq hrnti (randomExist_eq_none.1 hid)]
    | sTmsi s_tmsi =>
      cases hstmsi : s.rrcEnbUeContextStmsiExist s_tmsi with
      | some c =>
        right; right
        have hc := find?_some hstmsi
        refine ⟨rfl, s_tmsi, rfl, c, mem_of_find?_eq_some hstmsi, by simpa using hc, ?_⟩
        simp only [hstmsi]
      | none =>
        cases hid : s.rrcEnbUeContextRandomExist NOT_A_RANDOM_UE_IDENTITY with
        | some c =>
          left
          simp only [hstmsi, rrcEnbGetNextFreeUeContext, hrnti, hid]
        | none =>
          right; left
          refine ⟨rfl, s.newContext rnti NOT_A_RANDOM_UE_IDENTITY (some s_tmsi), rfl, rfl, rfl, ?_⟩
          simp only [hstmsi, getNextFree_eq hrnti (randomExist_eq_none.1 hid)]

/-- An identity that no context holds, on an RNTI without a context: the request is accepted, unless
the UE comes with an S-TMSI and another one has done so before. -/
theorem request_accepted {ue_Identity : UeIdentity} (hrnti : s.rrcEnbGetUeContext rnti = none)
    (hid : ∀ c ∈ s.ues, ¬ Holds c ue_Identity) (hknown : ue_Identity ≠ .other)
    (hfirst : ∀ s_tmsi, ue_Identity = .sTmsi s_tmsi → ∀ c ∈ s.ues,
      c.random_ue_identity ≠ NOT_A_RANDOM_UE_IDENTITY) :
    ∃ c : UeContext, c.rnti = rnti ∧ Holds c ue_Identity ∧
      s.rrcConnectionRequest rnti ue_Identity = (.accepted, (s.addContext c).countUe) := by
  unfold rrcConnectionRequest
  rw [hrnti]
  cases ue_Identity with
  | other => exact absurd rfl hknown
  | randomValue value =>
    refine ⟨s.newContext rnti (randomValue value) none, rfl, rfl, ?_⟩
    simp only [randomExist_eq_none.2 hid, getNextFree_eq hrnti hid]
  | sTmsi s_tmsi =>
    refine ⟨s.newContext rnti NOT_A_RANDOM_UE_IDENTITY (some s_tmsi), rfl, rfl, ?_⟩
    simp only [stmsiExist_eq_none.2 hid, getNextFree_eq hrnti (hfirst s_tmsi rfl)]

theorem ues_add {c : UeContext} (hrnti : s.rrcEnbGetUeContext c.rnti = none) :
    (s.addContext c).ues.Perm (c :: s.ues) :=
  Tree.insert_perm hrnti

theorem ues_rekey {c : UeContext} (hc : c ∈ s.ues) (hrnti : s.rrcEnbGetUeContext rnti = none) :
    ∃ others, s.ues.Perm (c :: others) ∧
    (s.rekey c rnti).ues.Perm ({ c with rnti := rnti } :: others) := by
  refine ⟨(s.rrc_ue_head.remove c.rnti).elems, Tree.remove_perm hc, Tree.insert_perm ?_⟩
  rw [Tree.find_remove]
  split
  · rfl
  · exact hrnti

theorem ues_free {c : UeContext} (hfind : s.rrcEnbGetUeContext rnti = some c) :
    s.ues.Perm (c :: (s.rrcEnbFreeUe rnti).ues) := by
  rw [rrcEnbFreeUe, hfind]
  exact Tree.remove_perm (Tree.find_eq_some.1 hfind).1

end Contexts

end MacRlcSplit.Rrc
