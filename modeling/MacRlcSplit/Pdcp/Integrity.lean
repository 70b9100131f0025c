-- Integrity protection at the receiver of an SRB: what happens to a message
-- whose MAC-I is wrong.
import MacRlcSplit.Pdcp.Count

namespace MacRlcSplit.Pdcp.Integrity

open Am (Byte)

/-! ## The MAC-I of a PDU -/

section Mac

variable (osa : Osa) (p : Entity) (rb_id : Nat) (pdu : List Byte)

/-- The parameters of the receiver for this PDU, with a key and a length. -/
def parameters (key : List Byte) (length : Nat) : StreamCipher :=
  cipherOf (if p.is_ue then .downlink else .uplink) rb_id (p.rxCount true pdu) key length

/-- The PDU without its ciphering. -/
def deciphered : List Byte :=
  cipherFrom osa p.cipheringAlgorithm (parameters p rb_id pdu p.kRRCenc (pdu.length - 5)) 1 pdu

/-- The last four bytes are the MAC-I of the bytes before them under the key of the bearer and the
COUNT of the receiver. Without an algorithm, any four bytes are. -/
def Verifies : Prop := p.integrityProtAlgorithm = 0 ∨
    streamComputeIntegrity osa p.integrityProtAlgorithm
        (parameters p rb_id pdu (p.kRRCint.drop 16) (pdu.length - 4)) (deciphered osa p rb_id pdu) =
      some (((deciphered osa p rb_id pdu).drop (pdu.length - 4)).take 4)

instance : Decidable (Verifies osa p rb_id pdu) := inferInstanceAs (Decidable (_ ∨ _))

end Mac

/-! ## A PDU at the receiver -/

/-- What ought to hold of a PDU: it is delivered only if it verifies, and if it does not, the SN and
the HFN of the bearer stay. -/
def Enforced (osa : Osa) (gtp : Bool) (coll : Coll) (ctxt : Ctxt) (srb : SrbIdentity) (p : Entity)
    (pdu : List Byte) : Prop :=
  ∀ coll' ups, pdcpDataInd osa gtp coll ctxt true srb pdu = some (coll', ups) →
    (∀ rb_id sdu, .rrcDataInd rb_id sdu ∈ ups → Verifies osa p srb pdu) ∧
      (¬ Verifies osa p srb pdu → ∀ q, coll' (collKey ctxt srb true) = some q →
        q.next_pdcp_rx_sn = p.next_pdcp_rx_sn ∧ q.rx_hfn = p.rx_hfn)

variable {osa : Osa} {gtp : Bool} {coll : Coll} {ctxt : Ctxt} {srb : SrbIdentity} {p : Entity}
  {pdu : List Byte}

theorem srb_mod (srb : SrbIdentity) : srb.1 % maxDRB = srb.1 :=
  Nat.mod_eq_of_lt (lt_of_le_of_lt srb.2.2 (by decide))

theorem pdcpDataInd_srb (osa : Osa) (gtp : Bool) (hp : coll (collKey ctxt srb true) = some p)
    (hpdu : pdu.length ≠ 0) : pdcpDataInd osa gtp coll ctxt true srb pdu =
      some (Function.update coll (collKey ctxt srb true)
        (some (p.dataInd osa gtp ctxt true srb pdu).1),
        (p.dataInd osa gtp ctxt true srb pdu).2) := by
  have hmax : NB_RB_MAX = 14 := rfl
  unfold pdcpDataInd
  rw [srb_mod, if_neg (by omega), hp]
  dsimp only
  rw [if_neg hpdu, if_neg (by omega)]

theorem pdcpDataInd_short (hp : coll (collKey ctxt srb true) = some p) (hshort : pdu.length < 5)
    {coll' : Coll} {ups : List Upper}
    (h : pdcpDataInd osa gtp coll ctxt true srb pdu = some (coll', ups)) :
    coll' (collKey ctxt srb true) = some p ∧ ups = [] := by
  by_cases hempty : pdu.length = 0
  · unfold pdcpDataInd at h
    rw [srb_mod, if_neg (by omega), hp] at h
    dsimp only at h
    rw [if_pos hempty] at h
    cases h
    exact ⟨hp, rfl⟩
  · have hdrop : p.dataInd osa gtp ctxt true srb pdu = (p, []) := by
      exact if_pos (show pdu.length < 1 + 4 by omega)
    rw [pdcpDataInd_srb osa gtp hp hempty, hdrop] at h
    cases h
    exact ⟨Function.update_self .., rfl⟩

theorem dataInd_long (osa : Osa) (gtp : Bool) (ctxt : Ctxt) (srb : SrbIdentity) (p : Entity)
    (hlong : 5 ≤ pdu.length) :
    ∃ q rb_id sdu, p.dataInd osa gtp ctxt true srb pdu = (q, [.rrcDataInd rb_id sdu]) := by
  have hlen : ¬ pdu.length < (rxHeader p true pdu).1 + tailerLen true := by
    show ¬ pdu.length < 1 + 4
    omega
  rw [Entity.dataInd]
  dsimp only
  rw [if_neg hlen]
  exact ⟨_, _, _, rfl⟩

/-! ## The result -/

/-- Integrity is enforced for exactly those PDUs that verify or are too short to be looked at. -/
theorem integrity_is_enforced_iff (hp : coll (collKey ctxt srb true) = some p) :
    Enforced osa gtp coll ctxt srb p pdu ↔ pdu.length < 5 ∨ Verifies osa p srb pdu := by
  constructor
  · intro enforced
    by_cases hshort : pdu.length < 5
    · exact .inl hshort
    -- A long PDU is delivered, so it must verify.
    have hlong : 5 ≤ pdu.length := by omega
    obtain ⟨q, rb_id, sdu, hind⟩ := dataInd_long osa gtp ctxt srb p hlong
    have hcall := pdcpDataInd_srb osa gtp hp (show pdu.length ≠ 0 by omega)
    rw [hind] at hcall
    exact .inr ((enforced _ _ hcall).1 rb_id sdu (List.mem_singleton.2 rfl))
  · rintro (hshort | hverifies) coll' ups hcall
    · obtain ⟨hkeep, rfl⟩ := pdcpDataInd_short hp hshort hcall
      refine ⟨fun _ _ hmem => (by cases hmem), fun _ q hq => ?_⟩
      cases hkeep.symm.trans hq
      exact ⟨rfl, rfl⟩
    · exact ⟨fun _ _ _ => hverifies, fun hnot => absurd hverifies hnot⟩

/-! ## Examples -/

def protectedSrb : Entity :=
  configAdd anEnb (srbConfig { srb_Identity := ⟨1, srb_one⟩ }) { security_mode := 0x20 }

def coll1 : Coll := fun key => if key = collKey anEnb 1 true then some protectedSrb else none

/-- A PDU with the right MAC-I. -/
theorem integrity_is_enforced_for_a_message :
    Enforced Osa.plain true coll1 anEnb ⟨1, by decide⟩ protectedSrb [0, 1, 2, 3, 0, 0, 0, 0] :=
  (integrity_is_enforced_iff (if_pos rfl)).2 (.inr (by decide))

/-- A PDU with another MAC-I: its SDU goes to the RRC, and the SN of the bearer moves on to 6. -/
theorem a_forged_message_is_delivered : protectedSrb.security_activated = true ∧
      ¬ Verifies Osa.plain protectedSrb 1 [5, 1, 2, 3, 0xff, 0xff, 0xff, 0xff] ∧
      protectedSrb.next_pdcp_rx_sn = 0 ∧
      (pdcpDataInd Osa.plain true coll1 anEnb true 1 [5, 1, 2, 3, 0xff, 0xff, 0xff, 0xff]).map
          (fun result => ((result.1 (collKey anEnb 1 true)).map Entity.next_pdcp_rx_sn, result.2)) =
        some (some 6, [.rrcDataInd 1 [1, 2, 3]]) :=
  ⟨by decide, by decide, by decide, by decide +kernel⟩

end MacRlcSplit.Pdcp.Integrity
