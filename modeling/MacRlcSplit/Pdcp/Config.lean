-- How the RRC sets up bearers: `rrc_pdcp_config_asn1_req` adds, modifies and
-- releases them, and `pdcp_remove_UE` takes all bearers of a UE away.
import MacRlcSplit.Pdcp.Entity

namespace MacRlcSplit.Pdcp

open Function
open Am (Byte)

/-! ## The lists of the RRC -/

/-- `rlc_Config` of an SRB, by what is present in it. -/
inductive SrbRlcConfig where
  | nothing
  | explicitNothing
  | explicitValue
  | defaultValue
deriving DecidableEq, Repr

abbrev SrbIdentity := { n : Nat // 1 ≤ n ∧ n ≤ 2 }

abbrev DrbIdentity := { n : Nat // 1 ≤ n ∧ n ≤ 32 }

theorem srb_one : 1 ≤ 1 ∧ 1 ≤ 2 := by decide

theorem drb_one : 1 ≤ 1 ∧ 1 ≤ 32 := by decide

structure SrbToAddMod where
  srb_Identity : SrbIdentity
  rlc_Config : Option SrbRlcConfig := some .defaultValue
deriving DecidableEq

/-- `pdcp-SN-Size`, an enumeration in which `len7bits` is 0 and `len12bits` is 1. -/
inductive SnSize where
  | len7bits
  | len12bits
deriving DecidableEq, Repr

def SnSize.toNat : SnSize → Nat
  | .len7bits => 0
  | .len12bits => 1

/-- The profiles of `headerCompression`, in the order in which they are looked for. -/
inductive RohcProfile where
  | profile0x0001
  | profile0x0002
  | profile0x0003
  | profile0x0004
  | profile0x0006
  | profile0x0101
  | profile0x0102
  | profile0x0103
  | profile0x0104
deriving DecidableEq, Repr

def RohcProfile.toNat : RohcProfile → Nat
  | .profile0x0001 => 0x0001
  | .profile0x0002 => 0x0002
  | .profile0x0003 => 0x0003
  | .profile0x0004 => 0x0004
  | .profile0x0006 => 0x0006
  | .profile0x0101 => 0x0101
  | .profile0x0102 => 0x0102
  | .profile0x0103 => 0x0103
  | .profile0x0104 => 0x0104

/-- `PDCP-Config`; of the ROHC profiles it has, the first one. -/
structure PdcpConfig where
  /-- `statusReportRequired` of `rlc_AM`. -/
  rlc_AM : Option Bool := none
  /-- `pdcp_SN_Size` of `rlc_UM`. -/
  rlc_UM : Option SnSize := none
  rohc : Option RohcProfile := none
deriving DecidableEq, Repr

structure DrbToAddMod where
  drb_Identity : DrbIdentity
  pdcp_Config : Option PdcpConfig := some {}
deriving DecidableEq

/-- `security_modeP` and the keys of a call; the mode 0xff changes nothing. -/
structure Security where
  security_mode : UInt8 := 0xff
  kRRCenc : List Byte := []
  kRRCint : List Byte := []
  kUPenc : List Byte := []
deriving DecidableEq, Repr

/-! ## One bearer -/

def pdcpConfigSetSecurity (p : Entity) (sec : Security) : Entity :=
  if sec.security_mode ≤ 0x77 then
    { p with
      cipheringAlgorithm := sec.security_mode.toNat % 16
      integrityProtAlgorithm := sec.security_mode.toNat / 16
      kRRCenc := sec.kRRCenc
      kRRCint := sec.kRRCint
      kUPenc := sec.kUPenc
      security_activated := true }
  else p

def setSecurity (p : Entity) (sec : Security) : Entity :=
  if sec.security_mode ≠ 0xff then pdcpConfigSetSecurity p sec else p

theorem setSecurity_eq (p : Entity) (sec : Security) :
    ∃ ciphering integrity kRRCenc kRRCint kUPenc activated,
      setSecurity p sec =
        { p with
          cipheringAlgorithm := ciphering
          integrityProtAlgorithm := integrity
          kRRCenc := kRRCenc
          kRRCint := kRRCint
          kUPenc := kUPenc
          security_activated := activated } := by
  unfold setSecurity pdcpConfigSetSecurity
  split
  · split
    all_goals exact ⟨_, _, _, _, _, _, rfl⟩
  · exact ⟨_, _, _, _, _, _, rfl⟩

/-- `seq_num_size` for an `rb_snP`, which is compared with the values of the enumeration. -/
def snSize (rb_sn : Nat) : Nat :=
  if rb_sn = SnSize.len12bits.toNat then 12
  else if rb_sn = SnSize.len7bits.toNat then 7
  else 5

/-- The arguments of `pdcp_config_req_asn1` that describe the bearer. -/
structure BearerConfig where
  srb_flag : Bool
  rlc_mode : RlcMode
  lc_id : Nat
  rb_id : Nat
  rb_sn : Nat
  rb_report : Nat
  header_compression_profile : Nat
deriving DecidableEq, Repr

/-- `CONFIG_ACTION_ADD`, on an entity from `calloc`. -/
def configAdd (ctxt : Ctxt) (c : BearerConfig) (sec : Security) : Entity := setSecurity
    { is_ue := !ctxt.enb_flag
      is_srb := c.srb_flag
      lcid := c.lc_id
      rb_id := c.rb_id
      header_compression_profile := c.header_compression_profile
      status_report := c.rb_report
      seq_num_size := snSize c.rb_sn
      rlc_mode := c.rlc_mode
      last_submitted_pdcp_rx_sn := 4095 } sec

def configModify (p : Entity) (c : BearerConfig) (sec : Security) : Entity :=
  { setSecurity
      { p with
        header_compression_profile := c.header_compression_profile
        status_report := c.rb_report
        rlc_mode := c.rlc_mode } sec with
    seq_num_size := snSize c.rb_sn }

/-- Modified if it is there, else added. -/
def configured (ctxt : Ctxt) (slot : Option Entity) (c : BearerConfig) (sec : Security) : Entity :=
  match slot with
  | some p => configModify p c sec
  | none => configAdd ctxt c sec

/-! ## `rrc_pdcp_config_asn1_req` -/

/-- The variables that one turn of a loop leaves to the next, and one loop to the next. -/
structure Locals where
  srb_id : Nat := 0
  rlc_type : RlcMode := .none
  drb_sn : Nat := 12
  drb_report : Nat := 0
  header_compression_profile : Nat := 0
deriving DecidableEq, Repr

/-- The bearer that an SRB is configured as. -/
def srbConfig (x : SrbToAddMod) : BearerConfig where
  srb_flag := true
  rlc_mode := .am
  lc_id := x.srb_Identity
  rb_id := x.srb_Identity
  rb_sn := 5
  rb_report := 0
  header_compression_profile := 0

/-- One turn of the loop over `srb2add_list`. Without an RLC configuration, a new entity stays as
`calloc` made it. -/
def addSrb (ctxt : Ctxt) (sec : Security) (st : Coll × Locals) (x : SrbToAddMod) : Coll × Locals :=
  let key := collKey ctxt x.srb_Identity true
  let p := match x.rlc_Config with
    | some .explicitValue | some .defaultValue => configured ctxt (st.1 key) (srbConfig x) sec
    | _ => (st.1 key).getD {}
  (update st.1 key (some p), { st.2 with srb_id := x.srb_Identity, rlc_type := .am })

/-- The locals that `pdcp_Config` of a DRB changes. -/
def Locals.read (v : Locals) (c : PdcpConfig) : Locals :=
  let v := match c.rlc_AM with
    | some report =>
      { v with drb_report := report.toNat, drb_sn := SnSize.len12bits.toNat, rlc_type := .am }
    | none => v
  let v := match c.rlc_UM with
    | some size => { v with drb_sn := size.toNat, rlc_type := .um }
    | none => v
  { v with header_compression_profile := (c.rohc.map RohcProfile.toNat).getD 0 }

/-- The bearer that a DRB is configured as, once its `pdcp_Config` has been read. -/
def drbConfig (drb_id : Nat) (v : Locals) : BearerConfig where
  srb_flag := false
  rlc_mode := v.rlc_type
  lc_id := drb_id + 2
  rb_id := drb_id
  rb_sn := v.drb_sn
  rb_report := v.drb_report
  header_compression_profile := v.header_compression_profile

/-- One turn of the loop over `drb2add_list`. An id that is too high stops the process. -/
def addDrb (ctxt : Ctxt) (sec : Security) (st : Coll × Locals)
    (x : DrbToAddMod) : Option (Coll × Locals) :=
  if x.drb_Identity.1 < maxDRB then
    let key := collKey ctxt x.drb_Identity false
    match x.pdcp_Config with
    | none => some (update st.1 key (some ((st.1 key).getD {})), st.2)
    | some c =>
      let v := st.2.read c
      some (update st.1 key (some (configured ctxt (st.1 key) (drbConfig x.drb_Identity v) sec)), v)
  else none

/-- One turn of the loop over `drb2release_list`. The key is made from `srb_id`, which the loop
over the SRBs left. -/
def releaseDrb (ctxt : Ctxt) (st : Coll × Locals) (_drb_id : DrbIdentity) : Coll × Locals :=
  (update st.1 (collKey ctxt st.2.srb_id false) none, st.2)

/-- The lists of a call; a list that is missing is an empty one. -/
structure ConfigReq where
  srb2add : List SrbToAddMod := []
  drb2add : List DrbToAddMod := []
  drb2release : List DrbIdentity := []
  security : Security := {}

/-- The two loops that add bearers. -/
def addBearers (coll : Coll) (ctxt : Ctxt) (req : ConfigReq) : Option (Coll × Locals) :=
  req.drb2add.foldlM (addDrb ctxt req.security)
    (req.srb2add.foldl (addSrb ctxt req.security) (coll, {}))

/-- Without MBMS sessions, which are kept elsewhere. -/
def rrcPdcpConfigAsn1Req (coll : Coll) (ctxt : Ctxt) (req : ConfigReq) : Option Coll :=
  (addBearers coll ctxt req).map fun st => (req.drb2release.foldl (releaseDrb ctxt) st).1

/-! ## `pdcp_remove_UE` -/

def hashtableRemove (coll : Coll) (key : Nat) : Coll := update coll key none

/-- The SRBs 0 and 1 and all DRBs. -/
def pdcpRemoveUe (coll : Coll) (ctxt : Ctxt) : Coll :=
  (List.range maxDRB).foldl (fun coll drb_id => hashtableRemove coll (collKey ctxt drb_id false))
    ((List.range 2).foldl (fun coll srb_id => hashtableRemove coll (collKey ctxt srb_id true)) coll)

end MacRlcSplit.Pdcp
