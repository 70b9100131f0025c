-- A UM entity between its upper layer and the MAC: the calls that reach it,
-- and its runs over any interleaving of them.
import MacRlcSplit.Lib.Run
import MacRlcSplit.Um.Receiver
import MacRlcSplit.Um.Segment

namespace MacRlcSplit.Um

open Lib
open Am (Byte Mem Ctxt MacTbInd)

/-! ## The MAC's calls -/

/-- One transport block of `rlc_um_receive`. -/
def rlcUmReceive (s : Entity) (ctxt : Ctxt) (tb : MacTbInd) : Option Entity :=
  if tb.size % 2 ^ 16 = 0 then some s
  else (rlcUmReceiveProcessDar s.rx ctxt tb).map fun rx => { s with rx := rx }

def checkTimer (s : Entity) (ctxt : Ctxt) : Option Entity :=
  (rlcUmCheckTimerDarTimeOut s.rx ctxt).map fun rx => { s with rx := rx }

/-- `rlc_um_mac_status_indication`: t-Reordering is checked, and the grant is kept. -/
def rlcUmMacStatusIndication (s : Entity) (ctxt : Ctxt) (tbs_size : Nat) : Option Entity :=
  (checkTimer s ctxt).map fun s =>
    { s with tx := { s.tx with nb_bytes_requested_by_mac := tbs_size % 2 ^ 16 } }

/-! ## Runs -/

/-- The calls that reach the entity. `rlc_um_mac_data_indication` is a `receive` for each of its
transport blocks and a `checkTimer`. -/
inductive Event where
  | dataReq (req : RlcUmDataReq)
  | macStatusIndication (ctxt : Ctxt) (tbs_size : Nat)
  | macDataRequest (junk : Mem)
  | receive (ctxt : Ctxt) (tb : MacTbInd)
  | checkTimer (ctxt : Ctxt)

/-- One call. It gives `none` where an assertion fails or the call does not return. -/
def step (s : Entity) : Event → Option Entity
  | .dataReq req => some { s with tx := rlcUmDataReq s.tx req }
  | .macStatusIndication ctxt tbs_size => rlcUmMacStatusIndication s ctxt tbs_size
  | .macDataRequest junk => some { s with tx := (rlcUmGetPdus s.tx junk).1 }
  | .receive ctxt tb => rlcUmReceive s ctxt tb
  | .checkTimer ctxt => checkTimer s ctxt

end MacRlcSplit.Um
