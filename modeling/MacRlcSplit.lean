import MacRlcSplit.Split.Delivery
import MacRlcSplit.Split.Grants
import MacRlcSplit.Split.SystemInfo
import MacRlcSplit.Split.Ccch
import MacRlcSplit.Am.Accounting
import MacRlcSplit.Am.Confirm
import MacRlcSplit.Um.Window
import MacRlcSplit.Um.Delivery
import MacRlcSplit.Pdcp.Uniqueness
import MacRlcSplit.Pdcp.Agreement
import MacRlcSplit.Pdcp.RoundTrip
import MacRlcSplit.Pdcp.Integrity
import MacRlcSplit.Mac.Downlink
import MacRlcSplit.Mac.UplinkSdus
import MacRlcSplit.Mac.Cce
import MacRlcSplit.Mac.RaCycle
import MacRlcSplit.Mac.UlBuffers
import MacRlcSplit.Mac.UeBsr
import MacRlcSplit.Nas.CountRuns
import MacRlcSplit.Nas.Receptions
import MacRlcSplit.Nas.EsmRuns
import MacRlcSplit.Rrc.S1apRuns
import MacRlcSplit.Rrc.DrbMapping
import MacRlcSplit.Rrc.ActivationRuns
import MacRlcSplit.Rrc.SetupResponse
import MacRlcSplit.Nas.Ebr
import MacRlcSplit.Nas.Tft
import MacRlcSplit.Split.Room
import MacRlcSplit.Split.Robust
import MacRlcSplit.Am.Report
import MacRlcSplit.Phy.Dlsch
import MacRlcSplit.Am.Holes
import MacRlcSplit.Am.Parsing
import MacRlcSplit.Am.StatusCodec
import MacRlcSplit.Am.Reestablish
import MacRlcSplit.Um.Reconfigure
import MacRlcSplit.Um.Segments
