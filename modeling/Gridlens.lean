import Gridlens.Sql.Query
import Gridlens.Bitemporal.History
import Gridlens.Bitemporal.Changes
import Gridlens.TimeAxis
import Gridlens.Text.Digits
import Gridlens.Calendar
import Gridlens.Gate
import Gridlens.Silver
import Gridlens.AsOf
import Gridlens.Gold
import Gridlens.Compression
import Gridlens.Retry
import Gridlens.LandingOrder
import Gridlens.Restatement
import Gridlens.Audit
import Gridlens.Effects.Program
import Gridlens.Outside
import Gridlens.Jobs
import Gridlens.Producer
import Gridlens.Calls
import Gridlens.Identity
import Gridlens.Quarantine
import Gridlens.SettlementDays
import Gridlens.EnergyExact
import Gridlens.Positions
import Gridlens.Resume
import Gridlens.IngestRetry
import Gridlens.Rebuild
import Gridlens.Effects.Schedule
import Gridlens.Manifest
import Gridlens.RteParse
import Gridlens.RteNet
import Gridlens.Bitemporal.Overlay
import Gridlens.CountedOnce
import Gridlens.Flow.Credit
import Gridlens.RateLimit
import Gridlens.Effects.Running
import Gridlens.RteLoop
import Gridlens.RteAccount
import Gridlens.RteClient
import Gridlens.Text.Replace
import Gridlens.Redaction
import Gridlens.Decimals
import Gridlens.Wire.Codec
import Gridlens.Serialization
import Gridlens.Text.Json
import Gridlens.Numerals
import Gridlens.Staging
import Gridlens.Replay
import Gridlens.Deliveries
import Gridlens.Invariants
import Gridlens.Resolutions
import Gridlens.Clocks.Zone
import Gridlens.WallClock
import Gridlens.WireFormat
import Gridlens.RteTotals
import Gridlens.Teardown
import Gridlens.QueryResults
import Gridlens.Gaps
import Gridlens.Completeness
import Gridlens.Effects.Pauses
import Gridlens.ProducerLoop
import Gridlens.Effects.Attempts
import Gridlens.EntsoeClient
import Gridlens.AuditPlan
import Gridlens.Flow.Tasks
import Gridlens.AuditRun
import Gridlens.AuditVerdict
import Gridlens.GapRepair
import Gridlens.RepairExact
import Gridlens.Firings
import Gridlens.ScheduledAudit
import Gridlens.Repeats
import Gridlens.StreamCoverage
import Gridlens.DataTests
import Gridlens.TeardownDone
import Gridlens.QualityRun
