import Roster.Main
import Roster.Proofs.Http.Structured
import Roster.Proofs.Query.Availability
import Roster.Proofs.Query.FollowUp
import Roster.Proofs.Query.HighAvailability
import Roster.Proofs.Query.Indifference
import Roster.Proofs.Query.Overlap
import Roster.Proofs.Read.Published
import Roster.Proofs.Read.Uncached
import Roster.Proofs.Storage.Interchange
import Roster.Proofs.Sync.Anchored
import Roster.Proofs.Sync.Callers
import Roster.Proofs.Sync.Republication
import Roster.Proofs.Sync.Unpublished
import Roster.Rehearsal.Step
import Roster.Proofs.Decimal.Range
import Roster.Proofs.Query.Window
import Roster.Proofs.Sync.Accounting
import Roster.Proofs.Service.Attentive
import Roster.Proofs.Query.Guarded
import Roster.Proofs.Metrics.Balance
import Roster.Proofs.Query.Nearest
import Roster.Proofs.Query.Verification
import Roster.Proofs.Sync.Unchanged
import Roster.Proofs.Table.Spelling
import Roster.Proofs.Analytics.Fetch
import Roster.Proofs.Query.Budget
import Roster.Proofs.Query.Credentials
import Roster.Proofs.Query.Capped
import Roster.Proofs.Table.Latest
import Roster.Proofs.Table.Validation
import Roster.Proofs.Read.Readings
import Roster.Proofs.Decimal.Monotone
import Roster.Proofs.Time.Order
import Roster.Proofs.Query.Precedence
import Roster.Proofs.Query.Listing
import Roster.Proofs.Metrics.Gauge
import Roster.Proofs.Query.Target
import Roster.Proofs.Storage.Interrupted
import Roster.Proofs.Time.Calendar
import Roster.Proofs.Query.Shares
