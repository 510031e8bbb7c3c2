import Loyalty.Client.Push
import Loyalty.Service.About
import Loyalty.Service.Booking
import Loyalty.Service.Reload
import Loyalty.Service.RuleSet
import Loyalty.Service.Startup
import Loyalty.Proofs.Condition.Visits
import Loyalty.Proofs.Engine.Selection
import Loyalty.Proofs.Service.Agreement
import Loyalty.Proofs.Service.Coherence
import Loyalty.Proofs.Service.Convergence
import Loyalty.Proofs.Service.Steps
import Loyalty.Proofs.Service.Staleness
import Loyalty.Proofs.Service.Overtaking
import Loyalty.Proofs.Number.Cents
import Loyalty.Proofs.Condition.Breaking
import Loyalty.Proofs.Engine.Resilience
import Loyalty.Proofs.Service.Rejection
import Loyalty.Proofs.Service.Circulation
import Loyalty.Proofs.Service.Recovery
import Loyalty.Proofs.Service.Writes
import Loyalty.Proofs.Json.Comparison
import Loyalty.Proofs.Store.Upserts
import Loyalty.Proofs.Service.Settling
import Loyalty.Proofs.Engine.Dependence
import Loyalty.Proofs.Service.Fillings
import Loyalty.Proofs.Cache
import Loyalty.Proofs.Client.Saving
import Loyalty.Proofs.Engine.Vacuity
import Loyalty.Proofs.Number.Nearest
import Loyalty.Proofs.Engine.Charges
import Loyalty.Proofs.Service.Bookings
import Loyalty.Proofs.Condition.Ordinary
import Loyalty.Proofs.Condition.Interchange
import Loyalty.Proofs.Value.Sameness
import Loyalty.Proofs.Condition.Trichotomy
import Loyalty.Proofs.Number.TiesToEven
import Loyalty.Proofs.Number.Literals
import Loyalty.Proofs.Number.Fewest
import Loyalty.Proofs.Number.Texts
import Loyalty.Proofs.Value.Rounding
import Loyalty.Proofs.Value.Dates
import Loyalty.Proofs.Engine.LostDates
import Loyalty.Proofs.Service.BookingDates
import Loyalty.Proofs.Service.Acceptance
import Loyalty.Proofs.Condition.Grammar
import Loyalty.Proofs.Condition.Defaults
import Loyalty.Proofs.Service.Sending
import Loyalty.Proofs.Condition.Joined
import Loyalty.Proofs.Client.Retries
import Loyalty.Proofs.Client.Checks
import Loyalty.Proofs.Engine.Loading
