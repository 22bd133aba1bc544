import YtdlBot.Framework.Machine
import YtdlBot.JobStore.Schema
import YtdlBot.JobStore.Steps
import YtdlBot.JobStore.Receipts
import YtdlBot.JobStore.Fencing
import YtdlBot.JobStore.Recovery
import YtdlBot.JobStore.Retention
import YtdlBot.JobStore.Supersession
import YtdlBot.JobStore.Grants
import YtdlBot.Delivery.Discipline
import YtdlBot.Delivery.World
import YtdlBot.Delivery.Reservations
import YtdlBot.Delivery.AtMostOnce
import YtdlBot.SingleFlight.Riding
import YtdlBot.Materialization.Release
import YtdlBot.Framework.Tally
import YtdlBot.SingleFlight.Group
import YtdlBot.SingleFlight.Sharing
import YtdlBot.Materialization.Users
import YtdlBot.Framework.Routine
import YtdlBot.DownloadQueue.Permits
import YtdlBot.Process.Slots
import YtdlBot.Process.Fence
import YtdlBot.ResourceBudget.Budget
import YtdlBot.Transport.Reassembly
import YtdlBot.Transport.Origins
import YtdlBot.Leases.Renewal
import YtdlBot.Framework.Json
import YtdlBot.Framework.TokenBucket
import YtdlBot.Limiter.Agreement
import YtdlBot.MediaCache.Isolation
import YtdlBot.Race.CircuitBreaker
import YtdlBot.Race.Probing
import YtdlBot.Retry.OnRetry
import YtdlBot.Retry.Processes
import YtdlBot.Retry.Tokens
import YtdlBot.Framework.Environment
import YtdlBot.Leases.Atomicity
import YtdlBot.Leases.BlindPromotion
import YtdlBot.Materialization.Race
import YtdlBot.Race.Attempts
import YtdlBot.Race.Completion
import YtdlBot.Race.Fairness
import YtdlBot.Race.Winner
import YtdlBot.Delivery.Albums
import YtdlBot.Delivery.Captions
import YtdlBot.DownloadQueue.Order
import YtdlBot.Framework.ExpiryMap
import YtdlBot.Framework.LeaseTable
import YtdlBot.MediaCache.Expiry
import YtdlBot.MediaCache.Leases
import YtdlBot.MediaCache.Lifetimes
import YtdlBot.Tasks.Joins
import YtdlBot.Framework.Fallible
import YtdlBot.Media.Albums
import YtdlBot.Media.Alignment
import YtdlBot.Transform.Agreement
import YtdlBot.Framework.Termination
import YtdlBot.Materialization.Exits
import YtdlBot.Media.Stability
import YtdlBot.Framework.Texts
import YtdlBot.Media.Callbacks
import YtdlBot.Race.Opening
import YtdlBot.Framework.Guarded
import YtdlBot.Transport.Contract
import YtdlBot.Media.Resolutions
import YtdlBot.Media.Soundtracks
import YtdlBot.Media.Numerals
import YtdlBot.Drain.Worker
import YtdlBot.Drain.Handlers
import YtdlBot.Drain.Shutdown
import YtdlBot.Media.Proxies
import YtdlBot.Framework.Phases
import YtdlBot.Transport.Ledger
import YtdlBot.Transport.Downloads
import YtdlBot.Transport.Cleanup
import YtdlBot.Materialization.Fallthrough
import YtdlBot.Framework.JsonReader
import YtdlBot.MediaCache.Codec
import YtdlBot.MediaCache.Texts
import YtdlBot.Delivery.Records
import YtdlBot.Pipeline.Custody
