import GoClean.Lib.BigEndian
import GoClean.Lib.AssocMap
import GoClean.Lib.Transition
import GoClean.Lib.Threads
import GoClean.Lib.Keyset
import GoClean.Lib.Locking
import GoClean.Lib.WaitFor
import GoClean.Lib.Purge
import GoClean.Lib.TokenBucket
import GoClean.Lib.Recency
import GoClean.Go.Sha256
import GoClean.Go.Text
import GoClean.Go.Uuid
import GoClean.Go.Base64
import GoClean.Go.Time
import GoClean.Go.Utf8
import GoClean.Go.Json
import GoClean.Item.Errors
import GoClean.Item.Model
import GoClean.Item.Idempotency
import GoClean.Item.Cursor
import GoClean.Item.CursorLaws
import GoClean.Item.Service
import GoClean.Memory.Store
import GoClean.Memory.Machine
import GoClean.Memory.Invariant
import GoClean.Memory.AtMostOnce
import GoClean.Memory.AllOrNothing
import GoClean.Memory.Provenance
import GoClean.Memory.Listing
import GoClean.Memory.Traversal
import GoClean.Postgres.Store
import GoClean.Postgres.Machine
import GoClean.Postgres.Invariant
import GoClean.Postgres.AtMostOnce
import GoClean.Postgres.Deadlock
import GoClean.Postgres.Retention
import GoClean.Postgres.Schema
import GoClean.Memory.Queries
import GoClean.Go.Clock
import GoClean.Go.Fmt
import GoClean.Go.Strings
import GoClean.Go.Url
import GoClean.Go.Net
import GoClean.Go.NetLaws
import GoClean.RateLimit.Limiter
import GoClean.RateLimit.Bucket
import GoClean.RateLimit.Laws
import GoClean.RateLimit.Admission
import GoClean.RateLimit.Eviction
import GoClean.RateLimit.Isolation
import GoClean.RateLimit.Expiry
import GoClean.RateLimit.Invariant
import GoClean.RateLimit.Recency
import GoClean.RateLimit.Waiting
import GoClean.RateLimit.Remaining
import GoClean.Auth.Bearer
import GoClean.Auth.Grammar
import GoClean.App.Config
import GoClean.App.Telemetry
import GoClean.App.Compose
import GoClean.App.Production
import GoClean.Http.Security
import GoClean.Http.FailedCredentials
import GoClean.Http.RetryAfter
import GoClean.Http.Peers
import GoClean.Item.Create
import GoClean.Memory.Policy
import GoClean.Memory.CursorListing
import GoClean.Lib.Rewriting
import GoClean.Bootstrap.Text
import GoClean.Bootstrap.Run
import GoClean.Bootstrap.TextLaws
import GoClean.Bootstrap.Replacements
import GoClean.Bootstrap.Segments
import GoClean.Bootstrap.Module
import GoClean.Bootstrap.Idempotent
import GoClean.Metrics.Route
import GoClean.Item.CursorRejection
import GoClean.Item.ListFailures
import GoClean.Postgres.Listing
import GoClean.HttpApi.Handler
import GoClean.HttpApi.InvalidCursor
import GoClean.Go.JsonDecode
import GoClean.Go.JsonDecodeLaws
import GoClean.Go.JsonObject
import GoClean.HttpApi.CreateBody
import GoClean.Go.UuidParse
import GoClean.Go.Rfc3339
import GoClean.HttpApi.Endpoints
import GoClean.Http.Router
import GoClean.Http.Observability
import GoClean.Lib.Simulation
import GoClean.Item.ServiceCalls
import GoClean.Server.Machine
import GoClean.Server.Headers
import GoClean.Server.Invariant
import GoClean.Memory.Replies
import GoClean.Memory.Locks
import GoClean.Memory.Progress
import GoClean.Server.Provenance
import GoClean.Server.Location
import GoClean.Server.Contract
import GoClean.Memory.Retry
import GoClean.Server.Retry
