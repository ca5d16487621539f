import WarsawEvents.Foundations.Runs
import WarsawEvents.Foundations.PyText
import WarsawEvents.Accounts.Users
import WarsawEvents.Accounts.Auth
import WarsawEvents.Accounts.System
import WarsawEvents.Accounts.RowFacts
import WarsawEvents.Accounts.Reachable
import WarsawEvents.Accounts.GoogleOwnership
import WarsawEvents.Accounts.LinkSafety
import WarsawEvents.Accounts.Interleaved
import WarsawEvents.Accounts.EmailProof
import WarsawEvents.Accounts.AttemptCap
import WarsawEvents.Foundations.Coupling
import WarsawEvents.RowSecurity.Database
import WarsawEvents.RowSecurity.Endpoints
import WarsawEvents.RowSecurity.Transparency
import WarsawEvents.RowSecurity.Seen
import WarsawEvents.RowSecurity.Privacy
import WarsawEvents.Foundations.BestScore
import WarsawEvents.Foundations.SideBySide
import WarsawEvents.Foundations.KeyedRows
import WarsawEvents.Ingestion.Cards
import WarsawEvents.Ingestion.Dedup
import WarsawEvents.Ingestion.Freshness
import WarsawEvents.Ingestion.Pipeline
import WarsawEvents.Ingestion.UpsertKeys
import WarsawEvents.Ingestion.ConcurrentRuns
import WarsawEvents.Ingestion.Provenance
import WarsawEvents.Ingestion.Rerun
import WarsawEvents.Ingestion.CleanCatalog
import WarsawEvents.Ingestion.TwoRuns
import WarsawEvents.Ingestion.Vectors
import WarsawEvents.Friends.OnePerPair
import WarsawEvents.Friends.Requests
import WarsawEvents.Foundations.OneTimeCode
import WarsawEvents.Accounts.RowInvariant
import WarsawEvents.Accounts.Transcript
import WarsawEvents.Accounts.TwoFactor
import WarsawEvents.Accounts.EmailConfirmation
import WarsawEvents.Friends.Consent
import WarsawEvents.Foundations.ExpiringCounter
import WarsawEvents.RateLimit.SearchQuota
import WarsawEvents.Frontend.Hearts
import WarsawEvents.Frontend.AtRest
import WarsawEvents.Frontend.LoadedIds
import WarsawEvents.Foundations.Json
import WarsawEvents.Foundations.JsonRoundTrip
import WarsawEvents.Foundations.Framing
import WarsawEvents.Search.EventStream
import WarsawEvents.Foundations.Unicode
import WarsawEvents.Search.Sse
import WarsawEvents.RateLimit.AuthRate
import WarsawEvents.RateLimit.Guesses
import WarsawEvents.Ingestion.PyJson
import WarsawEvents.Ingestion.Adapters
import WarsawEvents.Ingestion.Readable
import WarsawEvents.Ingestion.Fetch
import WarsawEvents.Accounts.Avatars
import WarsawEvents.Accounts.ProfileEdits
import WarsawEvents.Friends.Labels
import WarsawEvents.Files.UploadLimit
import WarsawEvents.Accounts.AvatarRaces
import WarsawEvents.Ingestion.Ledger
import WarsawEvents.Ingestion.MissedMatches
import WarsawEvents.Ingestion.Offsets
import WarsawEvents.Foundations.IsoFormat
import WarsawEvents.Foundations.OrderBy
import WarsawEvents.Retrieval.Search
import WarsawEvents.Retrieval.Filters
import WarsawEvents.Retrieval.LastDay
import WarsawEvents.Retrieval.Fusion
import WarsawEvents.Retrieval.PlainPath
import WarsawEvents.Search.Streaming
import WarsawEvents.Foundations.JsonDialects
import WarsawEvents.Search.LineFormat
import WarsawEvents.Search.AtMostLimit
import WarsawEvents.Foundations.Like
import WarsawEvents.Friends.NameSearch
import WarsawEvents.Files.DownloadHeader
import WarsawEvents.Foundations.Batches
import WarsawEvents.Foundations.Chase
import WarsawEvents.Ingestion.Wikidata
import WarsawEvents.Ingestion.Descriptions
import WarsawEvents.Ingestion.Embeddings
import WarsawEvents.Ingestion.PageWindow
import WarsawEvents.Files.ImageErrors
import WarsawEvents.Accounts.Passwords
import WarsawEvents.Accounts.EmailCollisions
import WarsawEvents.Accounts.AtomicEdits
import WarsawEvents.Foundations.ReadOnly
import WarsawEvents.Store.Effects
import WarsawEvents.Store.Integrity
import WarsawEvents.Store.Erasure
import WarsawEvents.Store.History
import WarsawEvents.Store.Deliveries
import WarsawEvents.Store.Pages
import WarsawEvents.Store.Listings
import WarsawEvents.Store.Site
import WarsawEvents.Search.Service
import WarsawEvents.Search.Spending
import WarsawEvents.Search.Answers
import WarsawEvents.Foundations.Stages
import WarsawEvents.Frontend.SearchPage
import WarsawEvents.Startup.Schema
import WarsawEvents.Startup.Upgrade
import WarsawEvents.Startup.Restarts
import WarsawEvents.Foundations.Retry
import WarsawEvents.Ingestion.Retries
import WarsawEvents.Retrieval.Upcoming
