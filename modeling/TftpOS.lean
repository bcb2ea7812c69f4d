import TftpOS.Lib.Run
import TftpOS.Lib.Except
import TftpOS.Lib.StableSort
import TftpOS.Lib.Dict
import TftpOS.Python.Text
import TftpOS.Python.Value
import TftpOS.Models
import TftpOS.Matcher
import TftpOS.Lib.Meter
import TftpOS.Lib.TokenBucket
import TftpOS.RateLimit
import TftpOS.RateLimitRuns
import TftpOS.RateLimitCleanup
import TftpOS.State
import TftpOS.StateRuns
import TftpOS.HostIdentity
import TftpOS.Python.Json
import TftpOS.Db
import TftpOS.Lib.Tolerant
import TftpOS.Migration
import TftpOS.Persistence
import TftpOS.Outages
import TftpOS.Lib.FiniteMap
import TftpOS.Backends
import TftpOS.Cluster
import TftpOS.ClusterRuns
import TftpOS.Lib.Precedes
import TftpOS.Provisioning
import TftpOS.ProvisioningFaults
import TftpOS.ClusterMap
import TftpOS.ClusterReports
import TftpOS.Auth
import TftpOS.AuthHistory
import TftpOS.AuthRuns
import TftpOS.Lib.Interleaving
import TftpOS.SharedBackend
import TftpOS.SharedObjects
import TftpOS.AuthConcurrent
import TftpOS.ClusterConcurrent
import TftpOS.Lib.Actions
import TftpOS.Lib.FileSystem
import TftpOS.Lib.Resolution
import TftpOS.Python.Os
import TftpOS.Staging
import TftpOS.StagedReads
import TftpOS.AtomicStaging
import TftpOS.Cache
import TftpOS.CacheRuns
import TftpOS.CachedCalls
import TftpOS.Config
import TftpOS.Plugins
import TftpOS.FirmwarePaths
import TftpOS.Engine
import TftpOS.EngineRuns
import TftpOS.Webhooks
import TftpOS.WebhookRuns
import TftpOS.RepoMirror
import TftpOS.MirrorSessions
import TftpOS.Tracking
import TftpOS.Validation
import TftpOS.MacLookups
import TftpOS.Secrets
import TftpOS.SecretStores
import TftpOS.SecretRefs
import TftpOS.NamedObjects
import TftpOS.Mnemonics
import TftpOS.Lib.Listing
import TftpOS.Listings
import TftpOS.Lib.Escaping
import TftpOS.XmlEscape
import TftpOS.SafeNames
import TftpOS.Hostnames
import TftpOS.ClusterFiles
import TftpOS.ProfilePaths
import TftpOS.FamilySpelling
import TftpOS.Audit
import TftpOS.Lib.Splitting
import TftpOS.CloudInit
import TftpOS.Lib.Quoting
import TftpOS.Metrics
import TftpOS.CloudImages
import TftpOS.ImageDirectories
import TftpOS.ImageImports
import TftpOS.Lib.Ledger
import TftpOS.Callbacks
import TftpOS.CallbackRuns
import TftpOS.Lib.Rounding
import TftpOS.ConfigLoading
import TftpOS.ConfigLoadable
import TftpOS.ConfigContract
import TftpOS.Lib.WorkerPool
import TftpOS.WebhookPool
import TftpOS.Lib.Pattern
import TftpOS.IsoLabels
import TftpOS.IsoMnemonics
import TftpOS.IsoDetect
import TftpOS.IsoFields
import TftpOS.Lib.Noninterference
import TftpOS.EndpointLimits
import TftpOS.TlsCerts
import TftpOS.StagingRoot
import TftpOS.Console
import TftpOS.ConsoleProxies
import TftpOS.ConsoleReads
import TftpOS.Lib.RotatingLog
import TftpOS.AuditFiles
import TftpOS.CacheThreads
