import LakiraBackend.Auth.Owners
import LakiraBackend.Auth.Verification
import LakiraBackend.Auth.Registration
import LakiraBackend.Auth.ResetTokens
import LakiraBackend.Auth.Invites
import LakiraBackend.Auth.FamilyRevocation
import LakiraBackend.Auth.JobRuns
import LakiraBackend.Auth.InviteCleanup
import LakiraBackend.Auth.Logout
import LakiraBackend.Queue.Retries
import LakiraBackend.Queue.Services
import LakiraBackend.JavaScript.Json
import LakiraBackend.JavaScript.Date
import LakiraBackend.JavaScript.Buffer
import LakiraBackend.Metrics.NameSearch
import LakiraBackend.Metrics.NameScope
import LakiraBackend.Metrics.VisualizationSql
import LakiraBackend.Metrics.NamePaging
import LakiraBackend.Metrics.SettingsPartial
import LakiraBackend.Analytics.Buckets
import LakiraBackend.Analytics.InstantOf
import LakiraBackend.Analytics.RelativeBounds
import LakiraBackend.Analytics.Binning
import LakiraBackend.Analytics.SeriesStats
import LakiraBackend.Config.GuestLogin
import LakiraBackend.Auth.PasswordGuesses
import LakiraBackend.Memberships.Paging
import LakiraBackend.Metrics.MalformedCursors
import LakiraBackend.Metrics.ListPatterns
import LakiraBackend.Auth.Usernames
import LakiraBackend.Logging.Noninterference
import LakiraBackend.Logging.SentryWalk
import LakiraBackend.Logging.Userinfo
import LakiraBackend.Net.ClientNetworks
import LakiraBackend.Queue.Publisher
import LakiraBackend.Queue.ConsumerStops
import LakiraBackend.Process.Shutdown
import LakiraBackend.Process.ReadinessProbe
import LakiraBackend.Process.ServerShutdown
import LakiraBackend.Metrics.MetricTexts
import LakiraBackend.Metrics.CategoryCache
import LakiraBackend.Validation.ZodIssues
import LakiraBackend.Metrics.WriteOrder
import LakiraBackend.Redis.PatternWalk
import LakiraBackend.Metrics.Tenants
import LakiraBackend.Auth.AccessTokens
