import EtlTool.Core.CsvAppends
import EtlTool.Core.CsvTables
import EtlTool.Core.Db
import EtlTool.Core.FileAccess
import EtlTool.Core.HttpAuth
import EtlTool.Core.PathObjects
import EtlTool.Core.ReadLimits
import EtlTool.Core.RecordStores
import EtlTool.Core.RedactionComplete
import EtlTool.Core.ReferenceTemplates
import EtlTool.Core.ResultText
import EtlTool.Core.Secrets
import EtlTool.Core.SsrfPolicy
import EtlTool.Core.UrlMasks
import EtlTool.Core.UrlRedaction
import EtlTool.Editor.LayeredPositions
import EtlTool.Editor.Renaming
import EtlTool.Editor.RunEvents
import EtlTool.Editor.RunView
import EtlTool.Editor.Session
import EtlTool.Editor.StreamEnds
import EtlTool.Engine.Accounting
import EtlTool.Engine.CommandLine
import EtlTool.Engine.ContinueOnError
import EtlTool.Engine.DeclarationOrder
import EtlTool.Engine.DependencyOrder
import EtlTool.Engine.Diagnostics
import EtlTool.Engine.GraphConditions
import EtlTool.Engine.IterationIsolation
import EtlTool.Engine.Locality
import EtlTool.Engine.NeverRaises
import EtlTool.Engine.Scheduling
import EtlTool.Engine.SecretRequests
import EtlTool.Engine.Transforms
import EtlTool.Engine.TruncatedTexts
import EtlTool.Foundations.Interleaving
import EtlTool.Foundations.QuotedFields
import EtlTool.Nodes.ApiRequests
import EtlTool.Nodes.Ciphers
import EtlTool.Nodes.ComputedFields
import EtlTool.Nodes.Decryption
import EtlTool.Nodes.FileSink
import EtlTool.Nodes.JoinKeys
import EtlTool.Nodes.JoinedRows
import EtlTool.Nodes.Pagination
import EtlTool.Nodes.RateLimits
import EtlTool.Nodes.RequestConcurrency
import EtlTool.Nodes.RequestRetries
import EtlTool.Nodes.Selections
import EtlTool.Nodes.Sources
import EtlTool.Nodes.TesterRequests
import EtlTool.Nodes.Transform
import EtlTool.Nodes.Union
import EtlTool.Nodes.UrlPaths
import EtlTool.Server.Accounts
import EtlTool.Server.LiveLogs
import EtlTool.Server.LogFlusher
import EtlTool.Server.RunClaims
import EtlTool.Server.RunOrigins
import EtlTool.Server.RunSettlement
import EtlTool.Server.ScheduleFiring
import EtlTool.Server.ScheduleRaces
import EtlTool.Server.SecretsAtRest
import EtlTool.Server.Settings
import EtlTool.Server.StoredDocuments
import EtlTool.Server.Tenancy
