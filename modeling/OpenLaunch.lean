import OpenLaunch.Auth.GroupLogins
import OpenLaunch.Tools.ExecutorProgress
import OpenLaunch.Auth.GroupSyncRuns
import OpenLaunch.Auth.GroupSync
import OpenLaunch.Auth.GroupClaims
import OpenLaunch.Storage.SslParams
import OpenLaunch.Python.UrlSplit
import OpenLaunch.Python.UrlQuery
import OpenLaunch.Shell.PipelineQuoted
import OpenLaunch.Shell.Pipeline
import OpenLaunch.Python.Scanners
import OpenLaunch.Python.Shlex
import OpenLaunch.Retrieval.MergeChunks
import OpenLaunch.DataSources.RedisReads
import OpenLaunch.Redis.Ranges
import OpenLaunch.Redis.SentinelProxy
import OpenLaunch.Responses.Request
import OpenLaunch.Requests.Parts
import OpenLaunch.Ollama.Messages
import OpenLaunch.Models.StaticRedirect
import OpenLaunch.Python.Parts
import OpenLaunch.Python.Unquote
import OpenLaunch.DataSources.Connections
import OpenLaunch.Python.FirstByKey
import OpenLaunch.Retrieval.MergeResults
import OpenLaunch.Python.BestScores
import OpenLaunch.Retrieval.CollectionNames
import OpenLaunch.Groups.AddUsers
import OpenLaunch.Knowledge.DirectoryEdits
import OpenLaunch.Observation
import OpenLaunch.Retrieval.SourcesConfined
import OpenLaunch.Retrieval.Sources
import OpenLaunch.Retrieval.Collections
import OpenLaunch.Retrieval.FileAccess
import OpenLaunch.Calendar.Recurring
import OpenLaunch.Tools.Fingerprint
import OpenLaunch.Python.Substitute
import OpenLaunch.Tools.RewriteLoop
import OpenLaunch.GrowingWalk
import OpenLaunch.Storage.CleanText
import OpenLaunch.Storage.Sanitize
import OpenLaunch.Python.CodePoints
import OpenLaunch.Streams.OllamaStream
import OpenLaunch.Prompts.PlaceholderParts
import OpenLaunch.Prompts.Placeholders
import OpenLaunch.Python.Slices
import OpenLaunch.Calendar.Upcoming
import OpenLaunch.Context.Coverage
import OpenLaunch.Tools.Masking
import OpenLaunch.Models.Listing
import OpenLaunch.Models.BaseAccess
import OpenLaunch.GuardedWalk
import OpenLaunch.Access.Grants
import OpenLaunch.Models.MergeTwice
import OpenLaunch.Models.MergeDefaults
import OpenLaunch.Models.MergeIds
import OpenLaunch.Prompts.Versions
import OpenLaunch.Prompts.VersionsRestore
import OpenLaunch.Auth.TokenRefresh
import OpenLaunch.Calendar.AlertsOnce
import OpenLaunch.Calendar.Alerts
import OpenLaunch.Auth.Tokens
import OpenLaunch.Chats.RowGaps
import OpenLaunch.Chats.MergeHistory
import OpenLaunch.Anthropic.PayloadTurns
import OpenLaunch.Anthropic.Payload
import OpenLaunch.Anthropic.ResponseRoundTrip
import OpenLaunch.Anthropic.Responses
import OpenLaunch.Groups.PatchAtomic
import OpenLaunch.Groups.Patch
import OpenLaunch.Python.Sorted
import OpenLaunch.Touches
import OpenLaunch.Config.Repair
import OpenLaunch.Config.Fragments
import OpenLaunch.Python.JsonPaths
import OpenLaunch.Tools.RegistryRuns
import OpenLaunch.Tools.Registry
import OpenLaunch.Channels.MembershipRuns
import OpenLaunch.Channels.MessageRuns
import OpenLaunch.Channels.Messages
import OpenLaunch.Http
import OpenLaunch.Channels.Membership
import OpenLaunch.Channels.Tables
import OpenLaunch.Channels.Lookups
import OpenLaunch.Memories.VectorsAgree
import OpenLaunch.Memories.Vectors
import OpenLaunch.Memories.Sequential
import OpenLaunch.Memories.OneByOne
import OpenLaunch.Memories.Operations
import OpenLaunch.Memories.Batches
import OpenLaunch.Knowledge.Index
import OpenLaunch.Knowledge.Store
import OpenLaunch.Knowledge.Cleanup
import OpenLaunch.Knowledge.Subtree
import OpenLaunch.Knowledge.Directories
import OpenLaunch.Keyed
import OpenLaunch.Knowledge.Tables
import OpenLaunch.Access.FolderRuns
import OpenLaunch.Access.Folders
import OpenLaunch.Tasks.AutomationClaims
import OpenLaunch.Tasks.Automations
import OpenLaunch.Context.RagVerbatim
import OpenLaunch.Context.RagTemplate
import OpenLaunch.Python.Replace
import OpenLaunch.Access.RateLimiterBound
import OpenLaunch.Access.RateLimiter
import OpenLaunch.Python.Blank
import OpenLaunch.Streams.ToolCalls
import OpenLaunch.Tasks.StopItem
import OpenLaunch.Tasks.Registration
import OpenLaunch.Tasks.Registry
import OpenLaunch.Sockets.NoteDocuments
import OpenLaunch.Sockets.Sessions
import OpenLaunch.Sockets.YdocDocuments
import OpenLaunch.Sockets.YdocUpdates
import OpenLaunch.SnapshotLog
import OpenLaunch.Sockets.RedisDict
import OpenLaunch.Sockets.RedisLock
import OpenLaunch.Responses.StreamedText
import OpenLaunch.Responses.Interleaved
import OpenLaunch.Responses.Effects
import OpenLaunch.Responses.ApiEvents
import OpenLaunch.Interleaving
import OpenLaunch.Responses.Totality
import OpenLaunch.Context.SystemMessage
import OpenLaunch.Streams.LineFilter
import OpenLaunch.Replay.OutputRounds
import OpenLaunch.Access.Sharing
import OpenLaunch.Access.Legacy
import OpenLaunch.Access.Permissions
import OpenLaunch.Python.JsonText
import OpenLaunch.Python.Frames
import OpenLaunch.Python.TextCuts
import OpenLaunch.Chats.HistoryForest
import OpenLaunch.Chats.MessageListBranch
import OpenLaunch.Chats.ChatUpdates
import OpenLaunch.Transition
import OpenLaunch.Chats.ChatStoresRuns
import OpenLaunch.Tools.ExecutorBudgets
import OpenLaunch.Tools.ExecutorBreaker
import OpenLaunch.Tools.ResultGovernance
import OpenLaunch.Anthropic.StreamWellFormed
import OpenLaunch.Anthropic.StreamArguments
import OpenLaunch.Anthropic.NativeStream
