import Sox.Lib.System
import Sox.Lib.Txn
import Sox.Lib.Dict
import Sox.Lib.Glob
import Sox.Json
import Sox.Message
import Sox.BackingStore
import Sox.Lib.Ledger
import Sox.MemoryStore
import Sox.Delivery
import Sox.MemoryInv
import Sox.SqliteStore
import Sox.SqliteInv
import Sox.Watch
import Sox.Listener
import Sox.Enforcer
import Sox.EnforcerCli
import Sox.SqliteRecv
import Sox.SqliteSend
import Sox.Lib.Journal
import Sox.Migration
import Sox.MigrationCrash
import Sox.Lib.Expiring
import Sox.Envelope
import Sox.Verifier
import Sox.Auth
import Sox.StoreDispatch
import Sox.Http
import Sox.Lib.TopoSort
import Sox.Pipeline
import Sox.DefaultChain
import Sox.Wildcard
import Sox.HttpSend
import Sox.HttpCollect
import Sox.JsonSchema
import Sox.Tools
import Sox.SchemaStrict
import Sox.MigrationUpgrade
import Sox.UpgradeCommand
import Sox.Interchange
import Sox.HandedOnce
import Sox.FilesystemStore
import Sox.Backpressure
import Sox.Lib.Since
import Sox.EnforcerRuns
import Sox.EnforcerHooks
import Sox.EnforcerConcurrent
import Sox.SqliteRecvFailure
import Sox.PluginLoader
import Sox.Lib.Projection
import Sox.VerifierAgents
import Sox.VerifierEffects
import Sox.PluginOrder
import Sox.Lib.Select
import Sox.ListenerFilter
import Sox.Groups
import Sox.Lib.Feed
import Sox.FilesystemRecv
import Sox.FilesystemPaths
import Sox.FilesystemLayout
import Sox.AgentFiles
import Sox.ChannelFiles
import Sox.Unsubscribe
import Sox.RecvOrder
import Sox.Sse
import Sox.PluginCycle
import Sox.Assemble
import Sox.PluginCapabilities
import Sox.Acks
import Sox.Presence
import Sox.ListChannels
import Sox.ReplayPages
import Sox.SignedPayload
import Sox.VersionRange
import Sox.Hooks
import Sox.ChatStore
import Sox.StoreUrls
import Sox.AgentIds
import Sox.ChannelsCli
import Sox.Lib.Batches
import Sox.BoundedRecv
import Sox.McpClient
import Sox.ClaudeInstall
import Sox.EnvelopeTrip
import Sox.Lib.Edits
import Sox.AgentPrompts
import Sox.FilesystemDelivery
import Sox.FilesystemWatch
import Sox.OwnAgent
import Sox.Fronts
import Sox.SqliteRestart
import Sox.FilesystemProcess
import Sox.FilesystemRefinement
import Sox.Lib.Cursor
import Sox.ReferenceAgent
import Sox.RecoveryEnds
import Sox.ChatWindow
