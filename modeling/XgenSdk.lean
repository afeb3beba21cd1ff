import XgenSdk.Approval.CancelRace
import XgenSdk.ControlPolicy.Spans
import XgenSdk.Approval.FillRace
import XgenSdk.Approval.HookRace
import XgenSdk.Approval.Alone
import XgenSdk.Approval.Lines
import XgenSdk.Approval.Links
import XgenSdk.Approval.Submit
import XgenSdk.Approval.SubmitAtomic
import XgenSdk.Approval.Followup
import XgenSdk.Approval.FollowupRuns
import XgenSdk.Approval.FormEdits
import XgenSdk.Approval.FormFits
import XgenSdk.Anomaly.Telemetry
import XgenSdk.Auth.PermissionRegistry
import XgenSdk.Storage.Transfer
import XgenSdk.Lib.Chunks
import XgenSdk.Storage.Modes
import XgenSdk.Storage.Crypto
import XgenSdk.Storage.Streams
import XgenSdk.Storage.SealedStreams
import XgenSdk.Storage.Sniff
import XgenSdk.Storage.FolderZip
import XgenSdk.Storage.FolderZipWalk
import XgenSdk.ControlPolicy.Html
import XgenSdk.ControlPolicy.HtmlScan
import XgenSdk.ControlPolicy.HtmlCuts
import XgenSdk.ControlPolicy.HtmlDocument
import XgenSdk.ControlPolicy.HtmlTags
import XgenSdk.ControlPolicy.HtmlBlocks
import XgenSdk.ControlPolicy.HtmlStable
import XgenSdk.Py.Codecs
import XgenSdk.Auth.Principal
import XgenSdk.Auth.Keyrings
import XgenSdk.Auth.Verified
import XgenSdk.ControlPolicy.Loading
import XgenSdk.Py.Json
import XgenSdk.ControlPolicy.LoadingRules
import XgenSdk.ControlPolicy.LoadingExact
import XgenSdk.ControlPolicy.HwpUnits
import XgenSdk.ControlPolicy.HwpDrafts
import XgenSdk.ControlPolicy.HwpPositions
import XgenSdk.ControlPolicy.HwpRecords
import XgenSdk.ControlPolicy.HwpSection
import XgenSdk.ControlPolicy.HwpParagraph
import XgenSdk.ControlPolicy.HwpMasked
import XgenSdk.Auth.Delegated
import XgenSdk.Auth.IssuedVerified
import XgenSdk.Auth.ServicePrincipal
import XgenSdk.Auth.Permissions
import XgenSdk.Auth.Capability
import XgenSdk.Auth.CapabilityVerified
import XgenSdk.Auth.DocumentCapability
import XgenSdk.Lib.Dict
import XgenSdk.Deploy.StateMachine
import XgenSdk.Quota.Policies
import XgenSdk.ComfyUi.Mapping
import XgenSdk.ComfyUi.Arguments
import XgenSdk.ComfyUi.Approved
import XgenSdk.ComfyUi.Coerced
import XgenSdk.ComfyUi.Applied
import XgenSdk.Db.Conditions
import XgenSdk.Config.Manager
import XgenSdk.Config.Persistent
import XgenSdk.Lib.Interleave
import XgenSdk.Lib.Words
import XgenSdk.Config.Stores
import XgenSdk.Config.Defaults
import XgenSdk.Config.Serializer
import XgenSdk.DbConnections.Hosts
import XgenSdk.Lib.Conninfo
import XgenSdk.Config.Saved
import XgenSdk.Approval.Updates
import XgenSdk.Lib.Raising
import XgenSdk.Db.Pool
import XgenSdk.Db.Attempts
import XgenSdk.Db.Records
import XgenSdk.Db.Reported
import XgenSdk.Db.Migrations
import XgenSdk.Db.ConstraintDrops
import XgenSdk.Py.Paths
import XgenSdk.Storage.Files
import XgenSdk.Storage.ImageCache
import XgenSdk.Config.Shared
import XgenSdk.Config.NothingOlder
import XgenSdk.Approval.Evaluation
import XgenSdk.Approval.ServerOptions
import XgenSdk.Lib.Sorting
import XgenSdk.Approval.FormShape
import XgenSdk.Approval.LinePolicy
import XgenSdk.Lib.Pieces
import XgenSdk.ControlPolicy.HwpxPieces
import XgenSdk.Lib.Aligned
import XgenSdk.ControlPolicy.HtmlReferences
import XgenSdk.ControlPolicy.HtmlUnescape
import XgenSdk.ControlPolicy.HtmlDetected
import XgenSdk.ControlPolicy.Ooxml
import XgenSdk.ControlPolicy.OoxmlNodes
import XgenSdk.ControlPolicy.OoxmlSplice
import XgenSdk.ControlPolicy.PlainText
import XgenSdk.ControlPolicy.PropertySet
import XgenSdk.ControlPolicy.RulePolicies
import XgenSdk.ControlPolicy.PropertySetSection
import XgenSdk.ControlPolicy.PropertySetRelaid
import XgenSdk.ControlPolicy.PropertySetMasked
import XgenSdk.ControlPolicy.PropertySetWritten
import XgenSdk.ControlPolicy.Cfb
import XgenSdk.ControlPolicy.CfbTree
import XgenSdk.ControlPolicy.CfbWrite
import XgenSdk.ControlPolicy.CfbWritten
import XgenSdk.ControlPolicy.CfbStreams
import XgenSdk.ControlPolicy.CfbOpened
import XgenSdk.ControlPolicy.EvidenceRecorded
import XgenSdk.ControlPolicy.LoadingRows
import XgenSdk.Storage.DecryptLosses
import XgenSdk.Storage.FolderZipNote
import XgenSdk.Auth.CapabilityRefused
import XgenSdk.ComfyUi.Randomised
import XgenSdk.AgentShare.Grants
import XgenSdk.AgentShare.ReadBack
import XgenSdk.Lib.Levels
import XgenSdk.AgentShare.Normalised
import XgenSdk.AgentShare.Listing
import XgenSdk.DbCredentials.Envelope
import XgenSdk.Lib.Calendar
import XgenSdk.Quota.Periods
import XgenSdk.Lib.Attributes
import XgenSdk.DbConnections.Odbc
import XgenSdk.Db.NamedParams
import XgenSdk.Db.UniqueIndexes
import XgenSdk.Lib.Locks
import XgenSdk.Db.Recovery
import XgenSdk.Lib.Runs
import XgenSdk.Db.ModelRows
import XgenSdk.Db.ColumnDefs
import XgenSdk.Db.ColumnTexts
import XgenSdk.Db.SchemaMigrations
import XgenSdk.Db.SchemaRuns
import XgenSdk.Db.SchemaDefaults
import XgenSdk.Db.SchemaUniques
import XgenSdk.Db.SchemaConverges
import XgenSdk.ComfyUi.Nodes
import XgenSdk.ComfyUi.ObjectInfo
import XgenSdk.ComfyUi.Running
import XgenSdk.Lib.Substitution
import XgenSdk.Lib.Saturate
import XgenSdk.Lib.Trees
import XgenSdk.Approval.Notifier
import XgenSdk.Redis.Client
import XgenSdk.Redis.Stored
import XgenSdk.Redis.Sessions
import XgenSdk.Config.Nested
import XgenSdk.Config.Repaired
import XgenSdk.Config.Deleted
import XgenSdk.Config.ByName
import XgenSdk.Config.OneSetting
import XgenSdk.ControlPolicy.CfbLayout
import XgenSdk.ControlPolicy.CfbBalance
import XgenSdk.ControlPolicy.CfbEntries
import XgenSdk.ControlPolicy.CfbWriting
import XgenSdk.ControlPolicy.CfbReread
import XgenSdk.ControlPolicy.CfbRoundTrip
