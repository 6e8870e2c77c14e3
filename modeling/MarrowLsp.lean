import MarrowLsp.Lib.Transition
import MarrowLsp.Lib.Versioned
import MarrowLsp.Lib.Utf8
import MarrowLsp.Lib.Lines
import MarrowLsp.Lib.Lists
import MarrowLsp.Lib.Splice
import MarrowLsp.Core.Path
import MarrowLsp.Core.FileTree
import MarrowLsp.Core.Json
import MarrowLsp.Core.Marrow
import MarrowLsp.Core.Documents
import MarrowLsp.Core.Positions
import MarrowLsp.Core.PositionOrder
import MarrowLsp.Core.Indentation
import MarrowLsp.Core.Typing
import MarrowLsp.Core.Outline
import MarrowLsp.Core.CatalogBinding
import MarrowLsp.Core.CatalogHistory
import MarrowLsp.Core.Workspace
import MarrowLsp.Core.Resolution
import MarrowLsp.Core.Sample
import MarrowLsp.Core.Session
import MarrowLsp.Core.BindingIndex
import MarrowLsp.Core.Diagnostics
import MarrowLsp.Core.Navigation
import MarrowLsp.Core.SemanticTokens
import MarrowLsp.Core.TokenEncoding
import MarrowLsp.Core.SessionCache
import MarrowLsp.Core.SessionHistory
import MarrowLsp.Lsp.Tracker
import MarrowLsp.Lsp.Watch
import MarrowLsp.Lsp.AnalysisState
import MarrowLsp.Lsp.Backend
import MarrowLsp.Lsp.Steps
import MarrowLsp.Lsp.Mirror
import MarrowLsp.Lsp.MirrorSteps
import MarrowLsp.Lsp.Landing
import MarrowLsp.Lsp.Provenance
import MarrowLsp.Lsp.Freshness
import MarrowLsp.Lsp.Interactive
import MarrowLsp.Lsp.Rename
import MarrowLsp.Lsp.Invalidation
import MarrowLsp.Lsp.Scheduling
import MarrowLsp.Lsp.Debounce
import MarrowLsp.Lsp.Batches
import MarrowLsp.Lsp.SourceOnly
import MarrowLsp.Core.LastGood
import MarrowLsp.Lsp.ExitWatcher
import MarrowLsp.Lsp.EditorSteps
import MarrowLsp.Lsp.Publishing
import MarrowLsp.Lsp.SemanticTokens
import MarrowLsp.Mcp.Project
import MarrowLsp.Mcp.Calls
import MarrowLsp.Mcp.Freshness
import MarrowLsp.Mcp.Server
import MarrowLsp.Mcp.StoreAccess
import MarrowLsp.Mcp.Grants
import MarrowLsp.Mcp.Programs
import MarrowLsp.Mcp.Confinement
import MarrowLsp.Mcp.SummaryBounds
import MarrowLsp.Mcp.Transport
import MarrowLsp.Mcp.CappedOutput
import MarrowLsp.Mcp.Alignment
import MarrowLsp.Editor.WatchTargets
import MarrowLsp.Editor.DataViewBoundary
import MarrowLsp.Editor.SavedResources
import MarrowLsp.Editor.OneGeneration
import MarrowLsp.Editor.DataViewRefresh
import MarrowLsp.Editor.TypedKeys
import MarrowLsp.Dap.Rendezvous
import MarrowLsp.Dap.Pauses
import MarrowLsp.Dap.Lifecycle
import MarrowLsp.Dap.HitCounts
import MarrowLsp.Dap.Verification
import MarrowLsp.Dap.Stops
import MarrowLsp.Dap.RequestAccounts
import MarrowLsp.Dap.References
import MarrowLsp.Dap.DataPages
import MarrowLsp.Dap.LogTemplates
import MarrowLsp.Dap.Wire
import MarrowLsp.Dap.Admission
import MarrowLsp.Dap.Standstill
import MarrowLsp.Dap.Stepping
import MarrowLsp.Lib.Glob
import MarrowLsp.Lsp.Registration
import MarrowLsp.Lsp.Settled
import MarrowLsp.Mcp.AuditTrail
