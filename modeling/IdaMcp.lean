import IdaMcp.Devirt.Calls
import IdaMcp.Devirt.Directory
import IdaMcp.Devirt.FakeModule
import IdaMcp.Devirt.Frame
import IdaMcp.Devirt.Hooks
import IdaMcp.Devirt.Image
import IdaMcp.Devirt.Imports
import IdaMcp.Devirt.Lines
import IdaMcp.Devirt.Passes
import IdaMcp.Devirt.Registers
import IdaMcp.Devirt.Trace
import IdaMcp.Ida.CallGraph
import IdaMcp.Ida.Calls
import IdaMcp.Ida.Database
import IdaMcp.Ida.Disasm
import IdaMcp.Ida.Functions
import IdaMcp.Ida.Listings
import IdaMcp.Ida.Loop
import IdaMcp.Ida.Names
import IdaMcp.Ida.Paths
import IdaMcp.Ida.Patterns
import IdaMcp.Ida.Search
import IdaMcp.Lib.Assoc
import IdaMcp.Lib.Breadth
import IdaMcp.Lib.Buffer
import IdaMcp.Lib.Bytes
import IdaMcp.Lib.Calendar
import IdaMcp.Lib.Call
import IdaMcp.Lib.Capped
import IdaMcp.Lib.Hands
import IdaMcp.Lib.Hex
import IdaMcp.Lib.Json
import IdaMcp.Lib.JsonText
import IdaMcp.Lib.Layout
import IdaMcp.Lib.Line
import IdaMcp.Lib.LockOrder
import IdaMcp.Lib.Moves
import IdaMcp.Lib.Pages
import IdaMcp.Lib.Path
import IdaMcp.Lib.Paths
import IdaMcp.Lib.Pool
import IdaMcp.Lib.Program
import IdaMcp.Lib.Python.Calls
import IdaMcp.Lib.Python.Escape
import IdaMcp.Lib.Python.Lexer
import IdaMcp.Lib.Python.Loads
import IdaMcp.Lib.Python.Script
import IdaMcp.Lib.Record
import IdaMcp.Lib.Replace
import IdaMcp.Lib.Serde
import IdaMcp.Lib.Shortest
import IdaMcp.Lib.Text
import IdaMcp.Lib.Tokens
import IdaMcp.Lib.Utf8
import IdaMcp.Router.Alive
import IdaMcp.Router.Books
import IdaMcp.Router.Calls
import IdaMcp.Router.Cancellation
import IdaMcp.Router.Changes
import IdaMcp.Router.Closing
import IdaMcp.Router.Commands
import IdaMcp.Router.Delivery
import IdaMcp.Router.Exec
import IdaMcp.Router.Executions
import IdaMcp.Router.Federation
import IdaMcp.Router.Frame
import IdaMcp.Router.Inner
import IdaMcp.Router.Installs
import IdaMcp.Router.Jobs
import IdaMcp.Router.Leases
import IdaMcp.Router.Limits
import IdaMcp.Router.Locks
import IdaMcp.Router.Names
import IdaMcp.Router.Opening
import IdaMcp.Router.Ops
import IdaMcp.Router.Prewarms
import IdaMcp.Router.Pruning
import IdaMcp.Router.Purse
import IdaMcp.Router.Queues
import IdaMcp.Router.Readers
import IdaMcp.Router.Registry
import IdaMcp.Router.Requests
import IdaMcp.Router.Returned
import IdaMcp.Router.Scheduling
import IdaMcp.Router.Service
import IdaMcp.Router.Spawning
import IdaMcp.Router.Stale
import IdaMcp.Router.State
import IdaMcp.Router.Targets
import IdaMcp.Router.Tenants
import IdaMcp.Router.Upkeep
import IdaMcp.Router.Wire
import IdaMcp.Rpc.Addresses
import IdaMcp.Rpc.Agreement
import IdaMcp.Rpc.Bounds
import IdaMcp.Rpc.Compat
import IdaMcp.Rpc.Decoders
import IdaMcp.Rpc.Dispatch
import IdaMcp.Rpc.Patches
import IdaMcp.Rpc.Requests
import IdaMcp.Rpc.Table
import IdaMcp.Rpc.Tools
import IdaMcp.Rpc.Values
import IdaMcp.Rpc.Worker
import IdaMcp.Scripts.Debug
import IdaMcp.Scripts.DebugInjection
import IdaMcp.Scripts.DebugLiterals
import IdaMcp.Scripts.Dsc
import IdaMcp.Scripts.Idat
import IdaMcp.Scripts.Injection
import IdaMcp.Scripts.Literals
import IdaMcp.Server.ResponseCache
import IdaMcp.Store.Addressing
import IdaMcp.Store.Eviction
import IdaMcp.Store.Exclusion
import IdaMcp.Store.Guarding
import IdaMcp.Store.Idb
import IdaMcp.Store.Index
import IdaMcp.Store.Limit
import IdaMcp.Store.LockFile
import IdaMcp.Store.Survivors
import IdaMcp.Store.Updates
import IdaMcp.Tasks.Clock
import IdaMcp.Tasks.Lifecycle
import IdaMcp.Tasks.Registry
import IdaMcp.Tasks.Retention
import IdaMcp.Tools.Registry
