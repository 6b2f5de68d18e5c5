import Mathlib.Data.Finset.Card
import IdaMcp.Lib.Assoc
import IdaMcp.Lib.Json

/-!
# The router's data

The types of `src/src/router/mod.rs` that the modelled functions read and
write, with `src/src/router/protocol.rs`, `src/src/error.rs` and the backend
kinds of `src/src/ida/runtime.rs`. A process handle, a pipe and a timer are
not data of the router: what they do reaches it as a reply of the environment.
-/

namespace Router
open Lib (Map Json)

abbrev DbHandle := String
abbrev ReqId := String
abbrev Token := String
abbrev Path := String
abbrev TaskId := String
/-- A reading of the monotonic clock. -/
abbrev Instant := Nat
/-- The identity of a oneshot channel. -/
abbrev Chan := Nat

structure WorkerKey where
  tenantId : String
  path : Path
  deriving Repr,DecidableEq

inductive WorkerBackendKind where
  | nativeLinked | idatCompat
  deriving Repr,DecidableEq

def WorkerBackendKind.asCliArg : WorkerBackendKind → String
  | .nativeLinked => "native-linked"
  | .idatCompat => "idat-compat"

/-- The fields of a probe that `spawn_worker` and the status read. -/
structure RuntimeProbeResult where
  backend : Option WorkerBackendKind
  reason : Option String
  deriving Repr,DecidableEq

structure RpcResponse where
  id : ReqId
  result : Option Json
  /-- The message of the error object. -/
  error : Option String

inductive ToolError where
  | noDatabaseOpen
  | openFailed (reason : String)
  | invalidPath (reason : String)
  | invalidParams (reason : String)
  | timeout (seconds : Nat)
  | busy
  | idaError (reason : String)
  | workerClosed
  deriving Repr,DecidableEq

def ToolError.text : ToolError → String
  | .noDatabaseOpen => "No database is currently open"
  | .openFailed e => "Failed to open database: "++e
  | .invalidPath e => "Invalid database path: "++e
  | .invalidParams e => "Invalid parameters: "++e
  | .timeout n => "Operation timed out after "++toString n++" seconds"
  | .busy => "Server is busy (request queue full). Please retry."
  | .idaError e => "IDA error: "++e
  | .workerClosed => "Worker channel closed"

/-- What a caller of `route_request` is sent through its channel. -/
abbrev Answer := Except String Json

def RpcResponse.answer (r : RpcResponse) : Answer :=
  match r.result,r.error with
  | some v,_ => .ok v
  | none,some e => .error e
  | none,none => .ok .null

structure WorkerProcess where
  backend : WorkerBackendKind
  tenantId : String
  pending : Map ReqId Chan
  closeToken : Option Token
  openPath : Option Path
  lastActive : Instant

structure RouterConfig where
  maxWorkers : Nat
  maxWorkersPerTenant : Nat
  maxPendingPerWorker : Nat
  maxPendingPerTenant : Nat
  maxConcurrentSpawns : Nat
  maxWarmWorkers : Nat
  maxQueuedPrewarms : Nat
  maxActivePrewarms : Nat
  maxPrewarmsPerTenant : Nat
  maxQueuedTasks : Nat
  maxActiveTasks : Nat
  maxTasksPerTenant : Nat
  deriving Repr,DecidableEq

structure RouterInner where
  workers : Map DbHandle WorkerProcess
  active : Option DbHandle
  pathToHandle : Map WorkerKey DbHandle
  tokenToHandle : Map Token DbHandle
  refTokens : Map DbHandle (Finset Token)
  /-- Taken not to reach the end of `u64`. -/
  reqCounter : Nat

structure WarmLease where
  handle : DbHandle
  token : Token
  path : Path
  cachePath : Option Path
  tenantId : String
  pinnedAt : Instant
  lastHit : Instant
  deriving Repr,DecidableEq

structure QueuedPrewarmTask where
  taskId : TaskId
  path : Path
  tenantId : String
  priority : Nat
  keepWarm : Bool
  enqueuedAt : Instant
  deriving Repr,DecidableEq

structure ActivePrewarmTask where
  taskId : TaskId
  path : Path
  tenantId : String
  priority : Nat
  keepWarm : Bool
  startedAt : Instant
  deriving Repr,DecidableEq

structure QueuedRouteTask where
  taskId : TaskId
  path : Path
  method : String
  params : Json
  tenantId : String
  priority : Nat
  enqueuedAt : Instant

structure ActiveRouteTask where
  taskId : TaskId
  path : Path
  method : String
  tenantId : String
  priority : Nat
  startedAt : Instant
  deriving Repr,DecidableEq

structure PrewarmQueueState where
  queued : List QueuedPrewarmTask
  active : Map TaskId ActivePrewarmTask
  recent : List Json
  nextTaskId : Nat
  tenantActive : Map String Nat

structure RouteQueueState where
  queued : List QueuedRouteTask
  active : Map TaskId ActiveRouteTask
  tenantActive : Map String Nat

/-- Unicode `White_Space`, what `str::trim` takes off. -/
def isWhitespace (c : Char) : Bool :=
  let n:=c.toNat
  (9 ≤ n && n ≤ 13) || n=0x20 || n=0x85 || n=0xA0 || n=0x1680 || (0x2000 ≤ n && n ≤ 0x200A) ||
    n=0x2028 || n=0x2029 || n=0x202F || n=0x205F || n=0x3000

def trim (s : String) : String :=
  String.ofList ((s.toList.dropWhile isWhitespace).reverse.dropWhile isWhitespace).reverse

def normalizeTenant (tenantId : Option String) : String :=
  match tenantId with
  | none => "default"
  | some t => if trim t="" then "default" else trim t

def workerKey (path : Path) (tenantId : String) : WorkerKey := ⟨tenantId,path⟩

/-- Lower-case hexadecimal, as the format `{:x}`. -/
def hex (n : Nat) : String := String.ofList (Nat.toDigits 16 n)

def refToken (now pid nonce : Nat) : Token := hex now++"-"++hex pid++"-"++hex nonce
def cliToken (now nonce : Nat) : Token := "cli-"++hex now++"-"++hex nonce
def requestId (counter : Nat) : ReqId := "r"++toString counter

theorem requestId_injective {m n : Nat} (h : requestId m=requestId n) : m=n := by
  have hl:=congrArg String.toList h
  simp only [requestId,String.toList_append,Nat.toString_eq_repr,Nat.toList_repr] at hl
  have hd:=congrArg (fun ds => Nat.ofDigitChars 10 ds 0) (List.append_cancel_left hl)
  simpa only [Nat.ofDigitChars_toDigits (b := 10) (by decide) (by decide)] using hd

/-- `format!("{:016x}", t ^ (pid << 32) ^ counter)`. -/
def handleName (now pid counter : Nat) : DbHandle :=
  let digits:=Nat.toDigits 16 (now%UInt64.size ^^^ (pid <<< 32) ^^^ counter)
  String.ofList (List.replicate (16-digits.length) '0'++digits)

/-- The time `route_request` waits for the answer. -/
def timeoutSecs (method : String) (params : Json) : Nat :=
  let maxTimeout:=if method="open" then 3600 else 600
  min (((params.get? "timeout_secs").bind Json.asU64).getD 120) maxTimeout

end Router
