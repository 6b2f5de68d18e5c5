import IdaMcp.Lib.Pool
import IdaMcp.Router.Queues
import IdaMcp.Tasks.Registry

/-!
# The router's operations and their effect

One operation is what a task of the router does without another task coming
between: take or give back a mutex, one critical section, one reply of the
world outside. `exec` is its effect; it is `none` while the task has to wait.
-/

namespace Router
open Lib (Map Json)

inductive Mutex where
  | inner | warmPool | cachedProbe | prewarmQueue | routeQueue
  deriving Repr,DecidableEq

/-- On whose account a worker is closed. -/
inductive Reason where
  | gc | evict | lastRef | explicit
  deriving Repr,DecidableEq

/-- The sections of `inner`. The tags `ensure`, `closes` and `why` name the caller
the section serves: `ensure_worker_with_ref_idb`, a caller that closes the worker
on the strength of the reply, the kind of close. No section reads its tag. -/
inductive InnerOp where
  | spawnLookup (key : WorkerKey) (ensure : Bool)
  | evictCandidate
  | spawnRegister (key : WorkerKey) (backend : WorkerBackendKind) (ensure : Bool)
  | routeTarget (handle : Option DbHandle)
  | newReqId
  | routeRegister (handle : DbHandle) (id : ReqId) (chan : Chan)
  | closeRemove (handle : DbHandle) (why : Reason)
  | releaseRefToken (token : Token) (closes : Bool)
  | issueRef (handle : DbHandle)
  | ensureLookup (key : WorkerKey)
  | pathLookup (key : WorkerKey) (closes : Bool)
  | hasPath (key : WorkerKey)
  | backendOf (handle : DbHandle)
  | expired (idleTimeout : Nat)
  | allHandles
  | activeHandle
  | workerCount
  | exePath
  | status
  | readerEof (handle : DbHandle)
  | readerLine (handle : DbHandle) (response : RpcResponse)
  | readerError (handle : DbHandle) (error : String)

@[reducible] def InnerOp.Res : InnerOp → Type
  | .spawnLookup _ _ => Option (DbHandle × Token)
  | .evictCandidate => Option DbHandle
  | .spawnRegister _ _ _ => RouterInner.Spawned
  | .routeTarget _ => Except ToolError DbHandle
  | .newReqId => ReqId
  | .routeRegister _ _ _ => Except ToolError Unit
  | .releaseRefToken _ _ => Option (DbHandle × Nat)
  | .issueRef _ => Token
  | .ensureLookup _ | .pathLookup _ _ | .activeHandle => Option DbHandle
  | .hasPath _ => Bool
  | .backendOf _ => String
  | .expired _ | .allHandles => List DbHandle
  | .workerCount => Nat
  | .status => List RouterInner.WorkerStatus × Option DbHandle
  | .closeRemove _ _ | .exePath | .readerEof _ | .readerLine _ _ | .readerError _ _ => Unit

inductive WarmOp where
  | retain (handle : DbHandle)
  | full
  | oldest
  | insert (path : Path) (handle : DbHandle) (token : Token) (tenantId : String)
      (cachePath : Option Path)
  | take (path : Path)
  | pinned
  | list

@[reducible] def WarmOp.Res : WarmOp → Type
  | .retain _ | .insert _ _ _ _ _ => Unit
  | .full => Bool
  | .oldest => Option Path
  | .take _ => Option WarmLease
  | .pinned => List Path
  | .list => List WarmLease

inductive ProbeOp where
  /-- Lines 453-455, in `probe_worker_backend`. -/
  | read
  /-- Line 1016, in `status_snapshot_inner`. -/
  | statusRead
  | store (probe : RuntimeProbeResult)

@[reducible] def ProbeOp.Res : ProbeOp → Type
  | .read | .statusRead => Option RuntimeProbeResult
  | .store _ => Unit

inductive PrewarmOp where
  | enqueue (path : Path) (priority : Nat) (keepWarm : Bool) (tenantId : String)
  | next
  | finish (taskId : TaskId) (tenantId : String) (summary : Json)
  | list

@[reducible] def PrewarmOp.Res : PrewarmOp → Type
  | .enqueue _ _ _ _ => Except ToolError (TaskId × Nat)
  | .next => Option QueuedPrewarmTask
  | .finish _ _ _ => Unit
  | .list => List QueuedPrewarmTask × List ActivePrewarmTask × List Json

inductive RouteOp where
  | room (tenantId : String)
  | push (taskId : TaskId) (path : Path) (method : String) (params : Json) (tenantId : String)
      (priority : Nat) (known : Bool)
  | cancel (taskId : TaskId)
  | next
  | finish (taskId : TaskId) (tenantId : String)
  | list

@[reducible] def RouteOp.Res : RouteOp → Type
  | .room _ => Except ToolError Unit
  | .cancel _ => Bool
  | .next => Option QueuedRouteTask
  | .push _ _ _ _ _ _ _ | .finish _ _ => Unit
  | .list => List QueuedRouteTask × List ActiveRouteTask

/-- `ResolvedPath` of `resolve_open_path`. -/
structure ResolvedPath where
  openPath : Option Path
  idbOutputPath : Option Path
  deriving Repr,DecidableEq

/-- The fields of `FederationNodeConfig` that the router reads of a chosen node. -/
structure FederationNode where
  name : String
  url : String
  deriving Repr,DecidableEq

/-- What `read_line` on a worker's stdout brings. -/
inductive WorkerLine where
  | closed
  /-- A blank line, or one that is no response. -/
  | other
  | response (r : RpcResponse)
  | failed (error : String)

/-- A tool result, an answer on the CLI socket with its error code, or an HTTP response. -/
inductive Reply where
  | tool (result : Except ToolError Json)
  | rpc (result : Except (Int × String) Json)
  | http (status : Nat) (body : Json)

/-- The file system, subprocesses, timers and other nodes. -/
inductive WorldOp where
  | expandPath (path : Path)
  | canonicalize (path : Path)
  | exists (path : Path)
  | resolveOpenPath (path : Path)
  | isSbpfElf (path : Path)
  | runProbe
  | storeLookup (path : Path)
  | storeRecord (path : Path) (idb : Path)
  | readLine (handle : DbHandle)
  /-- How many rounds of a loop this run contains. -/
  | rounds
  | probeNodes
  /-- Models `choose_ready_nodes` on the nodes known. -/
  | readyNodes (method tenantId : String)
  | fetchRemoteTask (node : FederationNode) (taskId : TaskId)
  | pruneCaches (pinned : List Path)
  /-- The grace period without workers is over. -/
  | graceOver (grace : Nat)
  /-- The answer a client gets. -/
  | respond (reply : Reply)

@[reducible] def WorldOp.Res : WorldOp → Type
  | .expandPath _ => Path
  | .canonicalize _ => Option Path
  | .exists _ | .isSbpfElf _ | .graceOver _ => Bool
  | .resolveOpenPath _ => ResolvedPath
  | .runProbe => Except String RuntimeProbeResult
  | .storeLookup _ => Option Path
  | .readLine _ => WorkerLine
  | .rounds => Nat
  | .readyNodes _ _ => List FederationNode
  | .fetchRemoteTask _ _ => Except String Json
  | .storeRecord _ _ | .probeNodes | .pruneCaches _ | .respond _ => Unit

structure OpenIdbRequest where
  path : Path
  loadDebugInfo : Option Bool
  debugInfoPath : Option Path
  debugInfoVerbose : Option Bool
  force : Option Bool
  fileType : Option String
  deriving Repr,DecidableEq

/-- The tasks: requests that come from outside, and those the router spawns. -/
inductive Job where
  | openIdb (req : OpenIdbRequest)
  | closeIdb (token : Option Token)
  | toolCall (handle : Option DbHandle) (method : String) (params : Json)
  | cli (method : String) (params : Json)
  | status (federated : Bool)
  | shutdown
  | watchdog (idleTimeout : Nat) (autoExitGrace : Option Nat)
  | reader (handle : DbHandle)
  | prewarmTask (task : QueuedPrewarmTask)
  | routeTask (task : QueuedRouteTask)
  | releaseRef (token : Token)
  /-- A POST to `/enqueuez`. -/
  | enqueuez (value : Json)
  /-- The poll loop of `enqueue_federated_task`. -/
  | pollRemote (handle : Nat) (taskId : TaskId) (node : FederationNode) (remoteTaskId : TaskId)

def Job.fromOutside : Job → Bool
  | .openIdb _ | .closeIdb _ | .toolCall _ _ _ | .cli _ _ | .status _ | .shutdown |
    .watchdog _ _ | .enqueuez _ => true
  | _ => false

inductive Op where
  | lock (m : Mutex)
  | unlock (m : Mutex)
  | acquireSpawn
  | releaseSpawn
  /-- `oneshot::channel` of the call that goes by `id`. -/
  | channel (id : ReqId)
  | receive (chan : Chan)
  | inner (o : InnerOp)
  | warm (o : WarmOp)
  | probe (o : ProbeOp)
  | prewarm (o : PrewarmOp)
  | route (o : RouteOp)
  | world (o : WorldOp)
  | spawn (job : Job)
  | tasks (o : Tasks.TaskOp)
  /-- Models `submit_enqueue` on behalf of the task `taskId`, which the request does not name. -/
  | submit (taskId : TaskId) (node : FederationNode) (payload : Json)
  /-- The handle of the task that is spawned next. -/
  | newHandle
  /-- An await of the task with the handle: an aborted task does not get past it. -/
  | tick (handle : Nat)

/-- The end of the wait for an answer. -/
inductive Received where
  | answer (a : Answer)
  | dropped
  | timedOut

@[reducible] def Op.Res : Op → Type
  | .lock _ | .unlock _ | .acquireSpawn | .releaseSpawn | .spawn _ | .tick _ => Unit
  | .channel _ => Chan
  | .receive _ => Received
  | .inner o => o.Res
  | .warm o => o.Res
  | .probe o => o.Res
  | .prewarm o => o.Res
  | .route o => o.Res
  | .world o => o.Res
  | .tasks o => o.Res
  | .submit _ _ _ => Except String Json
  | .newHandle => Nat

end Router
