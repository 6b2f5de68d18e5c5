import IdaMcp.Router.Service

/-!
# Queue drivers, status and watchdog

Lines 1015-1197 and 1557-2124 of `src/src/router/mod.rs`.
-/

namespace Router
open Lib (Map Json Prog)
open Lib.Prog (forEach)

/-- The task body of lines 1919-1952. -/
def prewarmTask (task : QueuedPrewarmTask) : Run Unit := do
  let result ← prewarmPathWithOptions task.path task.keepWarm task.tenantId
  let common:=[("task_id",Json.str task.taskId),("path",.str task.path),
    ("tenant_id",.str task.tenantId)]
  let summary:=match result with
    | .ok value => Json.ofFields (common++[("status",.str "completed"),("result",value)])
    | .error e => Json.ofFields (common++[("status",.str "failed"),("error",.str e.text)])
  withLock .prewarmQueue (act (.prewarm (.finish task.taskId task.tenantId summary)))

/-- Lines 1879-1954. -/
def drivePrewarmQueue : Nat → Run Unit
  | 0 => .halt
  | n+1 => do
    match ← withLock .prewarmQueue (act (.prewarm .next)) with
    | none => return ()
    | some task =>
      act (.spawn (.prewarmTask task))
      drivePrewarmQueue n

/-- Lines 1557-1599. The tenant is not normalised here. -/
def enqueuePrewarm (path : Path) (priority : Nat) (keepWarm : Bool) (tenantId : Option String) :
    Run (Except ToolError Json) := do
  let tenantId:=tenantId.getD "default"
  match ← withLock .prewarmQueue (act (.prewarm (.enqueue path priority keepWarm tenantId))) with
  | .error e => return .error e
  | .ok (taskId,queued) =>
    drivePrewarmQueue (← world .rounds)
    return .ok (.ofFields [("task_id",.str taskId),("status",.str "queued"),("path",.str path),
      ("tenant_id",.str tenantId),("priority",.ofNat priority),("keep_warm",.bool keepWarm),
      ("queued",.ofNat queued)])

/-- Lines 2000-2010. The `?` after `route_request` leaves before the release. -/
def runQueued (task : QueuedRouteTask) : Run (Except ToolError Json) := do
  match ← ensureWorkerWithRef task.path (some task.tenantId) with
  | .error e => return .error e
  | .ok (handle,token) => match ← routeRequest (some handle) task.method task.params with
    | .error e => return .error e
    | .ok value =>
      let _ ← releaseRefToken token false
      return .ok value

/-- The task body of lines 1999-2026. -/
def routeTask (task : QueuedRouteTask) : Run Unit := do
  let result ← runQueued task
  withLock .routeQueue (act (.route (.finish task.taskId task.tenantId)))
  match result with
  | .ok value => act (.tasks (.complete task.taskId value))
  | .error e => act (.tasks (.fail task.taskId e.text))

/-- Lines 1956-2028. -/
def driveRouteQueue : Nat → Run Unit
  | 0 => .halt
  | n+1 => do
    match ← withLock .routeQueue (act (.route .next)) with
    | none => return ()
    | some task =>
      act (.tasks (.updateMessage task.taskId ("Running "++task.method)))
      act (.spawn (.routeTask task))
      driveRouteQueue n

/-- The id of a creation, new or found. -/
def createdId (made : Except TaskId TaskId) : TaskId :=
  match made with
  | .ok id => id
  | .error existing => existing

def taskMeta (tenantId : String) (path : Path) (method : String) (priority : Nat) (remote : Bool) :
    Json :=
  .ofFields [("tenant_id",.str tenantId),("path",.str path),("method",.str method),
    ("priority",.ofNat priority),("remote",.bool remote)]

/-- Lines 1613-1657, under the guard of `route_queue`. -/
def admitTask (path : Path) (method : String) (params : Json) (tenantId : String) (priority : Nat)
    (dedupeKey : Option String) : Run (Except ToolError TaskId) :=
  withLock .routeQueue do
    match ← act (.route (.room tenantId)) with
    | .error e => return .error e
    | .ok _ =>
      let made ← act (.tasks (.createWithKey "job" dedupeKey ("Queued "++method)))
      let taskId:=createdId made
      act (.tasks (.mergeMeta taskId (taskMeta tenantId path method priority false)))
      let state ← act (.tasks (.get taskId))
      act (.route (.push taskId path method params tenantId priority state.isSome))
      return .ok taskId

def queuedReply (taskId : TaskId) (path : Path) (method tenantId : String) (priority : Nat) :
    List (String × Json) :=
  [("task_id",.str taskId),("status",.str "queued"),("path",.str path),("method",.str method),
    ("tenant_id",.str tenantId),("priority",.ofNat priority)]

/-- Lines 1601-1670. -/
def enqueueRouteTask (path : Path) (method : String) (params : Json) (tenantId : Option String)
    (priority : Nat) (dedupeKey : Option String) : Run (Except ToolError Json) := do
  let tenantId:=normalizeTenant tenantId
  match ← admitTask path method params tenantId priority dedupeKey with
  | .error e => return .error e
  | .ok taskId =>
    driveRouteQueue (← world .rounds)
    return .ok (.ofFields (queuedReply taskId path method tenantId priority))

/-- Lines 1864-1877. -/
def cancelTask (taskId : TaskId) : Run Bool := do
  if ← act (.tasks (.cancel taskId)) then return true
  withLock .routeQueue do
    let removed ← act (.route (.cancel taskId))
    if removed then act (.tasks (.fail taskId "Cancelled before execution"))
    return removed

/-- Lines 1716-1748: the first node that takes the task, or the last error. -/
def submitToAny (taskId : TaskId) (payload : Json) :
    List FederationNode → Option String → Run (Except (Option String) (FederationNode × TaskId))
  | [],lastError => return .error lastError
  | node::rest,_ => do
    match ← act (.submit taskId node payload) with
    | .ok response => match fieldStr response "task_id" with
      | some task => return .ok (node,task)
      | none =>
        submitToAny taskId payload rest
          (some ("remote node "++node.name++" did not return task_id"))
    | .error err => submitToAny taskId payload rest (some (node.name++": "++err))

/-- Lines 1778-1838. -/
def pollRemote (handle : Nat) (taskId : TaskId) (node : FederationNode) (remoteTaskId : TaskId) :
    Nat → Run Unit
  | 0 => .halt
  | n+1 => do
    act (.tick handle)
    match ← world (.fetchRemoteTask node remoteTaskId) with
    | .ok payload =>
      let status:=(fieldStr payload "status").getD "unknown"
      let message:=(fieldStr payload "message").getD status
      act (.tasks (.updateMessage taskId ("remote "++node.name++": "++message)))
      if status="completed" then
        act (.tasks (.complete taskId (.ofFields [("remote",.bool true),("node",.str node.name),
          ("url",.str node.url),("remote_task_id",.str remoteTaskId),("payload",payload)])))
      else if status="failed" then
        act (.tasks (.fail taskId ("remote "++node.name++" failed: "++message)))
      else if status="cancelled" then
        act (.tasks (.fail taskId ("remote "++node.name++" cancelled")))
      else pollRemote handle taskId node remoteTaskId n
    | .error err =>
      act (.tasks (.updateMessage taskId ("remote poll error: "++err)))
      pollRemote handle taskId node remoteTaskId n

/-- Lines 1757-1841: the task is followed on the other node while it is still running here. -/
def followRemote (taskId : TaskId) (node : FederationNode) (remoteTaskId : TaskId) : Run Unit := do
  match ← act (.tasks (.get taskId)) with
  | none => return ()
  | some state =>
    if state.status=.running then
      act (.tasks (.updateMessage taskId
        ("Queued remotely on "++node.name++" as "++remoteTaskId)))
      act (.tasks (.mergeMeta taskId (.ofFields [("node",.str node.name),("url",.str node.url),
        ("remote_task_id",.str remoteTaskId)])))
      let handle ← act .newHandle
      act (.spawn (.pollRemote handle taskId node remoteTaskId))
      act (.tasks (.setHandle taskId handle))
    else return ()

def remotePayload (path : Path) (method : String) (params : Json) (tenantId : String)
    (priority : Nat) (dedupeKey : Option String) : Json :=
  .ofFields [("path",.str path),("method",.str method),("priority",.ofNat priority),
    ("tenant_id",.str tenantId),("dedupe_key",.ofOption dedupeKey),("task_params",params),
    ("federate",.bool false)]

/-- Lines 1693-1854, with at least one node to try. -/
def dispatchRemote (candidates : List FederationNode) (path : Path) (method : String)
    (params : Json) (tenantId : String) (priority : Nat) (dedupeKey : Option String) :
    Run (Except ToolError Json) := do
  let made ← act (.tasks (.createWithKey "federated" dedupeKey
    ("Dispatching "++method++" to federation")))
  let taskId:=createdId made
  act (.tasks (.mergeMeta taskId (taskMeta tenantId path method priority true)))
  match ← submitToAny taskId (remotePayload path method params tenantId priority dedupeKey)
      candidates none with
  | .error lastError =>
    return .error (.idaError ("federation enqueue failed across all candidate nodes: "++
      lastError.getD "unknown error"))
  | .ok (node,remoteTaskId) =>
    followRemote taskId node remoteTaskId
    return .ok (.ofFields (queuedReply taskId path method tenantId priority++
      [("remote",.bool true),("node",.str node.name),("url",.str node.url)]))

def enqueueFederatedTask (path : Path) (method : String) (params : Json) (tenantId : Option String)
    (priority : Nat) (dedupeKey : Option String) : Run (Except ToolError Json) := do
  let tenantId:=normalizeTenant tenantId
  let candidates ← world (.readyNodes method tenantId)
  if candidates.isEmpty then return .error (.idaError "no ready federation node available")
  else dispatchRemote candidates path method params tenantId priority dedupeKey

/-- Lines 2133-2165. -/
def statusName : Tasks.TaskStatus → String
  | .running => "running"
  | .completed => "completed"
  | .failed => "failed"
  | .cancelled => "cancelled"

def taskStateJson (state : Tasks.TaskState) : Json :=
  let field (k : String) := state.result.bind fun v => v.get? k
  let remote:=((field "remote").bind Json.asBool).map fun b => ("remote",Json.bool b)
  let node:=((field "node").bind Json.asStr).map fun s => ("node",Json.str s)
  let task:=((field "remote_task_id").bind Json.asStr).map fun s => ("remote_task_id",Json.str s)
  .ofFields ([("task_id",.str state.id),("status",.str (statusName state.status)),
    ("message",.str state.message),("created_at",.str state.createdAtIso),
    ("updated_at",.str state.updatedAtIso),("meta",state.metadata.getD .null),
    ("result",state.result.getD .null)]++remote.toList++node.toList++task.toList)

/-- What the snapshot is made of; the counts and the copy of the configuration
follow from it. -/
structure RouterStatus where
  runtimeProbe : Option RuntimeProbeResult
  workers : List RouterInner.WorkerStatus
  activeHandle : Option DbHandle
  warmPool : List WarmLease
  prewarmQueue : List QueuedPrewarmTask
  prewarmActive : List ActivePrewarmTask
  prewarmRecent : List Json
  routeQueue : List QueuedRouteTask
  routeActive : List ActiveRouteTask

def workerJson (w : RouterInner.WorkerStatus) : Json :=
  .ofFields [("handle",.str w.handle),("backend",.str w.backend.asCliArg),
    ("tenant_id",.str w.tenantId),("open_path",.ofOption w.openPath),
    ("pending_requests",.ofNat w.pendingRequests),("ref_count",.ofNat w.refCount),
    ("idle_secs",.ofNat w.idle),("active",.bool w.active)]

/-- The worker part of the serialised snapshot. -/
def RouterStatus.json (s : RouterStatus) : Json :=
  .ofFields [("worker_count",.ofNat s.workers.length),("active_handle",.ofOption s.activeHandle),
    ("workers",.arr (s.workers.map workerJson))]

/-- Lines 1016-1025. The guard of `cached_probe` is held through the whole `match`. -/
def statusProbe : Run (Option RuntimeProbeResult) :=
  withLock .cachedProbe do
    match ← act (.probe .statusRead) with
    | some probe => return some probe
    | none =>
      locked .exePath
      let probe ← probeWorkerBackend
      return probe.toOption

/-- Lines 1015-1178. -/
def statusSnapshotInner (includeFederation : Bool) : Run RouterStatus := do
  let runtimeProbe ← statusProbe
  withLock .inner do
    let (workers,activeHandle) ← act (.inner .status)
    let warmPool ← withLock .warmPool (act (.warm .list))
    let (queued,active,recent) ← withLock .prewarmQueue (act (.prewarm .list))
    let (routeQueued,routeActive) ← withLock .routeQueue (act (.route .list))
    if includeFederation then world .probeNodes
    return ⟨runtimeProbe,workers,activeHandle,warmPool,queued,active,recent,routeQueued,routeActive⟩

/-- Lines 1188-1197. -/
def shutdownAll : Run Unit := do
  forEach (fun handle => closeWorker handle .explicit) (← locked .allHandles)

def pruneCaches : Run Unit := do
  world (.pruneCaches (← withLock .warmPool (act (.warm .pinned))))

/-- Lines 2067-2089. -/
def collectIdle (idleTimeout : Nat) : Run Unit := do
  forEach (fun handle => closeWorker handle .gc) (← locked (.expired idleTimeout))

/-- Lines 2067-2093. -/
def maintain (idleTimeout : Nat) : Run Unit := do
  collectIdle idleTimeout
  drivePrewarmQueue (← world .rounds)
  driveRouteQueue (← world .rounds)
  pruneCaches

/-- Lines 2065-2122; `emptySince` says that the last round found no worker. It
returns where the process exits. -/
def watchdogLoop (idleTimeout : Nat) (autoExitGrace : Option Nat) : Nat → Bool → Run Unit
  | 0,_ => .halt
  | n+1,emptySince => do
    maintain idleTimeout
    match autoExitGrace with
    | none => watchdogLoop idleTimeout autoExitGrace n emptySince
    | some grace =>
      let count ← locked .workerCount
      if count≠0 then watchdogLoop idleTimeout autoExitGrace n false
      else if !emptySince then watchdogLoop idleTimeout autoExitGrace n true
      else if ← world (.graceOver grace) then return ()
      else watchdogLoop idleTimeout autoExitGrace n true

end Router
