import IdaMcp.Router.Upkeep
import IdaMcp.Tools.Registry

/-!
# Requests from outside, and the tasks as a whole

`open_idb_routed`, `close_idb_routed` and `route_or_err` of
`src/src/server/mod.rs`, `dispatch_cli_request` of
`src/src/server/socket_listener.rs`, the enqueue request of `src/src/main.rs`, the
reader task of `spawn_worker`, and the program of every task of the service.
-/

namespace Router
open Lib (Map Json Prog Machine)
open Tools (primaryNameFor)

def respond (result : Except ToolError Json) : Run Unit := world (.respond (.tool result))
def answerCli (result : Except (Int × String) Json) : Run Unit := world (.respond (.rpc result))

def openIdbParams (req : OpenIdbRequest) : Json :=
  .ofFields [("path",.str req.path),("auto_analyse",.bool true),
    ("load_debug_info",.bool (req.loadDebugInfo.getD false)),
    ("debug_info_path",.ofOption req.debugInfoPath),
    ("debug_info_verbose",.bool (req.debugInfoVerbose.getD false)),
    ("force",.bool (req.force.getD false)),("file_type",.ofOption req.fileType)]

def closeHint : String :=
  "In multi-client (HTTP/SSE) mode, close_idb requires the close_token returned by open_idb; "++
  "each opener holds one reference, database closes when all references are released."

def quickTools : Json :=
  .arr (["list_functions","get_function_by_name","disassemble_function","decompile_function",
    "get_xrefs_to","list_strings","close_idb"].map .str)

/-- `detect_sbpf_entry`, from the edges of the call graph on. -/
def renameEntry (handle : DbHandle) (entry : String) (graph : Option Json) : Run Json := do
  match ((graph.bind fun g => g.get? "edges").bind Json.asArray).bind
      fun edges => busierCallee (fun _ => false) entry edges with
  | none => return .null
  | some addr => match fromStrRadix16 (stripHexPrefix addr.toList) with
    | none => return .null
    | some n =>
      let at? ← routeRequest (some handle) "get_function_at_address"
        (.ofFields [("address",.str addr)])
      let _ ← routeRequest (some handle) "rename_symbol" (renameParam addr)
      return .ofFields [("address",.str ("0x"++hex n)),("name",.str "process_instruction"),
        ("previous_name",.ofOption (at?.toOption.bind fun v => fieldStr v "name"))]

/-- Lines 648-760: the fields it adds to the answer. -/
def detectSbpfEntry (handle : DbHandle) : Run (List (String × Json)) := do
  let info ← routeRequest (some handle) "get_function_by_name"
    (.ofFields [("name",.str "entrypoint")])
  let entrypoint:=info.toOption.getD .null
  match info.toOption.bind entryAddress with
  | none => return [("entrypoint",entrypoint)]
  | some addr =>
    let entry:="0x"++hex addr
    let graph ← routeRequest (some handle) "build_callgraph" (addressParam entry)
    let instruction ← renameEntry handle entry graph.toOption
    return [("entrypoint",entrypoint),("process_instruction",instruction)]

/-- Lines 613-646: the answer to a successful open. -/
def openedReply (handle : DbHandle) (closeToken : Option Token) (isSbpf : Bool) (value : Json) :
    Run Json := do
  match value with
  | .obj fields =>
    let token:=match closeToken with
      | some t => [("close_token",Json.str t)]
      | none => []
    let base:=[("db_handle",Json.str handle)]++token++
      [("close_hint",.str closeHint),("quick_tools",quickTools)]
    let extra ← if isSbpf then detectSbpfEntry handle else pure []
    return .obj ((base++extra).foldl (fun acc e => Json.setField e.1 e.2 acc) fields)
  | _ => return value

def openIdbRouted (req : OpenIdbRequest) : Run Unit := do
  let expanded ← world (.expandPath req.path)
  let isSbpf ← world (.isSbpfElf expanded)
  match ← spawnWorker req.path none false with
  | .error e => respond (.error (.openFailed e))
  | .ok (handle,closeToken) =>
    match ← routeRequest (some handle) "open" (openIdbParams req) with
    | .error e => respond (.error e)
    | .ok value => respond (.ok (← openedReply handle closeToken isSbpf value))

def closeIdbRouted (token : Option Token) : Run Unit := do
  match token with
  | none => match ← locked .activeHandle with
    | none => respond (.error .noDatabaseOpen)
    | some handle =>
      sayGoodbye handle
      closeWorker handle .explicit
      respond (.ok (.str "Database closed"))
  | some token => match ← releaseRefToken token true with
    | none => respond (.ok (.str "close_idb ignored: invalid close_token"))
    | some (handle,0) =>
      sayGoodbye handle
      closeWorker handle .lastRef
      respond (.ok (.str "Database closed"))
    | some (_,remaining+1) => respond (.ok (.str ("Reference released ("++
        toString (remaining+1)++" client(s) still active, database remains open)")))

def okReply : Json := .ofFields [("ok",.bool true)]

def cliResult (result : Except ToolError Json) : Except (Int × String) Json :=
  result.mapError fun e => (-32000,e.text)

/-- `as_u64().unwrap_or(0) as u8`. -/
def priorityOf (params : Json) : Nat := (((params.get? "priority").bind Json.asU64).getD 0)%256

def boolParam (params : Json) (k : String) : Bool := ((params.get? k).bind Json.asBool).getD false

/-- One of the two ways to enqueue, as the request asks. -/
def enqueueTask (path method : String) (tenantId : Option String) (params : Json) :
    Run (Except ToolError Json) :=
  let task:=(params.get? "task_params").getD (.obj [])
  let dedupeKey:=fieldStr params "dedupe_key"
  if boolParam params "federate" then
    enqueueFederatedTask path method task tenantId (priorityOf params) dedupeKey
  else enqueueRouteTask path method task tenantId (priorityOf params) dedupeKey

/-- Lines 186-250. -/
def cliEnqueue (path method tenantId : Option String) (params : Json) : Run Unit := do
  match path,method with
  | some path,some method =>
    answerCli (cliResult (← enqueueTask path method tenantId params))
  | _,_ => answerCli (.error (-32001,"enqueue requires path and method"))

/-- Lines 273-312. -/
def cliPrewarm (path tenantId : Option String) (params : Json) : Run Unit := do
  match path with
  | none => answerCli (.error (-32001,"prewarm requires 'path' parameter"))
  | some path =>
    let keepWarm:=boolParam params "keep_warm"
    let result ← if boolParam params "queue" then
        enqueuePrewarm path (priorityOf params) keepWarm tenantId
      else prewarmPathWithOptions path keepWarm (tenantId.getD "default")
    answerCli (cliResult result)

/-- Lines 314-347, and 73-81: the guard is dropped at the end of the arm, before the
answer is written, and its drop spawns the release. -/
def cliRequest (path tenantId : Option String) (method : String) (params : Json) : Run Unit := do
  match path with
  | none =>
    answerCli (.error (-32602,"CLI requires 'path' parameter to identify the target binary"))
  | some path => match ← ensureWorkerWithRef path tenantId with
    | .error e => answerCli (.error (-32000,e.text))
    | .ok (handle,token) =>
      let result ← routeRequest (some handle) method params
      act (.spawn (.releaseRef token))
      answerCli (cliResult result)

/-- Lines 108-349. -/
def dispatchCliRequest (request : String) (params : Json) : Run Unit := do
  let method:=primaryNameFor request
  let path:=fieldStr params "path"
  let tenantId:=fieldStr params "tenant_id"
  let taskId:=fieldStr params "task_id"
  if method="close" then match path with
    | none => answerCli (.error (-32001,"close requires 'path' parameter"))
    | some path =>
      let result ← closeByPath (← canonicalPath path) tenantId false
      answerCli (cliResult (result.map fun _ => okReply))
  else if method="shutdown" then
    shutdownAll
    answerCli (.ok (.ofFields [("ok",.bool true),("message",.str "server shutting down")]))
  else if method="status" then
    let status ← statusSnapshotInner false
    answerCli (.ok status.json)
  else if method="list_tasks" then
    let states ← act (.tasks .listAll)
    answerCli (.ok (.ofFields [("tasks",.arr (states.map taskStateJson))]))
  else if method="task_status" then match taskId with
    | none => answerCli (.error (-32001,"unknown task_id"))
    | some taskId => match ← act (.tasks (.get taskId)) with
      | some state => answerCli (.ok (taskStateJson state))
      | none => answerCli (.error (-32001,"unknown task_id"))
  else if method="enqueue" then
    cliEnqueue path ((fieldStr params "method").map primaryNameFor) tenantId params
  else if method="cancel_task" then match taskId with
    | none => answerCli (.error (-32001,"cancel_task requires task_id"))
    | some taskId =>
      if ← cancelTask taskId then
        answerCli (.ok (.ofFields [("ok",.bool true),("task_id",.str taskId)]))
      else answerCli (.error (-32001,"task not found"))
  else if method="prewarm" then cliPrewarm path tenantId params
  else cliRequest path tenantId method params

def respondHttp (status : Nat) (body : Json) : Run Unit :=
  world (.respond (.http status body))

def enqueuez (value : Json) : Run Unit := do
  match fieldStr value "path",fieldStr value "method" with
  | some path,some method =>
    match ← enqueueTask path method (fieldStr value "tenant_id") value with
    | .ok reply => respondHttp 200 reply
    | .error e => respondHttp 503 (.ofFields [("error",.str e.text)])
  | _,_ => respondHttp 400 (.ofFields [("error",.str "enqueuez requires path and method")])

def readerLoop (handle : DbHandle) : Nat → Run Unit
  | 0 => .halt
  | n+1 => do
    match ← world (.readLine handle) with
    | .closed => locked (.readerEof handle)
    | .other => readerLoop handle n
    | .response r =>
      locked (.readerLine handle r)
      readerLoop handle n
    | .failed e => locked (.readerError handle e)

def Job.body : Job → Run Unit
  | .openIdb req => openIdbRouted req
  | .closeIdb token => closeIdbRouted token
  | .toolCall handle method params => do respond (← routeRequest handle method params)
  | .cli method params => dispatchCliRequest method params
  | .status federated => do
    let _ ← statusSnapshotInner federated
    return ()
  | .shutdown => shutdownAll
  | .watchdog idleTimeout grace => do
    watchdogLoop idleTimeout grace (← world .rounds) false
  | .reader handle => do readerLoop handle (← world .rounds)
  | .prewarmTask task => Router.prewarmTask task
  | .routeTask task => Router.routeTask task
  | .releaseRef token => do
    let _ ← releaseRefToken token false
    return ()
  | .enqueuez value => Router.enqueuez value
  | .pollRemote handle taskId node remoteTaskId => do
    Router.pollRemote handle taskId node remoteTaskId (← world .rounds)

def service (cfg : RouterConfig) : Machine Op.Res Job Shared Env where
  exec := exec cfg
  body := Job.body
  entry := Job.fromOutside
  forks := forks

abbrev Service := Lib.Pool Op.Res Job Shared
abbrev Move := Lib.Label Op.Res Job

/-- The limits the sample runs use. -/
def sampleConfig : RouterConfig where
  maxWorkers := 2
  maxWorkersPerTenant := 2
  maxPendingPerWorker := 2
  maxPendingPerTenant := 2
  maxConcurrentSpawns := 1
  maxWarmWorkers := 1
  maxQueuedPrewarms := 2
  maxActivePrewarms := 1
  maxPrewarmsPerTenant := 1
  maxQueuedTasks := 2
  maxActiveTasks := 1
  maxTasksPerTenant := 1

/-- Task `i` takes one step for each of the environment's inputs. -/
def steps (i : Nat) (envs : List Env) : List (Lib.Act Job Env) := envs.map (.run i)

/-- `n` steps in which the environment has nothing to add. -/
def idles (n : Nat) : List Env := List.replicate n {}

/-- The inputs with which `spawn_worker` opens `path` in a fresh worker, at time `now`. -/
def spawnInputs (path : Path) (now : Nat) : List Env :=
  {path := path}::{canonical := some path}::idles 7++
  {probe := .ok ⟨some .nativeLinked,none⟩}::idles 3++{rounds := 1}::idles 4++
  {now := now,tokenNow := now}::idles 2

/-- A second spawn, with the probe in the cache. -/
def respawnInputs (path : Path) (now : Nat) : List Env :=
  {path := path}::{canonical := some path}::idles 7++{rounds := 1}::idles 4++
  {now := now,tokenNow := now}::idles 2

def openRequest (path : Path) : OpenIdbRequest := ⟨path,none,none,none,none,none⟩

def enqueueRequest (tenantId key : String) : Job :=
  .enqueuez (.ofFields [("path",.str "/a"),("method",.str "decompile"),("tenant_id",.str tenantId),
    ("dedupe_key",.str key)])

def queueConfig : RouterConfig :=
  {sampleConfig with maxQueuedTasks := 3,maxActiveTasks := 2,maxTasksPerTenant := 3}

/-- Two databases are opened, each in a worker of its own. -/
def openTwo : List (Lib.Act Job Env) :=
  .start (.openIdb (openRequest "/a"))::steps 0 (idles 2++spawnInputs "/a" 1)++
    .start (.openIdb (openRequest "/b"))::steps 2 (idles 2++respawnInputs "/b" 8)

end Router
