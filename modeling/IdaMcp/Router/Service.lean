import IdaMcp.Router.Calls

/-!
# Opening, prewarming, queues and upkeep

The functions of `src/src/router/mod.rs` that are built from the basic ones:
references for a path, the warm pool, the queue drivers, the status snapshot
and the watchdog. A `for` over what one section returned is `forEach`; the
`loop`s and the `while` run for as many rounds as the environment gives.
-/

namespace Router
open Lib (Map Json Prog)
open Lib.Prog (forEach)

def openParams (canonicalOpen : Path) (idbOutput : Option Path) : Json :=
  .ofFields [("path",.str canonicalOpen),("idb_output_path",.ofOption idbOutput),
    ("auto_analyse",.bool true),("timeout_secs",.ofNat 3600)]

/-- Lines 1286-1301: the open request to a worker just spawned. -/
def openFresh (handle : DbHandle) (canonical canonicalOpen : Path) (idbOutput : Option Path) :
    Run (Except ToolError Unit) := do
  match ← routeRequest (some handle) "open" (openParams canonicalOpen idbOutput) with
  | .ok _ =>
    match idbOutput with
    | some idb => world (.storeRecord canonical idb)
    | none => pure ()
    if ← world (.isSbpfElf canonical) then detectAndRenameSbpfEntry handle
    return .ok ()
  | .error e =>
    closeWorker handle .explicit
    return .error e

def issueFor (handle : DbHandle) : Run (Except ToolError (DbHandle × Token)) := do
  let token ← issueRefForHandle handle
  return .ok (handle,token)

/-- Lines 1286-1307. -/
def openAndIssue (handle : DbHandle) (canonical canonicalOpen : Path) (idbOutput : Option Path) :
    Run (Except ToolError (DbHandle × Token)) := do
  match ← openFresh handle canonical canonicalOpen idbOutput with
  | .error e => return .error e
  | .ok _ => issueFor handle

/-- Lines 1268-1307, when no worker has the path. -/
def spawnAndOpen (path canonical canonicalOpen : Path) (idbOutput : Option Path)
    (tenantId : String) : Run (Except ToolError (DbHandle × Token)) := do
  match ← spawnWorker path (some tenantId) true with
  | .error e => return .error (.idaError ("spawn_worker failed: "++e))
  | .ok (handle,initialToken) =>
    match initialToken with
    | some token =>
      let _ ← releaseRefToken token false
    | none => pure ()
    openAndIssue handle canonical canonicalOpen idbOutput

def ensureWorkerWithRefIdb (path : Path) (explicitIdbOutput : Option Path)
    (tenantId : Option String) : Run (Except ToolError (DbHandle × Token)) := do
  let tenantId:=normalizeTenant tenantId
  let resolved ← world (.resolveOpenPath path)
  let canonical ← canonicalPath path
  let canonicalOpen ← canonicalPath (resolved.openPath.getD path)
  let idbOutput:=explicitIdbOutput.orElse fun _ => resolved.idbOutputPath
  match ← locked (.ensureLookup (workerKey canonical tenantId)) with
  | some handle => issueFor handle
  | none => spawnAndOpen path canonical canonicalOpen idbOutput tenantId

def ensureWorkerWithRef (path : Path) (tenantId : Option String) :
    Run (Except ToolError (DbHandle × Token)) :=
  ensureWorkerWithRefIdb path none tenantId

/-- The two farewell requests before a close; their answers are ignored. -/
def sayGoodbye (handle : DbHandle) : Run Unit := do
  let _ ← routeRequest (some handle) "close" (.obj [])
  let _ ← routeRequest (some handle) "shutdown" (.obj [])
  return ()

/-- Lines 1398-1422. -/
def closeByPath (path : Path) (tenantId : Option String) (closes : Bool) :
    Run (Except ToolError Unit) := do
  match ← locked (.pathLookup (workerKey path (normalizeTenant tenantId)) closes) with
  | some handle =>
    sayGoodbye handle
    closeWorker handle (if closes then .lastRef else .explicit)
    return .ok ()
  | none => return .error .noDatabaseOpen

/-- Lines 1546-1555. The guard of `warm_pool` is held through the whole body. -/
def releaseWarmLease (path : Path) : Run Unit :=
  withLock .warmPool do
    match ← act (.warm (.take path)) with
    | some lease => match ← releaseRefToken lease.token true with
      | some (handle,0) => closeWorker handle .lastRef
      | _ => return ()
    | none => return ()

/-- Lines 1520-1531. -/
def makeRoom : Nat → Run Unit
  | 0 => .halt
  | n+1 => do
    if ← withLock .warmPool (act (.warm .full)) then
      match ← withLock .warmPool (act (.warm .oldest)) with
      | none => return ()
      | some path =>
        releaseWarmLease path
        makeRoom n
    else return ()

/-- Lines 1512-1544. It always returns `Ok(())`. -/
def installWarmLease (canonicalPath : Path) (handle : DbHandle) (token : Token)
    (tenantId : String) (cachePath : Option Path) : Run Unit := do
  makeRoom (← world .rounds)
  withLock .warmPool (act (.warm (.insert canonicalPath handle token tenantId cachePath)))

/-- Lines 1476-1497: what becomes of the reference; whether the worker was closed. -/
def settlePrewarm (keepWarm alreadyOpen : Bool) (canonical : Path) (handle : DbHandle)
    (token : Token) (tenantId : String) (cachedAfter : Option Path) :
    Run (Except ToolError Bool) := do
  if keepWarm then
    installWarmLease canonical handle token tenantId cachedAfter
    return .ok false
  else if !alreadyOpen then
    match ← releaseRefToken token false with
    | some (_,0) => match ← closeByPath canonical (some tenantId) true with
      | .error e => return .error e
      | .ok _ => return .ok true
    | _ => return .ok false
  else
    let _ ← releaseRefToken token false
    return .ok false

/-- Lines 1431-1510. -/
def prewarmPathWithOptions (path : Path) (keepWarm : Bool) (tenantId : String) :
    Run (Except ToolError Json) := do
  let expanded ← world (.expandPath path)
  if !(← world (.exists expanded)) then
    return .error (.invalidPath ("File not found: "++expanded))
  let canonical:=(← world (.canonicalize expanded)).getD expanded
  let tenantId:=normalizeTenant (some tenantId)
  let alreadyOpen ← locked (.hasPath (workerKey canonical tenantId))
  let cachedBefore ← world (.storeLookup canonical)
  match ← ensureWorkerWithRef path (some tenantId) with
  | .error e => return .error e
  | .ok (handle,token) =>
    let backend ← locked (.backendOf handle)
    let info ← routeRequest (some handle) "get_database_info" (.obj [])
    let cachedAfter ← world (.storeLookup canonical)
    match ← settlePrewarm keepWarm alreadyOpen canonical handle token tenantId cachedAfter with
    | .error e => return .error e
    | .ok closed =>
      return .ok (.ofFields [("path",.str canonical),("backend",.str backend),
        ("cached_before",.bool cachedBefore.isSome),("cached_after",.bool cachedAfter.isSome),
        ("cache_path",.ofOption cachedAfter),("database_info",info.toOption.getD .null),
        ("already_open",.bool alreadyOpen),("kept_warm",.bool keepWarm),
        ("worker_closed_after_prewarm",.bool closed)])

end Router
