import IdaMcp.Router.State

/-!
# The critical sections of the `inner` mutex

Each definition is what one holder of `RouterState::inner` does to
`RouterInner` between `lock().await` and the drop of the guard
(`src/src/router/mod.rs`). Clock readings are arguments; so is the order in
which a hash map is walked (`pick`, `order`), since the code may meet any.
-/

namespace Router
open Lib (Map Json)

/-- Why something was sent into a caller's channel. -/
inductive Cause where
  /-- The reader of `handle` took a response line carrying `id`. -/
  | line (handle : DbHandle) (id : ReqId)
  | stdoutClosed (handle : DbHandle)
  | stdoutFailed (handle : DbHandle)
  | workerClosed (handle : DbHandle)
  deriving Repr,DecidableEq

structure Delivery where
  chan : Chan
  cause : Cause
  answer : Answer

namespace RouterInner

def new : RouterInner := ⟨∅,none,∅,∅,∅,0⟩

/-- The tokens that keep `h` open. -/
def refs (s : RouterInner) (h : DbHandle) : Finset Token := (s.refTokens.get h).getD ∅

def refCount (s : RouterInner) (h : DbHandle) : Nat := (s.refs h).card

def tick (s : RouterInner) : RouterInner := {s with reqCounter := s.reqCounter+1}

def bindToken (h : DbHandle) (t : Token) (s : RouterInner) : RouterInner :=
  {s with
    tokenToHandle := s.tokenToHandle.insert t h
    refTokens := s.refTokens.insert h (insert t (s.refs h))}

/-- Lines 503-536: a worker of that key is reused under a new token. -/
def spawnLookup (key : WorkerKey) (now pid : Nat) (s : RouterInner) :
    Option (DbHandle × Token) × RouterInner :=
  match s.pathToHandle.get key with
  | some h =>
    let t:=refToken now pid s.reqCounter
    (some (h,t),s.tick.bindToken h t)
  | none => (none,s)

/-- A least element for `key`; any of them, as the walk order decides. -/
def oldest (xs : List (String × Instant)) (pick : Nat) : Option String :=
  match (xs.map Prod.snd).min? with
  | none => none
  | some m =>
    let ys:=xs.filter fun x => x.2=m
    ys[pick%ys.length]?.map Prod.fst

def evictable (s : RouterInner) : List (DbHandle × Instant) :=
  (s.workers.entries.filter fun e =>
    s.refCount e.1=0 && e.2.pending.size=0 && s.active≠some e.1).map fun e => (e.1,e.2.lastActive)

/-- Lines 563-584. -/
def evictCandidate (cfg : RouterConfig) (pick : Nat) (s : RouterInner) : Option DbHandle :=
  if s.workers.size < cfg.maxWorkers then none else oldest s.evictable pick

/-- How the last section of `spawn_worker` ends. -/
inductive Spawned where
  | refused (reason : String)
  | reused (handle : DbHandle) (token : Token)
  | fresh (handle : DbHandle) (token : Token)
  deriving Repr,DecidableEq

def tenantWorkers (s : RouterInner) (tenant : String) : Nat :=
  s.workers.sum fun w => if w.tenantId=tenant then 1 else 0

/-- Lines 701-710 and 830-838. -/
def register (key : WorkerKey) (backend : WorkerBackendKind) (h : DbHandle) (t : Token)
    (instant : Instant) (s : RouterInner) : RouterInner :=
  {s with
    pathToHandle := s.pathToHandle.insert key h
    tokenToHandle := s.tokenToHandle.insert t h
    refTokens := s.refTokens.insert h {t}
    workers := s.workers.insert h ⟨backend,key.tenantId,∅,some t,some key.path,instant⟩
    active := some h}

/-- Lines 601-840. `spawnError` is the failure of the subprocess, if any. The
close token reads the counter after the handle took it, without a tick. -/
def spawnRegister (cfg : RouterConfig) (key : WorkerKey) (backend : WorkerBackendKind)
    (now tokenNow pid : Nat) (instant : Instant) (spawnError : Option String) (s : RouterInner) :
    Spawned × RouterInner :=
  if cfg.maxWorkersPerTenant ≤ s.tenantWorkers key.tenantId then
    (.refused ("tenant worker limit reached ("++toString cfg.maxWorkersPerTenant++
      ") for tenant "++key.tenantId),s)
  else if cfg.maxWorkers ≤ s.workers.size then
    (.refused ("worker limit reached ("++toString cfg.maxWorkers++
      ") and no idle worker was evictable"),s)
  else match s.pathToHandle.get key with
  | some h =>
    let t:=refToken now pid s.reqCounter
    (.reused h t,s.tick.bindToken h t)
  | none =>
    let h:=handleName now pid s.reqCounter
    match spawnError with
    | some e => (.refused e,s.tick)
    | none =>
      let t:=refToken tokenNow pid (s.reqCounter+1)
      (.fresh h t,s.tick.register key backend h t instant)

/-- Lines 853-870. -/
def routeTarget (handle : Option DbHandle) (s : RouterInner) : Except ToolError DbHandle :=
  match handle with
  | some h =>
    if (s.workers.get h).isSome then .ok h
    else .error (.invalidParams ("Unknown db_handle: "++h))
  | none =>
    if 1 < s.workers.size then
      .error (.invalidParams ("db_handle is required when multiple databases are open. "++
        "Provide the db_handle returned by open_idb."))
    else match s.active with
      | some h => .ok h
      | none => .error .noDatabaseOpen

/-- Lines 872-877. -/
def newReqId (s : RouterInner) : ReqId × RouterInner := (requestId s.reqCounter,s.tick)

def tenantPending (s : RouterInner) (tenant : String) : Nat :=
  s.workers.sum fun w => if w.tenantId=tenant then w.pending.size else 0

/-- What becomes of the request line on its way to the worker. -/
inductive Written where
  | flushed | unserializable (reason : String) | pipeClosed
  deriving Repr,DecidableEq

/-- Lines 888-936: the limits, the write, and the registration. -/
def routeRegister (cfg : RouterConfig) (h : DbHandle) (id : ReqId) (chan : Chan)
    (written : Written) (instant : Instant) (s : RouterInner) :
    Except ToolError Unit × RouterInner :=
  match s.workers.get h with
  | none => (.error (.invalidParams ("Worker "++h++" not found")),s)
  | some w =>
    if cfg.maxPendingPerTenant ≤ s.tenantPending w.tenantId then (.error .busy,s)
    else if cfg.maxPendingPerWorker ≤ w.pending.size then (.error .busy,s)
    else match written with
    | .unserializable e => (.error (.invalidParams ("Serialize error: "++e)),s)
    | .pipeClosed => (.error .workerClosed,s)
    | .flushed => (.ok (),{s with
        workers := s.workers.insert h
          {w with pending := w.pending.insert id chan,lastActive := instant}})

/-- Sends the same answer to every pending caller. -/
def drain (w : WorkerProcess) (cause : Cause) (message : String) : List Delivery :=
  w.pending.entries.map fun e => ⟨e.2,cause,.error message⟩

def unregister (h : DbHandle) (w : WorkerProcess) (s : RouterInner) : RouterInner :=
  {s with
    workers := s.workers.remove h
    pathToHandle := match w.openPath with
      | some p => s.pathToHandle.remove (workerKey p w.tenantId)
      | none => s.pathToHandle}

def dropTokens (h : DbHandle) (s : RouterInner) : RouterInner :=
  match s.refTokens.get h with
  | some ts => {s with
      refTokens := s.refTokens.remove h
      tokenToHandle := s.tokenToHandle.keep fun t _ => t∉ts}
  | none => s

/-- `active = workers.keys().next().cloned()` where `h` was active. -/
def repoint (h : DbHandle) (pick : Nat) (s : RouterInner) : RouterInner :=
  if s.active=some h then {s with active := s.workers.keysOf[pick%s.workers.size]?} else s

/-- Lines 954-974. -/
def closeRemove (h : DbHandle) (pick : Nat) (s : RouterInner) : List Delivery × RouterInner :=
  match s.workers.get h with
  | some w =>
    (drain w (.workerClosed h) ("Worker "++h++" closed"),
      ((s.unregister h w).dropTokens h).repoint h pick)
  | none => ([],s)

/-- Lines 725-761: nothing happens if the worker is already gone. -/
def readerEof (h : DbHandle) (pick : Nat) (s : RouterInner) : List Delivery × RouterInner :=
  match s.workers.get h with
  | some w =>
    (drain w (.stdoutClosed h) ("Worker "++h++" exited unexpectedly"),
      ((s.unregister h w).dropTokens h).repoint h pick)
  | none => ([],s)

/-- Lines 795-823: the tokens go, and `active` moves, even if the worker is gone. -/
def readerError (h : DbHandle) (error : String) (pick : Nat) (s : RouterInner) :
    List Delivery × RouterInner :=
  match s.workers.get h with
  | some w =>
    (drain w (.stdoutFailed h) ("Worker "++h++" I/O error: "++error),
      ((s.unregister h w).dropTokens h).repoint h pick)
  | none => ([],(s.dropTokens h).repoint h pick)

/-- Lines 771-783. -/
def readerLine (h : DbHandle) (r : RpcResponse) (s : RouterInner) : List Delivery × RouterInner :=
  match s.workers.get h with
  | some w => match w.pending.get r.id with
    | some c => ([⟨c,.line h r.id,r.answer⟩],{s with
        workers := s.workers.insert h {w with pending := w.pending.remove r.id}})
    | none => ([],s)
  | none => ([],s)

/-- Lines 984-992. -/
def releaseRefToken (t : Token) (s : RouterInner) : Option (DbHandle × Nat) × RouterInner :=
  match s.tokenToHandle.get t with
  | none => (none,s)
  | some h =>
    let s:={s with tokenToHandle := s.tokenToHandle.remove t}
    match s.refTokens.get h with
    | some ts => (some (h,(ts.erase t).card),
        {s with refTokens := s.refTokens.insert h (ts.erase t)})
    | none => (some (h,0),s)

/-- Lines 1200-1217: no look at `workers`. -/
def issueRef (h : DbHandle) (now : Nat) (s : RouterInner) : Token × RouterInner :=
  let t:=cliToken now s.reqCounter
  (t,s.tick.bindToken h t)

/-- Lines 1253-1263. -/
def ensureLookup (key : WorkerKey) (instant : Instant) (s : RouterInner) :
    Option DbHandle × RouterInner :=
  match s.pathToHandle.get key with
  | some h => (some h,match s.workers.get h with
    | some w => {s with workers := s.workers.insert h {w with lastActive := instant}}
    | none => s)
  | none => (none,s)

/-- Lines 2067-2081, in the order the map is walked. -/
def expired (idleTimeout : Nat) (instant : Instant) (order : List DbHandle) (s : RouterInner) :
    List DbHandle :=
  let idle:=(s.workers.entries.filter fun e =>
    s.refCount e.1=0 && e.2.pending.size=0 && idleTimeout < instant-e.2.lastActive).map Sigma.fst
  if order.isPerm idle then order else idle

structure WorkerStatus where
  handle : DbHandle
  backend : WorkerBackendKind
  tenantId : String
  openPath : Option Path
  pendingRequests : Nat
  refCount : Nat
  idle : Nat
  active : Bool
  deriving Repr,DecidableEq

/-- Lines 1030-1054, without the process id. -/
def workerStatuses (instant : Instant) (s : RouterInner) : List WorkerStatus :=
  s.workers.entries.map fun e =>
    ⟨e.1,e.2.backend,e.2.tenantId,e.2.openPath,e.2.pending.size,s.refCount e.1,
      instant-e.2.lastActive,s.active=some e.1⟩

/-- Lines 1189-1192, in the order the map is walked. -/
def allHandles (order : List DbHandle) (s : RouterInner) : List DbHandle :=
  if order.isPerm s.workers.keysOf then order else s.workers.keysOf

end RouterInner

end Router
