import IdaMcp.Router.Ops

/-!
# Running the operations

`Shared` is `RouterState`: the data under each mutex, who holds which mutex,
and the channels. From `handles` on its fields are history; no operation reads
them.
-/

namespace Router
open Lib (Map Json)

/-- The environment's share in one operation. -/
structure Env where
  now : Nat := 0
  /-- The second clock reading of a fresh spawn, for the close token. -/
  tokenNow : Nat := 0
  pid : Nat := 0
  instant : Instant := 0
  pick : Nat := 0
  order : List DbHandle := []
  spawnError : Option String := none
  written : RouterInner.Written := .flushed
  timeUp : Bool := false
  path : Path := ""
  canonical : Option Path := none
  holds : Bool := false
  resolved : ResolvedPath := ⟨none,none⟩
  probe : Except String RuntimeProbeResult := .error ""
  cached : Option Path := none
  line : WorkerLine := .closed
  rounds : Nat := 0
  nodes : List FederationNode := []
  remote : Except String Json := .error ""
  reading : Tasks.Reading := {}

/-- A request in a worker's pending map. -/
structure Registration where
  handle : DbHandle
  id : ReqId
  chan : Chan
  deriving Repr,DecidableEq

/-- What a section leaves in the history, besides its effect on `RouterInner`. -/
structure Trace where
  /-- References given out: to which worker, under which token. -/
  issued : List (DbHandle × Token) := []
  /-- Handles given to `issue_ref_for_handle`. -/
  direct : List DbHandle := []
  /-- Handles of new workers. -/
  made : List DbHandle := []
  registers : List Registration := []
  names : List ReqId := []
  /-- Workers whose stdout has ended. -/
  ends : List DbHandle := []
  /-- Handles whose worker, if there is one, is taken out of the registry. -/
  removes : List DbHandle := []
  sends : List Delivery := []

structure Shared where
  locks : Mutex → Option Nat
  permits : Nat
  nextChan : Nat
  inner : RouterInner
  warmPool : WarmPool
  cachedProbe : Option RuntimeProbeResult
  prewarmQueue : PrewarmQueueState
  routeQueue : RouteQueueState
  tasks : Tasks.TaskRegistry
  nextHandle : Nat
  sent : List Delivery
  /-- The handles made so far. -/
  handles : List DbHandle
  /-- The tokens made so far. -/
  tokens : List Token
  /-- The requests registered so far. -/
  registered : List Registration
  /-- The workers whose reader has seen the end of stdout. -/
  ended : List DbHandle
  /-- The request ids handed out, with the task that got each. -/
  named : List (ReqId × Nat)
  /-- The channels made, with the request each was made for. -/
  channels : List (Chan × ReqId)
  /-- The tasks of the registry, with the pool task that made each. -/
  makers : List (TaskId × Nat)
  /-- The queued tasks whose execution was started, and the executions that have not ended. -/
  started : List TaskId
  running : List TaskId
  /-- The tasks that another node has accepted. -/
  submitted : List TaskId
  /-- The tasks that were cancelled while they were queued, with the number of executions
  started before. -/
  revoked : List (TaskId × Nat)

def Shared.new (cfg : RouterConfig) : Shared where
  locks := fun _ => none
  permits := cfg.maxConcurrentSpawns
  nextChan := 0
  inner := .new
  warmPool := ∅
  cachedProbe := none
  prewarmQueue := .new
  routeQueue := .new
  tasks := .new 1
  nextHandle := 0
  sent := []
  handles := []
  tokens := []
  registered := []
  ended := []
  named := []
  channels := []
  makers := []
  started := []
  running := []
  submitted := []
  revoked := []

namespace InnerOp

def run (cfg : RouterConfig) : (o : InnerOp) → Env → RouterInner →
    o.Res × List Delivery × RouterInner
  | .spawnLookup key _,e,s => let r:=s.spawnLookup key e.now e.pid; (r.1,[],r.2)
  | .evictCandidate,e,s => (s.evictCandidate cfg e.pick,[],s)
  | .spawnRegister key backend _,e,s =>
    let r:=s.spawnRegister cfg key backend e.now e.tokenNow e.pid e.instant e.spawnError
    (r.1,[],r.2)
  | .routeTarget h,_,s => (s.routeTarget h,[],s)
  | .newReqId,_,s => (s.newReqId.1,[],s.newReqId.2)
  | .routeRegister h id c,e,s =>
    let r:=s.routeRegister cfg h id c e.written e.instant; (r.1,[],r.2)
  | .closeRemove h _,e,s => ((),s.closeRemove h e.pick)
  | .releaseRefToken t _,_,s => ((s.releaseRefToken t).1,[],(s.releaseRefToken t).2)
  | .issueRef h,e,s => ((s.issueRef h e.now).1,[],(s.issueRef h e.now).2)
  | .ensureLookup key,e,s => let r:=s.ensureLookup key e.instant; (r.1,[],r.2)
  | .pathLookup key _,_,s => (s.pathToHandle.get key,[],s)
  | .hasPath key,_,s => ((s.pathToHandle.get key).isSome,[],s)
  | .backendOf h,_,s =>
    (((s.workers.get h).map fun w => w.backend.asCliArg).getD "unknown",[],s)
  | .expired idle,e,s => (s.expired idle e.instant e.order,[],s)
  | .allHandles,e,s => (s.allHandles e.order,[],s)
  | .activeHandle,_,s => (s.active,[],s)
  | .workerCount,_,s => (s.workers.size,[],s)
  | .exePath,_,s => ((),[],s)
  | .status,e,s => ((s.workerStatuses e.instant,s.active),[],s)
  | .readerEof h,e,s => ((),s.readerEof h e.pick)
  | .readerLine h r,_,s => ((),s.readerLine h r)
  | .readerError h err,e,s => ((),s.readerError h err e.pick)

def issued : (o : InnerOp) → o.Res → List (DbHandle × Token)
  | .spawnLookup _ _,r => match r with
    | some ht => [ht]
    | none => []
  | .spawnRegister _ _ _,r => match r with
    | .reused h t | .fresh h t => [(h,t)]
    | .refused _ => []
  | .issueRef h,t => [(h,t)]
  | _,_ => []

def direct : InnerOp → List DbHandle
  | .issueRef h => [h]
  | _ => []

def made : (o : InnerOp) → o.Res → List DbHandle
  | .spawnRegister _ _ _,r => match r with
    | .fresh h _ => [h]
    | _ => []
  | _,_ => []

def registers : (o : InnerOp) → o.Res → List Registration
  | .routeRegister h id c,r => match r with
    | .ok _ => [⟨h,id,c⟩]
    | .error _ => []
  | _,_ => []

def names : (o : InnerOp) → o.Res → List ReqId
  | .newReqId,id => [id]
  | _,_ => []

def ends : InnerOp → List DbHandle
  | .readerEof h | .readerError h _ => [h]
  | _ => []

def removes : InnerOp → List DbHandle
  | .closeRemove h _ | .readerEof h | .readerError h _ => [h]
  | _ => []

def trace (o : InnerOp) (r : o.Res) (sends : List Delivery) : Trace :=
  ⟨o.issued r,o.direct,o.made r,o.registers r,o.names r,o.ends,o.removes,sends⟩

end InnerOp

namespace Shared

def commit (s : Shared) (i : Nat) (tr : Trace) (inner : RouterInner) : Shared :=
  {s with
    inner := inner
    sent := tr.sends++s.sent
    handles := tr.made++s.handles
    tokens := tr.issued.map Prod.snd++s.tokens
    registered := tr.registers++s.registered
    ended := tr.ends++s.ended
    named := tr.names.map (fun id => (id,i))++s.named}

/-- The channel's sender is still in some pending map. -/
def senderAlive (s : Shared) (c : Chan) : Bool :=
  s.inner.workers.entries.any fun e => e.2.pending.entries.any fun x => x.2=c

/-- The calls to `cancel_task` that found a queued task. -/
def revocations (s : Shared) (ids : List TaskId) : List (TaskId × Nat) :=
  (ids.filter fun id => s.routeQueue.queued.any fun t => t.taskId=id).map
    fun id => (id,s.started.count id)

def setLock (s : Shared) (m : Mutex) (owner : Option Nat) : Shared :=
  {s with locks := fun x => if x=m then owner else s.locks x}

end Shared

def WarmOp.run (cfg : RouterConfig) : (o : WarmOp) → Env → WarmPool → o.Res × WarmPool
  | .retain h,_,p => ((),p.retain h)
  | .full,_,p => (decide (cfg.maxWarmWorkers ≤ Map.size p),p)
  | .oldest,e,p => (p.oldest e.pick,p)
  | .insert path h t tenant cache,e,p =>
    ((),Map.insert p path ⟨h,t,path,cache,tenant,e.instant,e.instant⟩)
  | .take path,_,p => (Map.get p path,Map.remove p path)
  | .pinned,_,p => (p.pinned,p)
  | .list,_,p => (p.entries.map Sigma.snd,p)

def ProbeOp.run : (o : ProbeOp) → Option RuntimeProbeResult → o.Res × Option RuntimeProbeResult
  | .read,p => (p,p)
  | .statusRead,p => (p,p)
  | .store probe,_ => ((),some probe)

def PrewarmOp.run (cfg : RouterConfig) : (o : PrewarmOp) → Env → PrewarmQueueState →
    o.Res × PrewarmQueueState
  | .enqueue path priority keepWarm tenant,e,q =>
    q.enqueue cfg path priority keepWarm tenant e.instant
  | .next,e,q => q.next cfg e.instant
  | .finish id tenant summary,_,q => ((),q.finish id tenant summary)
  | .list,_,q => ((q.queued,q.active.entries.map Sigma.snd,q.recent),q)

def RouteOp.run (cfg : RouterConfig) : (o : RouteOp) → Env → RouteQueueState →
    o.Res × RouteQueueState
  | .room tenant,_,q => (q.room cfg tenant,q)
  | .push id path method params tenant priority known,e,q =>
    ((),q.push ⟨id,path,method,params,tenant,priority,e.instant⟩ known)
  | .cancel id,_,q => q.cancel id
  | .next,e,q => q.next cfg e.instant
  | .finish id tenant,_,q => ((),q.finish id tenant)
  | .list,_,q => ((q.queued,q.active.entries.map Sigma.snd),q)

namespace RouteOp

/-- The tasks whose execution the operation starts. -/
def starts : (o : RouteOp) → o.Res → List TaskId
  | .next,r => match r with
    | some t => [t.taskId]
    | none => []
  | _,_ => []

def finishes : RouteOp → List TaskId
  | .finish id _ => [id]
  | _ => []

/-- The tasks whose cancellation the operation decides. -/
def cancels : (o : RouteOp) → o.Res → List TaskId
  | .cancel id,r => if r then [id] else []
  | _,_ => []

end RouteOp

/-- The same for the registry, and the tasks that the operation makes. -/
def taskCancels : (o : Tasks.TaskOp) → o.Res → List TaskId
  | .cancel id,r => if r then [id] else []
  | _,_ => []

def taskMade : (o : Tasks.TaskOp) → o.Res → List TaskId
  | .createKeyed _ _,r | .createWithKey _ _ _,r | .createWithMeta _ _ _ _,r => r.toOption.toList
  | .create _ _,r => r.toList
  | .createCompleted _ _,r => [r]
  | _,_ => []

/-- Whether a node took the task: its reply has an id. -/
def accepted (reply : Except String Json) : Option TaskId :=
  reply.toOption.bind fun v => (v.get? "task_id").bind Json.asStr

/-- Any reply: the router has no say in it. -/
def WorldOp.reply : (o : WorldOp) → Env → o.Res
  | .expandPath _,e => e.path
  | .canonicalize _,e => e.canonical
  | .exists _,e | .isSbpfElf _,e | .graceOver _,e => e.holds
  | .resolveOpenPath _,e => e.resolved
  | .runProbe,e => e.probe
  | .storeLookup _,e => e.cached
  | .readLine _,e => e.line
  | .rounds,e => e.rounds
  | .readyNodes _ _,e => e.nodes
  | .fetchRemoteTask _ _,e => e.remote
  | .storeRecord _ _,_ | .probeNodes,_ | .pruneCaches _,_ | .respond _,_ => ()

def exec (cfg : RouterConfig) (i : Nat) : (op : Op) → Env → Shared → Option (op.Res × Shared)
  | .lock m,_,s => if s.locks m=none then some ((),s.setLock m (some i)) else none
  | .unlock m,_,s => some ((),s.setLock m none)
  | .acquireSpawn,_,s => if 0 < s.permits then some ((),{s with permits := s.permits-1}) else none
  | .releaseSpawn,_,s => some ((),{s with permits := s.permits+1})
  | .channel id,_,s => some (s.nextChan,{s with
      nextChan := s.nextChan+1
      channels := (s.nextChan,id)::s.channels})
  | .receive c,e,s => match s.sent.find? fun d => d.chan=c with
    | some d => some (.answer d.answer,s)
    | none =>
      if s.senderAlive c then if e.timeUp then some (.timedOut,s) else none
      else some (.dropped,s)
  | .inner o,e,s => let r:=o.run cfg e s.inner; some (r.1,s.commit i (o.trace r.1 r.2.1) r.2.2)
  | .warm o,e,s => let r:=o.run cfg e s.warmPool; some (r.1,{s with warmPool := r.2})
  | .probe o,_,s => let r:=o.run s.cachedProbe; some (r.1,{s with cachedProbe := r.2})
  | .prewarm o,e,s => let r:=o.run cfg e s.prewarmQueue; some (r.1,{s with prewarmQueue := r.2})
  | .route o,e,s =>
    let r:=o.run cfg e s.routeQueue
    some (r.1,{s with
      routeQueue := r.2
      started := o.starts r.1++s.started
      running := o.starts r.1++s.running.diff o.finishes
      revoked := s.revocations (o.cancels r.1)++s.revoked})
  | .world o,e,s => some (o.reply e,s)
  | .spawn _,_,s => some ((),s)
  | .tasks o,e,s =>
    let r:=o.run e.reading s.tasks
    some (r.1,{s with
      tasks := r.2
      makers := (taskMade o r.1).map (fun id => (id,i))++s.makers
      revoked := s.revocations (taskCancels o r.1)++s.revoked})
  | .submit id _ _,e,s =>
    some (e.remote,{s with submitted := (accepted e.remote).toList.map (fun _ => id)++s.submitted})
  | .newHandle,_,s => some (s.nextHandle,{s with nextHandle := s.nextHandle+1})
  | .tick h,_,s => if h∈s.tasks.aborted then none else some ((),s)

/-- The tasks an operation starts: a fresh worker comes with its reader. -/
def forks : (op : Op) → op.Res → List Job
  | .spawn job,_ => [job]
  | .inner o,r => (o.made r).map .reader
  | _,_ => []

end Router
