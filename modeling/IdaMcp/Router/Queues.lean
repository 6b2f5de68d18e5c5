import Mathlib.Data.List.Sort
import IdaMcp.Router.Inner

/-!
# The warm pool and the two queues

What the holders of `warm_pool`, `prewarm_queue` and `route_queue` do to the
data under those mutexes (`src/src/router/mod.rs`).
-/

namespace Router
open Lib (Map Json)

abbrev WarmPool := Map Path WarmLease

namespace WarmPool

/-- Lines 949-952. -/
def retain (h : DbHandle) (pool : WarmPool) : WarmPool := Map.keep pool fun _ l => l.handle≠h

/-- Lines 1521-1528. -/
def oldest (pick : Nat) (pool : WarmPool) : Option Path :=
  RouterInner.oldest (pool.entries.map fun e => (e.1,e.2.lastHit)) pick

/-- Lines 2032-2036, without the extension that is cut off. -/
def pinned (pool : WarmPool) : List Path := pool.entries.filterMap fun e => e.2.cachePath

end WarmPool

/-- The order of both queues: higher priority first, then older first. -/
def Before (p q : Nat) (a b : Instant) : Prop := q < p ∨ (p=q ∧ a ≤ b)

instance (p q : Nat) (a b : Instant) : Decidable (Before p q a b) :=
  inferInstanceAs (Decidable (q < p ∨ (p=q ∧ a ≤ b)))

def tenantCount (m : Map String Nat) (tenant : String) : Nat := (m.get tenant).getD 0

def countUp (m : Map String Nat) (tenant : String) : Map String Nat :=
  m.insert tenant (tenantCount m tenant+1)

/-- `saturating_sub(1)`, and the entry goes when it reaches zero. -/
def countDown (m : Map String Nat) (tenant : String) : Map String Nat :=
  match m.get tenant with
  | some n => if n-1=0 then m.remove tenant else m.insert tenant (n-1)
  | none => m

namespace PrewarmQueueState

def new : PrewarmQueueState := ⟨[],∅,[],0,∅⟩

/-- Lines 1567-1586: the new task's id and the length of the queue. -/
def enqueue (cfg : RouterConfig) (path : Path) (priority : Nat) (keepWarm : Bool)
    (tenantId : String) (instant : Instant) (q : PrewarmQueueState) :
    Except ToolError (TaskId × Nat) × PrewarmQueueState :=
  if cfg.maxQueuedPrewarms ≤ q.queued.length then (.error .busy,q)
  else
    let taskId:="prewarm-"++toString q.nextTaskId
    let task : QueuedPrewarmTask:=⟨taskId,path,tenantId,priority,keepWarm,instant⟩
    let queued:=(q.queued++[task]).insertionSort
      fun a b => Before a.priority b.priority a.enqueuedAt b.enqueuedAt
    (.ok (taskId,queued.length),{q with queued := queued,nextTaskId := q.nextTaskId+1})

/-- Lines 1881-1915. -/
def next (cfg : RouterConfig) (instant : Instant) (q : PrewarmQueueState) :
    Option QueuedPrewarmTask × PrewarmQueueState :=
  if cfg.maxActivePrewarms ≤ q.active.size then (none,q)
  else match q.queued.findIdx? fun t =>
      tenantCount q.tenantActive t.tenantId < cfg.maxPrewarmsPerTenant with
  | none => (none,q)
  | some i => match q.queued[i]? with
    | none => (none,q)
    | some t => (some t,{q with
        queued := q.queued.eraseIdx i
        tenantActive := countUp q.tenantActive t.tenantId
        active := q.active.insert t.taskId
          ⟨t.taskId,t.path,t.tenantId,t.priority,t.keepWarm,instant⟩})

/-- Lines 1924-1951: the sixty-four latest summaries are kept. -/
def finish (taskId : TaskId) (tenantId : String) (summary : Json) (q : PrewarmQueueState) :
    PrewarmQueueState :=
  let recent:=q.recent++[summary]
  {q with
    active := q.active.remove taskId
    tenantActive := countDown q.tenantActive tenantId
    recent := recent.drop (recent.length-64)}

end PrewarmQueueState

namespace RouteQueueState

def new : RouteQueueState := ⟨[],∅,∅⟩

/-- Lines 1613-1621. -/
def room (cfg : RouterConfig) (tenantId : String) (q : RouteQueueState) : Except ToolError Unit :=
  if cfg.maxQueuedTasks ≤ q.queued.length then .error .busy
  else if cfg.maxTasksPerTenant ≤ tenantCount q.tenantActive tenantId then .error .busy
  else .ok ()

/-- Lines 1642-1657; `known` says that the registry has the task. -/
def push (task : QueuedRouteTask) (known : Bool) (q : RouteQueueState) : RouteQueueState :=
  if known && (q.active.get task.taskId).isNone then
    {q with
      queued := (q.queued++[task]).insertionSort
        fun a b => Before a.priority b.priority a.enqueuedAt b.enqueuedAt}
  else q

/-- Lines 1869-1876: whether the task was still waiting. -/
def cancel (taskId : TaskId) (q : RouteQueueState) : Bool × RouteQueueState :=
  match q.queued.findIdx? fun t => t.taskId=taskId with
  | some i => (true,{q with queued := q.queued.eraseIdx i})
  | none => (false,q)

/-- Lines 1958-1992. -/
def next (cfg : RouterConfig) (instant : Instant) (q : RouteQueueState) :
    Option QueuedRouteTask × RouteQueueState :=
  if cfg.maxActiveTasks ≤ q.active.size then (none,q)
  else match q.queued.findIdx? fun t =>
      tenantCount q.tenantActive t.tenantId < cfg.maxTasksPerTenant with
  | none => (none,q)
  | some i => match q.queued[i]? with
    | none => (none,q)
    | some t => (some t,{q with
        queued := q.queued.eraseIdx i
        tenantActive := countUp q.tenantActive t.tenantId
        active := q.active.insert t.taskId
          ⟨t.taskId,t.path,t.method,t.tenantId,t.priority,instant⟩})

/-- Lines 2012-2020. -/
def finish (taskId : TaskId) (tenantId : String) (q : RouteQueueState) : RouteQueueState :=
  {q with
    active := q.active.remove taskId
    tenantActive := countDown q.tenantActive tenantId}

end RouteQueueState

end Router
