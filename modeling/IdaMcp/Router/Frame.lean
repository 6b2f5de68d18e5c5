import IdaMcp.Router.Jobs

/-!
# What the composite functions keep

A monitor follows a few operations of a task and ignores the rest. `Parts` says
that the parts no protocol is about keep an assertion `I` on the monitor's
state; then so do the functions built from them, whatever the monitor is. Each
monitor is left with the functions its own operations stand in.
-/

namespace Router
open Lib (Json Monitor)
open Lib.Monitor (keeps_pure keeps_halt keeps_bind keeps_forEach)

/-- Sections that look something up, or that only a status report reads. -/
def InnerOp.quiet : InnerOp → Bool
  | .hasPath _ | .backendOf _ | .allHandles | .activeHandle | .workerCount | .exePath |
    .pathLookup _ false => true
  | _ => false

/-- The operations by which a task gets into the queue or to another node. -/
def RouteOp.quiet : RouteOp → Bool
  | .push _ _ _ _ _ _ _ => false
  | _ => true

def taskQuiet : Tasks.TaskOp → Bool
  | .createWithKey _ _ _ => false
  | _ => true

def Job.forked : Job → Bool
  | .prewarmTask _ | .routeTask _ | .pollRemote _ _ _ _ => true
  | _ => false

variable {M : Type} {A : Monitor Op.Res M} {I : M → Prop}

structure Parts (A : Monitor Op.Res M) (I : M → Prop) : Prop where
  world : ∀ o, A.Keeps I (world o)
  acquire : A.Keeps I (act .acquireSpawn)
  release : A.Keeps I (act .releaseSpawn)
  spawnRoute : ∀ task, A.Keeps I (act (.spawn (.routeTask task)))
  look : ∀ o, o.quiet=true → A.Keeps I (locked o)
  pinned : A.Keeps I (withLock .warmPool (act (.warm .pinned)))
  queuePrewarm : ∀ path priority keepWarm tenantId,
    A.Keeps I (withLock .prewarmQueue (act (.prewarm (.enqueue path priority keepWarm tenantId))))
  drivePrewarm : ∀ n, A.Keeps I (drivePrewarmQueue n)
  route : ∀ o, o.quiet=true → A.Keeps I (withLock .routeQueue (act (.route o)))
  tasks : ∀ o, taskQuiet o=true → A.Keeps I (act (.tasks o))
  tick : ∀ h, A.Keeps I (act (.tick h))
  enqueue : ∀ path method tenantId params, A.Keeps I (enqueueTask path method tenantId params)
  cancel : ∀ id, A.Keeps I (cancelTask id)
  probe : A.Keeps I probeWorkerBackend
  status : ∀ b, A.Keeps I (statusSnapshotInner b)
  request : ∀ h method params, A.Keeps I (routeRequest h method params)
  close : ∀ h, A.Keeps I (closeWorker h .explicit)

/-- Requests alone keep what each request keeps. -/
theorem keeps_detectAndRename (hreq : ∀ h method params, A.Keeps I (routeRequest h method params))
    (handle : DbHandle) : A.Keeps I (detectAndRenameSbpfEntry handle) := by
  refine keeps_bind (hreq _ _ _) fun r => ?_
  rcases r with _ | v
  · exact keeps_pure _
  dsimp only
  split
  · exact keeps_pure _
  refine keeps_bind (hreq _ _ _) fun r => ?_
  rcases r with _ | graph
  · exact keeps_pure _
  dsimp only
  split
  · exact keeps_pure _
  split
  · exact keeps_pure _
  · exact keeps_bind (hreq _ _ _) fun _ => keeps_pure _

theorem keeps_drivePrewarm (hnext : A.Keeps I (withLock .prewarmQueue (act (.prewarm .next))))
    (hspawn : ∀ task, A.Keeps I (act (.spawn (.prewarmTask task)))) (n : Nat) :
    A.Keeps I (drivePrewarmQueue n) := by
  induction n with
  | zero => exact keeps_halt
  | succ n ih =>
    refine keeps_bind hnext fun r => ?_
    rcases r with _ | task
    · exact keeps_pure _
    · exact keeps_bind (hspawn task) fun _ => ih

theorem keeps_drive (hnext : A.Keeps I (withLock .routeQueue (act (.route .next))))
    (hmessage : ∀ id message, A.Keeps I (act (.tasks (.updateMessage id message))))
    (hspawn : ∀ task, A.Keeps I (act (.spawn (.routeTask task)))) (n : Nat) :
    A.Keeps I (driveRouteQueue n) := by
  induction n with
  | zero => exact keeps_halt
  | succ n ih =>
    refine keeps_bind hnext fun r => ?_
    rcases r with _ | task
    · exact keeps_pure _
    · exact keeps_bind (hmessage _ _) fun _ => keeps_bind (hspawn _) fun _ => ih

namespace Parts
variable (h : Parts A I)
include h

theorem canonicalPath (path : Path) : A.Keeps I (canonicalPath path) :=
  keeps_bind (h.world _) fun _ => keeps_bind (h.world _) fun _ => keeps_pure _

theorem respond (r : Except ToolError Json) : A.Keeps I (respond r) := h.world _
theorem answerCli (r : Except (Int × String) Json) : A.Keeps I (answerCli r) :=
  h.world _

theorem openFresh (handle : DbHandle) (canonical canonicalOpen : Path)
    (idbOutput : Option Path) : A.Keeps I (openFresh handle canonical canonicalOpen idbOutput) := by
  have hend : A.Keeps I (Router.world (.isSbpfElf canonical) >>= fun b =>
      if b=true then detectAndRenameSbpfEntry handle >>= fun _ => pure (.ok ())
      else pure (.ok ()) : Run (Except ToolError Unit)) := by
    refine keeps_bind (h.world _) fun b => ?_
    split
    · exact keeps_bind (keeps_detectAndRename h.request _) fun _ => keeps_pure _
    · exact keeps_pure _
  refine keeps_bind (h.request _ _ _) fun r => ?_
  rcases r with e | v
  · exact keeps_bind (h.close _) fun _ => keeps_pure _
  · cases idbOutput with
    | none => exact hend
    | some idb => exact keeps_bind (h.world _) fun _ => hend

theorem sayGoodbye (handle : DbHandle) : A.Keeps I (sayGoodbye handle) :=
  keeps_bind (h.request _ _ _) fun _ => keeps_bind (h.request _ _ _) fun _ => keeps_pure _

theorem closeByPath (path : Path) (tenantId : Option String) :
    A.Keeps I (closeByPath path tenantId false) := by
  refine keeps_bind (h.look _ rfl) fun r => ?_
  rcases r with _ | handle
  · exact keeps_pure _
  · exact keeps_bind (h.sayGoodbye _) fun _ => keeps_bind (h.close _) fun _ => keeps_pure _

theorem driveRouteQueue (n : Nat) : A.Keeps I (driveRouteQueue n) :=
  keeps_drive (h.route _ rfl) (fun _ _ => h.tasks _ rfl) h.spawnRoute n

theorem enqueuePrewarm (path : Path) (priority : Nat) (keepWarm : Bool)
    (tenantId : Option String) : A.Keeps I (enqueuePrewarm path priority keepWarm tenantId) := by
  refine keeps_bind (h.queuePrewarm _ _ _ _) fun r => ?_
  rcases r with e | ⟨taskId,queued⟩
  · exact keeps_pure _
  · exact keeps_bind (h.world _) fun _ => keeps_bind (h.drivePrewarm _) fun _ => keeps_pure _

theorem pollRemote (handle : Nat) (taskId : TaskId) (node : FederationNode) (remoteTaskId : TaskId)
    (n : Nat) : A.Keeps I (pollRemote handle taskId node remoteTaskId n) := by
  induction n with
  | zero => exact keeps_halt
  | succ n ih =>
    refine keeps_bind (h.tick _) fun _ => keeps_bind (h.world _) fun r => ?_
    rcases r with err | payload
    · exact keeps_bind (h.tasks _ rfl) fun _ => ih
    refine keeps_bind (h.tasks _ rfl) fun _ => ?_
    split
    · exact h.tasks _ rfl
    split
    · exact h.tasks _ rfl
    split
    · exact h.tasks _ rfl
    · exact ih

theorem shutdownAll : A.Keeps I shutdownAll :=
  keeps_bind (h.look _ rfl) fun _ => keeps_forEach (fun _ => h.close _) _

theorem pruneCaches : A.Keeps I pruneCaches :=
  keeps_bind h.pinned fun _ => h.world _

theorem renameEntry (handle : DbHandle) (entry : String) (graph : Option Json) :
    A.Keeps I (renameEntry handle entry graph) := by
  unfold Router.renameEntry
  split
  · exact keeps_pure _
  split
  · exact keeps_pure _
  · exact keeps_bind (h.request _ _ _) fun _ => keeps_bind (h.request _ _ _) fun _ => keeps_pure _

theorem detectSbpfEntry (handle : DbHandle) : A.Keeps I (detectSbpfEntry handle) := by
  refine keeps_bind (h.request _ _ _) fun r => ?_
  dsimp only
  split
  · exact keeps_pure _
  · exact keeps_bind (h.request _ _ _) fun _ => keeps_bind (h.renameEntry _ _ _) fun _ =>
      keeps_pure _

theorem openedReply (handle : DbHandle) (closeToken : Option Token) (isSbpf : Bool)
    (value : Json) : A.Keeps I (openedReply handle closeToken isSbpf value) := by
  unfold Router.openedReply
  split
  · cases isSbpf with
    | true => exact keeps_bind (h.detectSbpfEntry _) fun _ => keeps_pure _
    | false => exact keeps_bind (keeps_pure _) fun _ => keeps_pure _
  · exact keeps_pure _

/-! ### Functions with a protocol of their own somewhere inside -/

theorem spawnFresh (key : WorkerKey) (ensure : Bool) (hevict : ∀ n, A.Keeps I (evictLoop n))
    (hreg : ∀ backend, A.Keeps I (locked (.spawnRegister key backend ensure))) :
    A.Keeps I (spawnFresh key ensure) := by
  refine keeps_bind h.probe fun r => ?_
  rcases r with e | probe
  · exact keeps_pure _
  dsimp only
  split
  · exact keeps_pure _
  refine keeps_bind (h.world _) fun n => keeps_bind (hevict n) fun _ =>
    keeps_bind (hreg _) fun r => ?_
  cases r <;> exact keeps_pure _

theorem spawnWorker (path : Path) (tenantId : Option String) (ensure : Bool)
    (hevict : ∀ n, A.Keeps I (evictLoop n))
    (hlook : ∀ key, A.Keeps I (locked (.spawnLookup key ensure)))
    (hreg : ∀ key backend, A.Keeps I (locked (.spawnRegister key backend ensure))) :
    A.Keeps I (spawnWorker path tenantId ensure) := by
  refine keeps_bind (h.canonicalPath _) fun _ => keeps_bind (hlook _) fun r => ?_
  rcases r with _ | ⟨handle,token⟩
  · exact keeps_bind h.acquire fun _ => keeps_bind (h.spawnFresh _ _ hevict (hreg _)) fun _ =>
      keeps_bind h.release fun _ => keeps_pure _
  · exact keeps_pure _

theorem ensure (path : Path) (tenantId : Option String)
    (hspawn : ∀ tenant, A.Keeps I (Router.spawnWorker path tenant true))
    (hrel : ∀ t, A.Keeps I (releaseRefToken t false))
    (hlook : ∀ key, A.Keeps I (locked (.ensureLookup key)))
    (hissue : ∀ handle, A.Keeps I (issueFor handle)) :
    A.Keeps I (ensureWorkerWithRef path tenantId) := by
  have hopen (handle : DbHandle) (c o : Path) (idb : Option Path) :
      A.Keeps I (openAndIssue handle c o idb) := by
    refine keeps_bind (h.openFresh _ _ _ _) fun r => ?_
    rcases r with e | _
    · exact keeps_pure _
    · exact hissue handle
  refine keeps_bind (h.world _) fun _ => keeps_bind (h.canonicalPath _) fun _ =>
    keeps_bind (h.canonicalPath _) fun _ => keeps_bind (hlook _) fun r => ?_
  rcases r with _ | handle
  · refine keeps_bind (hspawn _) fun r => ?_
    rcases r with e | ⟨handle,_ | token⟩
    · exact keeps_pure _
    · exact hopen handle _ _ _
    · exact keeps_bind (hrel _) fun _ => hopen handle _ _ _
  · exact hissue handle

theorem openIdb (req : OpenIdbRequest)
    (hspawn : ∀ path tenant, A.Keeps I (Router.spawnWorker path tenant false)) :
    A.Keeps I (openIdbRouted req) := by
  refine keeps_bind (h.world _) fun _ => keeps_bind (h.world _) fun _ =>
    keeps_bind (hspawn _ _) fun r => ?_
  rcases r with e | ⟨handle,token⟩
  · exact h.respond _
  refine keeps_bind (h.request _ _ _) fun r => ?_
  rcases r with e | value
  · exact h.respond _
  · exact keeps_bind (h.openedReply _ _ _ _) fun _ => h.respond _

theorem installWarmLease (hfull : A.Keeps I (withLock .warmPool (act (.warm .full))))
    (holdest : A.Keeps I (withLock .warmPool (act (.warm .oldest))))
    (hlease : ∀ p, A.Keeps I (releaseWarmLease p)) (path : Path) (handle : DbHandle) (token : Token)
    (tenantId : String) (cache : Option Path) (hins : A.Keeps I (withLock .warmPool
      (act (.warm (.insert path handle token tenantId cache))))) :
    A.Keeps I (installWarmLease path handle token tenantId cache) := by
  have hroom (n : Nat) : A.Keeps I (makeRoom n) := by
    induction n with
    | zero => exact keeps_halt
    | succ n ih =>
      refine keeps_bind hfull fun b => ?_
      split
      · refine keeps_bind holdest fun r => ?_
        rcases r with _ | p
        · exact keeps_pure _
        · exact keeps_bind (hlease p) fun _ => ih
      · exact keeps_pure _
  exact keeps_bind (h.world _) fun n => keeps_bind (hroom n) fun _ => hins

omit h in
theorem settlePrewarm (keepWarm alreadyOpen : Bool) (canonical : Path) (handle : DbHandle)
    (token : Token) (tenantId : String) (cache : Option Path)
    (hinstall : A.Keeps I (Router.installWarmLease canonical handle token tenantId cache))
    (hrel : A.Keeps I (releaseRefToken token false))
    (hclose : A.Keeps I (Router.closeByPath canonical (some tenantId) true)) :
    A.Keeps I (settlePrewarm keepWarm alreadyOpen canonical handle token tenantId cache) := by
  unfold Router.settlePrewarm
  split
  · exact keeps_bind hinstall fun _ => keeps_pure _
  split
  · refine keeps_bind hrel fun r => ?_
    rcases r with _ | ⟨_,_ | _⟩
    · exact keeps_pure _
    · refine keeps_bind hclose fun r => ?_
      cases r <;> exact keeps_pure _
    · exact keeps_pure _
  · exact keeps_bind hrel fun _ => keeps_pure _

theorem prewarmPath (path : Path) (keepWarm : Bool) (tenantId : String)
    (hensure : ∀ tenant, A.Keeps I (ensureWorkerWithRef path tenant))
    (hsettle : ∀ already canonical handle token tenant cache,
      A.Keeps I (Router.settlePrewarm keepWarm already canonical handle token tenant cache)) :
    A.Keeps I (prewarmPathWithOptions path keepWarm tenantId) := by
  refine keeps_bind (h.world _) fun _ => keeps_bind (h.world _) fun b => ?_
  split
  · exact keeps_pure _
  refine keeps_bind (h.world _) fun _ => keeps_bind (h.look _ rfl) fun _ =>
    keeps_bind (h.world _) fun _ => keeps_bind (hensure _) fun r => ?_
  rcases r with e | ⟨handle,token⟩
  · exact keeps_pure _
  refine keeps_bind (h.look _ rfl) fun _ => keeps_bind (h.request _ _ _) fun _ =>
    keeps_bind (h.world _) fun _ => keeps_bind (hsettle _ _ _ _ _ _) fun r => ?_
  cases r <;> exact keeps_pure _

theorem runQueued (task : QueuedRouteTask)
    (hensure : ∀ path tenant, A.Keeps I (ensureWorkerWithRef path tenant))
    (hrel : ∀ t, A.Keeps I (releaseRefToken t false)) : A.Keeps I (runQueued task) := by
  refine keeps_bind (hensure _ _) fun r => ?_
  rcases r with e | ⟨handle,token⟩
  · exact keeps_pure _
  refine keeps_bind (h.request _ _ _) fun r => ?_
  rcases r with e | value
  · exact keeps_pure _
  · exact keeps_bind (hrel _) fun _ => keeps_pure _

theorem cliRequest (path tenantId : Option String) (method : String) (params : Json)
    (hensure : ∀ path tenant, A.Keeps I (ensureWorkerWithRef path tenant))
    (hfork : ∀ t, A.Keeps I (act (.spawn (.releaseRef t)))) :
    A.Keeps I (cliRequest path tenantId method params) := by
  cases path with
  | none => exact h.answerCli _
  | some path =>
    refine keeps_bind (hensure _ _) fun r => ?_
    rcases r with e | ⟨handle,token⟩
    · exact h.answerCli _
    · exact keeps_bind (h.request _ _ _) fun _ => keeps_bind (hfork _) fun _ => h.answerCli _

theorem cliEnqueue (path method tenantId : Option String) (params : Json) :
    A.Keeps I (cliEnqueue path method tenantId params) := by
  unfold Router.cliEnqueue
  split
  · exact keeps_bind (h.enqueue _ _ _ _) fun _ => h.answerCli _
  · exact h.answerCli _

theorem enqueuez (value : Json) : A.Keeps I (enqueuez value) := by
  unfold Router.enqueuez
  split
  · refine keeps_bind (h.enqueue _ _ _ _) fun r => ?_
    cases r <;> exact h.world _
  · exact h.world _

theorem cliPrewarm (path tenantId : Option String) (params : Json) (hprewarm : ∀ path tenant,
      A.Keeps I (prewarmPathWithOptions path (boolParam params "keep_warm") tenant)) :
    A.Keeps I (cliPrewarm path tenantId params) := by
  cases path with
  | none => exact h.answerCli _
  | some path =>
    unfold Router.cliPrewarm
    dsimp only
    split
    · exact keeps_bind (h.enqueuePrewarm _ _ _ _) fun _ => h.answerCli _
    · exact keeps_bind (hprewarm _ _) fun _ => h.answerCli _

omit h in
theorem prewarm_primary_iff (request : String) :
    Tools.primaryNameFor request="prewarm" ↔ request="prewarm" := by
  constructor
  · exact fun h => Tools.eq_of_primaryNameFor h (by decide +kernel)
  · rintro rfl
    decide +kernel

theorem cli (request : String) (params : Json) (hprewarm : request="prewarm" → ∀ path tenant,
      A.Keeps I (prewarmPathWithOptions path (boolParam params "keep_warm") tenant))
    (hrequest : request≠"prewarm" → ∀ path tenantId method,
      A.Keeps I (Router.cliRequest path tenantId method params)) :
    A.Keeps I (dispatchCliRequest request params) := by
  unfold dispatchCliRequest
  dsimp only
  split
  · split
    · exact h.answerCli _
    · exact keeps_bind (h.canonicalPath _) fun _ => keeps_bind (h.closeByPath _ _) fun _ =>
        h.answerCli _
  split
  · exact keeps_bind h.shutdownAll fun _ => h.answerCli _
  split
  · exact keeps_bind (h.status _) fun _ => h.answerCli _
  split
  · exact keeps_bind (h.tasks _ rfl) fun _ => h.answerCli _
  split
  · split
    · exact h.answerCli _
    · refine keeps_bind (h.tasks _ rfl) fun r => ?_
      cases r <;> exact h.answerCli _
  split
  · exact h.cliEnqueue _ _ _ _
  split
  · split
    · exact h.answerCli _
    · refine keeps_bind (h.cancel _) fun b => ?_
      split <;> exact h.answerCli _
  split
  · next hm => exact h.cliPrewarm _ _ _ (hprewarm ((prewarm_primary_iff _).mp hm))
  · next hm => exact hrequest (fun h => hm ((prewarm_primary_iff _).mpr h)) _ _ _

theorem reader (handle : DbHandle) (heof : A.Keeps I (locked (.readerEof handle)))
    (hline : ∀ r, A.Keeps I (locked (.readerLine handle r)))
    (herror : ∀ e, A.Keeps I (locked (.readerError handle e))) (n : Nat) :
    A.Keeps I (readerLoop handle n) := by
  induction n with
  | zero => exact keeps_halt
  | succ n ih =>
    refine keeps_bind (h.world _) fun r => ?_
    rcases r with _ | _ | r | e
    · exact heof
    · exact ih
    · exact keeps_bind (hline r) fun _ => ih
    · exact herror e

omit h in
theorem evictLoop (hcand : A.Keeps I (locked .evictCandidate))
    (hclose : ∀ handle, A.Keeps I (closeWorker handle .evict)) (n : Nat) :
    A.Keeps I (evictLoop n) := by
  induction n with
  | zero => exact keeps_halt
  | succ n ih =>
    refine keeps_bind hcand fun r => ?_
    rcases r with _ | handle
    · exact keeps_pure _
    · exact keeps_bind (hclose handle) fun _ => ih

omit h in
theorem collectIdle (idleTimeout : Nat) (hexp : A.Keeps I (locked (.expired idleTimeout)))
    (hclose : ∀ handle, A.Keeps I (closeWorker handle .gc)) : A.Keeps I (collectIdle idleTimeout) :=
  keeps_bind hexp fun _ => keeps_forEach hclose _

theorem closeLast (path : Path) (tenantId : Option String)
    (hlook : ∀ key, A.Keeps I (locked (.pathLookup key true)))
    (hclose : ∀ handle, A.Keeps I (closeWorker handle .lastRef)) :
    A.Keeps I (Router.closeByPath path tenantId true) := by
  refine keeps_bind (hlook _) fun r => ?_
  rcases r with _ | handle
  · exact keeps_pure _
  · exact keeps_bind (h.sayGoodbye _) fun _ => keeps_bind (hclose _) fun _ => keeps_pure _

theorem closeIdb (token : Option Token) (hrel : ∀ t, A.Keeps I (releaseRefToken t true))
    (hclose : ∀ handle, A.Keeps I (closeWorker handle .lastRef)) :
    A.Keeps I (closeIdbRouted token) := by
  cases token with
  | none =>
    refine keeps_bind (h.look _ rfl) fun r => ?_
    rcases r with _ | handle
    · exact h.respond _
    · exact keeps_bind (h.sayGoodbye _) fun _ => keeps_bind (h.close _) fun _ => h.respond _
  | some token =>
    refine keeps_bind (hrel _) fun r => ?_
    rcases r with _ | ⟨handle,_ | remaining⟩
    · exact h.respond _
    · exact keeps_bind (h.sayGoodbye _) fun _ => keeps_bind (hclose _) fun _ => h.respond _
    · exact h.respond _

end Parts

/-- The parts, and the functions in which references and closes are handled. -/
structure Refs (A : Monitor Op.Res M) (I : M → Prop) : Prop extends Parts A I where
  spawnClient : ∀ path tenantId, A.Keeps I (spawnWorker path tenantId false)
  ensure : ∀ path tenantId, A.Keeps I (ensureWorkerWithRef path tenantId)
  releaseRef : ∀ token, A.Keeps I (releaseRefToken token false)
  closeLast : ∀ path tenantId, A.Keeps I (Router.closeByPath path tenantId true)
  closeIdb : ∀ token, A.Keeps I (closeIdbRouted token)
  collect : ∀ idleTimeout, A.Keeps I (collectIdle idleTimeout)

theorem Refs.prewarm (h : Refs A I) (hinstall : ∀ path handle token tenantId cache,
      A.Keeps I (installWarmLease path handle token tenantId cache)) (path : Path) (keepWarm : Bool)
    (tenantId : String) : A.Keeps I (prewarmPathWithOptions path keepWarm tenantId) :=
  h.toParts.prewarmPath path keepWarm tenantId (h.ensure path) fun _ _ _ _ _ _ =>
    Parts.settlePrewarm _ _ _ _ _ _ _ (hinstall _ _ _ _ _) (h.releaseRef _) (h.closeLast _ _)

structure Core (A : Monitor Op.Res M) (I : M → Prop) : Prop extends Refs A I where
  prewarmPath : ∀ path keepWarm tenantId,
    A.Keeps I (prewarmPathWithOptions path keepWarm tenantId)

namespace Core
variable (h : Core A I)
include h

theorem routeTask (task : QueuedRouteTask) : A.Keeps I (routeTask task) := by
  refine keeps_bind (h.toParts.runQueued _ h.ensure h.releaseRef) fun r =>
    keeps_bind (h.route _ rfl) fun _ => ?_
  cases r <;> exact h.tasks _ rfl

theorem watchdogLoop (idleTimeout : Nat) (grace : Option Nat) (n : Nat) (b : Bool) :
    A.Keeps I (watchdogLoop idleTimeout grace n b) := by
  have hm : A.Keeps I (maintain idleTimeout) :=
    keeps_bind (h.collect _) fun _ => keeps_bind (h.world _) fun n =>
      keeps_bind (h.drivePrewarm n) fun _ => keeps_bind (h.world _) fun n =>
      keeps_bind (h.driveRouteQueue n) fun _ => h.pruneCaches
  induction n generalizing b with
  | zero => exact keeps_halt
  | succ n ih =>
    refine keeps_bind hm fun _ => ?_
    cases grace with
    | none => exact ih b
    | some grace =>
      refine keeps_bind (h.look _ rfl) fun count => ?_
      split
      · exact ih false
      split
      · exact ih true
      refine keeps_bind (h.world _) fun ended => ?_
      split
      · exact keeps_pure _
      · exact ih true

/-- Every task of the service goes from `I` to `I`, if the readers do, the CLI requests
when they start the release of their reference, and the prewarms when they end. -/
theorem body (job : Job)
    (hfinish : ∀ task, job=.prewarmTask task → ∀ summary, A.Keeps I (withLock .prewarmQueue
      (act (.prewarm (.finish task.taskId task.tenantId summary)))))
    (hfork : ∀ method params, job=.cli method params →
      ∀ token, A.Keeps I (act (.spawn (.releaseRef token))))
    (hreader : ∀ handle, job=.reader handle → ∀ n, A.Keeps I (readerLoop handle n)) :
    A.Keeps I job.body := by
  cases job with
  | openIdb req => exact h.toParts.openIdb req h.spawnClient
  | closeIdb token => exact h.closeIdb token
  | toolCall handle method params =>
    exact keeps_bind (h.request _ _ _) fun _ => h.respond _
  | cli method params =>
    exact h.toParts.cli method params (fun _ _ _ => h.prewarmPath _ _ _) fun _ _ _ _ =>
      h.toParts.cliRequest _ _ _ _ h.ensure (hfork _ _ rfl)
  | status federated => exact keeps_bind (h.status _) fun _ => keeps_pure _
  | shutdown => exact h.shutdownAll
  | watchdog idleTimeout grace =>
    exact keeps_bind (h.world _) fun n => h.watchdogLoop _ _ n _
  | reader handle => exact keeps_bind (h.world _) fun n => hreader handle rfl n
  | prewarmTask task => exact keeps_bind (h.prewarmPath _ _ _) fun _ => hfinish task rfl _
  | routeTask task => exact h.routeTask task
  | releaseRef token => exact keeps_bind (h.releaseRef _) fun _ => keeps_pure _
  | enqueuez value => exact h.enqueuez value
  | pollRemote handle taskId node remoteTaskId =>
    exact keeps_bind (h.world _) fun n => h.pollRemote _ _ _ _ n

end Core

/-! ### Enqueueing -/

/-- What both ways to enqueue are made of. -/
structure Enqueueing (A : Monitor Op.Res M) (I : M → Prop) : Prop where
  world : ∀ o, A.Keeps I (world o)
  tasks : ∀ o, A.Keeps I (act (.tasks o))
  drive : ∀ n, A.Keeps I (driveRouteQueue n)
  admitTask : ∀ path method params tenantId priority dedupeKey,
    A.Keeps I (admitTask path method params tenantId priority dedupeKey)
  submit : ∀ id node payload, A.Keeps I (act (.submit id node payload))
  handle : A.Keeps I (act .newHandle)
  spawn : ∀ handle id node remoteId, A.Keeps I (act (.spawn (.pollRemote handle id node remoteId)))

namespace Enqueueing
variable (h : Enqueueing A I)
include h

theorem submitToAny (taskId : TaskId) (payload : Json) (nodes : List FederationNode)
    (e : Option String) : A.Keeps I (submitToAny taskId payload nodes e) := by
  induction nodes generalizing e with
  | nil => exact keeps_pure _
  | cons node rest ih =>
    refine keeps_bind (h.submit _ _ _) fun r => ?_
    rcases r with err | response
    · exact ih _
    dsimp only
    split
    · exact keeps_pure _
    · exact ih _

theorem followRemote (taskId : TaskId) (node : FederationNode)
    (remoteTaskId : TaskId) : A.Keeps I (followRemote taskId node remoteTaskId) := by
  refine keeps_bind (h.tasks _) fun r => ?_
  rcases r with _ | state
  · exact keeps_pure _
  dsimp only
  split
  · exact keeps_bind (h.tasks _) fun _ => keeps_bind (h.tasks _) fun _ =>
      keeps_bind h.handle fun _ => keeps_bind (h.spawn _ _ _ _) fun _ => h.tasks _
  · exact keeps_pure _

theorem enqueueTask (path method : String) (tenantId : Option String)
    (params : Json) : A.Keeps I (enqueueTask path method tenantId params) := by
  unfold Router.enqueueTask
  dsimp only
  split
  · refine keeps_bind (h.world _) fun nodes => ?_
    split
    · exact keeps_pure _
    refine keeps_bind (h.tasks _) fun _ => keeps_bind (h.tasks _) fun _ =>
      keeps_bind (h.submitToAny _ _ _ _) fun r => ?_
    rcases r with e | ⟨node,remoteTaskId⟩
    · exact keeps_pure _
    · exact keeps_bind (h.followRemote _ _ _) fun _ => keeps_pure _
  · refine keeps_bind (h.admitTask _ _ _ _ _ _) fun r => ?_
    rcases r with e | taskId
    · exact keeps_pure _
    · exact keeps_bind (h.world _) fun _ => keeps_bind (h.drive _) fun _ => keeps_pure _

end Enqueueing

/-! ### Monitors that ignore the mutexes -/

/-- The operations by which a task gets into the queue or to another node. -/
def Op.enqueues : Op → Bool
  | .route o => !o.quiet
  | .tasks o => !taskQuiet o
  | .submit _ _ _ => true
  | _ => false

/-- The operations that some protocol below is about. -/
def Op.followed : Op → Bool
  | .channel _ | .receive _ | .warm (.insert _ _ _ _ _) => true
  | .spawn job => !job.forked
  | .inner o => match o with
    | .hasPath _ | .backendOf _ | .allHandles | .activeHandle | .workerCount | .exePath | .status |
      .pathLookup _ false => false
    | _ => true
  | op => op.enqueues

def InnerOp.ofRequest : InnerOp → Bool
  | .routeTarget _ | .newReqId | .routeRegister _ _ _ => true
  | _ => false

def InnerOp.ofReader : InnerOp → Bool
  | .readerEof _ | .readerLine _ _ | .readerError _ _ => true
  | _ => false

/-- The sections between which the warm pool or the prewarm queue is between two states. -/
def Op.staged : Op → Bool
  | .warm .pinned | .warm .list | .prewarm (.enqueue _ _ _ _) | .prewarm .list => false
  | .warm _ | .prewarm _ | .spawn (.prewarmTask _) => true
  | _ => false

namespace Unstaged
variable (hops : ∀ op, op.followed=false → op.staged=false → A.Keeps I (act op))
include hops

theorem withLock {α : Type} {x : Mutex} {body : Run α} (hb : A.Keeps I body) :
    A.Keeps I (withLock x body) :=
  keeps_bind (hops _ rfl rfl) fun _ => keeps_bind hb fun _ => keeps_bind (hops _ rfl rfl) fun _ =>
    keeps_pure _

theorem closeWorker {h : DbHandle} {why : Reason} (hretain : A.Keeps I (act (.warm (.retain h))))
    (hr : A.Keeps I (act (.inner (.closeRemove h why)))) : A.Keeps I (closeWorker h why) :=
  withLock hops (keeps_bind (withLock hops hretain) fun _ => hr)

theorem releaseWarmLease (htake : ∀ path, A.Keeps I (act (.warm (.take path))))
    (hrel : ∀ t, A.Keeps I (releaseRefToken t true))
    (hclose : ∀ h, A.Keeps I (Router.closeWorker h .lastRef)) (path : Path) :
    A.Keeps I (releaseWarmLease path) := by
  refine withLock hops (keeps_bind (htake path) fun r => ?_)
  rcases r with _ | lease
  · exact keeps_pure _
  refine keeps_bind (hrel _) fun r => ?_
  rcases r with _ | ⟨h,_ | _⟩
  · exact keeps_pure _
  · exact hclose h
  · exact keeps_pure _

theorem probe : A.Keeps I probeWorkerBackend := by
  refine keeps_bind (withLock hops (hops _ rfl rfl)) fun r => ?_
  rcases r with _ | cached
  · refine keeps_bind (hops _ rfl rfl) fun r => ?_
    rcases r with e | probe
    · exact keeps_pure _
    · exact keeps_bind (withLock hops (hops _ rfl rfl)) fun _ => keeps_pure _
  · exact keeps_pure _

theorem enqueueTask (hq : ∀ op, op.enqueues=true → A.Keeps I (act op)) (path method : String)
    (tenantId : Option String) (params : Json) :
    A.Keeps I (enqueueTask path method tenantId params) := by
  have htasks (o : Tasks.TaskOp) : A.Keeps I (act (.tasks o)) := by
    cases h : taskQuiet o with
    | true => exact hops _ (by simp [Op.followed,Op.enqueues,h]) rfl
    | false => exact hq _ (by simp [Op.enqueues,h])
  refine Enqueueing.enqueueTask ⟨fun _ => hops _ rfl rfl,htasks,fun n => ?_,fun _ _ _ _ _ _ => ?_,
    fun _ _ _ => hq _ rfl,hops _ rfl rfl,fun _ _ _ _ => hops _ rfl rfl⟩ path method tenantId params
  · exact keeps_drive (withLock hops (hops _ rfl rfl)) (fun _ _ => htasks _)
      (fun _ => hops _ rfl rfl) n
  · refine withLock hops (keeps_bind (hops _ rfl rfl) fun r => ?_)
    rcases r with e | _
    · exact keeps_pure _
    · exact keeps_bind (htasks _) fun _ => keeps_bind (htasks _) fun _ =>
        keeps_bind (htasks _) fun _ => keeps_bind (hq _ rfl) fun _ => keeps_pure _

theorem parts
    (henq : ∀ path method tenantId params,
      A.Keeps I (Router.enqueueTask path method tenantId params))
    (hreq : ∀ h method params, A.Keeps I (routeRequest h method params))
    (hclose : ∀ h, A.Keeps I (Router.closeWorker h .explicit))
    (hdrive : ∀ n, A.Keeps I (drivePrewarmQueue n)) : Parts A I where
  world _ := hops _ rfl rfl
  acquire := hops _ rfl rfl
  release := hops _ rfl rfl
  spawnRoute _ := hops _ rfl rfl
  look o ho := withLock hops (by
    cases o with
    | pathLookup key b => cases b <;> first | exact hops _ rfl rfl | cases ho
    | _ => first | exact hops _ rfl rfl | cases ho)
  pinned := withLock hops (hops _ rfl rfl)
  queuePrewarm _ _ _ _ := withLock hops (hops _ rfl rfl)
  drivePrewarm := hdrive
  route o ho := withLock hops (hops _ (by simp [Op.followed,Op.enqueues,ho]) rfl)
  tasks o ho := hops _ (by simp [Op.followed,Op.enqueues,ho]) rfl
  tick _ := hops _ rfl rfl
  enqueue := henq
  cancel id := by
    refine keeps_bind (hops _ rfl rfl) fun b => ?_
    split
    · exact keeps_pure _
    refine withLock hops (keeps_bind (hops _ rfl rfl) fun b => ?_)
    dsimp only
    split
    · exact keeps_bind (hops _ rfl rfl) fun _ => keeps_pure _
    · exact keeps_pure _
  probe := probe hops
  status b := by
    refine keeps_bind (withLock hops (keeps_bind (hops _ rfl rfl) fun r => ?_)) fun _ =>
      withLock hops (keeps_bind (hops _ rfl rfl) fun _ =>
        keeps_bind (withLock hops (hops _ rfl rfl)) fun _ =>
        keeps_bind (withLock hops (hops _ rfl rfl)) fun _ =>
        keeps_bind (withLock hops (hops _ rfl rfl)) fun _ => ?_)
    · rcases r with _ | found
      · exact keeps_bind (withLock hops (hops _ rfl rfl)) fun _ =>
          keeps_bind (probe hops) fun _ => keeps_pure _
      · exact keeps_pure _
    · dsimp only
      split
      · exact keeps_bind (hops _ rfl rfl) fun _ => keeps_pure _
      · exact keeps_pure _
  request := hreq
  close := hclose

theorem routeRequest (hin : ∀ o : InnerOp, o.ofRequest=true → A.Keeps I (act (.inner o)))
    (hchan : ∀ id, A.Keeps I (act (.channel id))) (hrecv : ∀ c, A.Keeps I (act (.receive c)))
    (h : Option DbHandle) (method : String) (params : Json) :
    A.Keeps I (routeRequest h method params) := by
  refine keeps_bind (withLock hops (hin _ rfl)) fun r => ?_
  rcases r with e | target
  · exact keeps_pure _
  refine keeps_bind (withLock hops (hin _ rfl)) fun id => keeps_bind (hchan id) fun chan =>
    keeps_bind (withLock hops (hin _ rfl)) fun r => ?_
  rcases r with e | _
  · exact keeps_pure _
  refine keeps_bind (hrecv chan) fun r => ?_
  rcases r with (_ | _) | _ | _ <;> exact keeps_pure _

theorem refs
    (henq : ∀ path method tenantId params,
      A.Keeps I (Router.enqueueTask path method tenantId params))
    (hreq : ∀ h method params, A.Keeps I (Router.routeRequest h method params))
    (hin : ∀ o : InnerOp, o.ofRequest=false → o.ofReader=false → (∀ h why, o≠.closeRemove h why) →
      A.Keeps I (act (.inner o)))
    (hclose : ∀ h why, A.Keeps I (Router.closeWorker h why))
    (hdrive : ∀ n, A.Keeps I (drivePrewarmQueue n)) : Refs A I := by
  have hlocked (o : InnerOp) (h1 : o.ofRequest=false) (h2 : o.ofReader=false)
      (h3 : ∀ h why, o≠.closeRemove h why) : A.Keeps I (locked o) := withLock hops (hin o h1 h2 h3)
  have parts : Parts A I := parts hops henq hreq (fun h => hclose h _) hdrive
  have hspawn (path : Path) (tenantId : Option String) (b : Bool) :
      A.Keeps I (spawnWorker path tenantId b) :=
    parts.spawnWorker path tenantId b
      (Parts.evictLoop (hlocked _ rfl rfl nofun) fun h => hclose h _)
      (fun _ => hlocked _ rfl rfl nofun) fun _ _ => hlocked _ rfl rfl nofun
  exact {
    toParts := parts
    spawnClient := fun path tenantId => hspawn path tenantId _
    ensure := fun path tenantId => parts.ensure path tenantId (fun tenant => hspawn path tenant _)
      (fun _ => hlocked _ rfl rfl nofun) (fun _ => hlocked _ rfl rfl nofun)
      fun _ => keeps_bind (hlocked _ rfl rfl nofun) fun _ => keeps_pure _
    releaseRef := fun _ => hlocked _ rfl rfl nofun
    closeLast := fun path tenantId => parts.closeLast path tenantId
      (fun _ => hlocked _ rfl rfl nofun) fun h => hclose h _
    closeIdb := fun token => parts.closeIdb token (fun _ => hlocked _ rfl rfl nofun)
      fun h => hclose h _
    collect := fun idle => Parts.collectIdle idle (hlocked _ rfl rfl nofun) fun h => hclose h _ }

end Unstaged

section Ops
variable (hops : ∀ op, op.followed=false → A.Keeps I (act op))
include hops

theorem keeps_withLock {α : Type} {x : Mutex} {body : Run α} (hb : A.Keeps I body) :
    A.Keeps I (withLock x body) :=
  Unstaged.withLock (fun op h _ => hops op h) hb

theorem keeps_closeWorker {h : DbHandle} {why : Reason}
    (hr : A.Keeps I (act (.inner (.closeRemove h why)))) : A.Keeps I (closeWorker h why) :=
  Unstaged.closeWorker (fun op h _ => hops op h) (hops _ rfl) hr

theorem keeps_lease (hrel : ∀ t, A.Keeps I (releaseRefToken t true))
    (hclose : ∀ h, A.Keeps I (closeWorker h .lastRef)) (path : Path) :
    A.Keeps I (releaseWarmLease path) :=
  Unstaged.releaseWarmLease (fun op h _ => hops op h) (fun _ => hops _ rfl) hrel hclose path

theorem keeps_enqueueOf (hq : ∀ op, op.enqueues=true → A.Keeps I (act op)) (path method : String)
    (tenantId : Option String) (params : Json) :
    A.Keeps I (enqueueTask path method tenantId params) :=
  Unstaged.enqueueTask (fun op h _ => hops op h) hq path method tenantId params

theorem keeps_prewarmQueue (n : Nat) : A.Keeps I (drivePrewarmQueue n) :=
  keeps_drivePrewarm (keeps_withLock hops (hops _ rfl)) (fun _ => hops _ rfl) n

theorem keeps_finish (task : QueuedPrewarmTask) (summary : Json) : A.Keeps I
    (withLock .prewarmQueue (act (.prewarm (.finish task.taskId task.tenantId summary)))) :=
  keeps_withLock hops (hops _ rfl)

theorem parts_of_ops
    (henq : ∀ path method tenantId params, A.Keeps I (enqueueTask path method tenantId params))
    (hreq : ∀ h method params, A.Keeps I (routeRequest h method params))
    (hclose : ∀ h, A.Keeps I (act (.inner (.closeRemove h .explicit)))) : Parts A I :=
  Unstaged.parts (fun op h _ => hops op h) henq hreq (fun h => keeps_closeWorker hops (hclose h))
    (keeps_prewarmQueue hops)

theorem keeps_requestOf (hin : ∀ o : InnerOp, o.ofRequest=true → A.Keeps I (act (.inner o)))
    (hchan : ∀ id, A.Keeps I (act (.channel id))) (hrecv : ∀ c, A.Keeps I (act (.receive c)))
    (h : Option DbHandle) (method : String) (params : Json) :
    A.Keeps I (routeRequest h method params) :=
  Unstaged.routeRequest (fun op h _ => hops op h) hin hchan hrecv h method params

theorem keeps_install (parts : Parts A I) (hlease : ∀ path, A.Keeps I (releaseWarmLease path))
    (path : Path) (handle : DbHandle) (token : Token) (tenantId : String) (cache : Option Path)
    (hinsert : A.Keeps I (act (.warm (.insert path handle token tenantId cache)))) :
    A.Keeps I (installWarmLease path handle token tenantId cache) :=
  parts.installWarmLease (keeps_withLock hops (hops _ rfl))
    (keeps_withLock hops (hops _ rfl)) hlease
    path handle token tenantId cache (keeps_withLock hops hinsert)

theorem core_of_ops
    (henq : ∀ path method tenantId params, A.Keeps I (enqueueTask path method tenantId params))
    (hreq : ∀ h method params, A.Keeps I (routeRequest h method params))
    (hin : ∀ o : InnerOp, o.ofRequest=false → o.ofReader=false → A.Keeps I (act (.inner o)))
    (hinsert : ∀ path handle token tenantId cache,
      A.Keeps I (act (.warm (.insert path handle token tenantId cache)))) : Core A I := by
  have hclose (h : DbHandle) (why : Reason) : A.Keeps I (closeWorker h why) :=
    keeps_closeWorker hops (hin _ rfl rfl)
  have refs:=Unstaged.refs (fun op h _ => hops op h) henq hreq (fun o h1 h2 _ => hin o h1 h2) hclose
    (keeps_prewarmQueue hops)
  refine ⟨refs,refs.prewarm fun path handle token tenantId cache => ?_⟩
  exact keeps_install hops refs.toParts
    (keeps_lease hops (fun _ => keeps_withLock hops (hin _ rfl rfl)) fun h => hclose h _)
    path handle token tenantId cache (hinsert _ _ _ _ _)

end Ops

end Router
