import IdaMcp.Router.Executions

/-!
# Commands of the CLI that the router answers itself

`dispatch_cli_request` replaces the method by its primary name before it looks at
it. The name `task_status` is an older name of a tool, so its arm is never
reached: the request goes the way of a tool call, which needs a path.
-/

namespace Router
open Lib (Map Json Prog)
open Tools (primaryNameFor)
variable {name : String}

inductive Command where
  | status | listTasks | taskStatus | enqueue | cancelTask | prewarm | close | shutdown
  deriving DecidableEq

variable {c : Command}

namespace Command

/-- The method of the request, and the other name that the registry of tools has for it. -/
def names : Command → List String
  | .status => ["status"]
  | .listTasks => ["list_tasks"]
  | .taskStatus => ["task_status","get_task_status"]
  | .enqueue => ["enqueue"]
  | .cancelTask => ["cancel_task"]
  | .prewarm => ["prewarm"]
  | .close => ["close"]
  | .shutdown => ["shutdown"]

def takesPath : Command → Bool
  | .enqueue | .prewarm | .close => true
  | .status | .listTasks | .taskStatus | .cancelTask | .shutdown => false

/-- What a command is to do, with the parameters that it takes. -/
def serve (params : Json) : Command → Run Unit
  | .status => do
    let status ← statusSnapshotInner false
    answerCli (.ok status.json)
  | .listTasks => do
    let states ← act (.tasks .listAll)
    answerCli (.ok (.ofFields [("tasks",.arr (states.map taskStateJson))]))
  | .taskStatus => match fieldStr params "task_id" with
    | none => answerCli (.error (-32001,"unknown task_id"))
    | some taskId => do
      match ← act (.tasks (.get taskId)) with
      | some state => answerCli (.ok (taskStateJson state))
      | none => answerCli (.error (-32001,"unknown task_id"))
  | .enqueue =>
    cliEnqueue (fieldStr params "path") ((fieldStr params "method").map primaryNameFor)
      (fieldStr params "tenant_id") params
  | .cancelTask => match fieldStr params "task_id" with
    | none => answerCli (.error (-32001,"cancel_task requires task_id"))
    | some taskId => do
      if ← Router.cancelTask taskId then
        answerCli (.ok (.ofFields [("ok",.bool true),("task_id",.str taskId)]))
      else answerCli (.error (-32001,"task not found"))
  | .prewarm => cliPrewarm (fieldStr params "path") (fieldStr params "tenant_id") params
  | .close => match fieldStr params "path" with
    | none => answerCli (.error (-32001,"close requires 'path' parameter"))
    | some path => do
      let result ← closeByPath (← canonicalPath path) (fieldStr params "tenant_id") false
      answerCli (cliResult (result.map fun _ => okReply))
  | .shutdown => do
    shutdownAll
    answerCli (.ok (.ofFields [("ok",.bool true),("message",.str "server shutting down")]))

end Command

/-- What a client is told of a task. -/
def statusReply (tasks : Tasks.TaskRegistry) (id : TaskId) : Except (Int × String) Json :=
  match tasks.get id with
  | some state => .ok (taskStateJson state)
  | none => .error (-32001,"unknown task_id")

/-- The answer of a program that nothing else runs beside. -/
def replyAlone (cfg : RouterConfig) (i : Nat) :
    Run Unit → List Env → Shared → Option (Except (Int × String) Json)
  | .call (.world (.respond (.rpc reply))) _,_,_ => some reply
  | .call op k,env::envs,s => (exec cfg i op env s).bind fun x => replyAlone cfg i (k x.1) envs x.2
  | _,_,_ => none

/-- A name of a command is answered by the command: in every state of the router a task with its
state, by no worker, and for the commands without a path whatever the path. -/
structure Lifecycle (cfg : RouterConfig) (c : Command) (name : String) : Prop where
  answered : c=.taskStatus → ∀ p,(service cfg).Reach (fun _ _ => True) (.new cfg) p →
    ∀ params id,fieldStr params "task_id"=some id → ∀ i env,
      replyAlone cfg i (dispatchCliRequest name params) [env] p.state=
        some (statusReply p.state.tasks id)
  served : ∀ params,dispatchCliRequest name params=c.serve params
  pathless : c.takesPath=false → ∀ params other,
    (∀ k,k≠"path" → params.get? k=other.get? k) →
      dispatchCliRequest name params=dispatchCliRequest name other

theorem primaryNameFor_name (hc : c≠.taskStatus) (h : name∈c.names) : primaryNameFor name=name := by
  cases c with
  | taskStatus => exact absurd rfl hc
  | _ =>
    rw [List.mem_singleton.mp h]
    decide +kernel

theorem dispatch_serve (hc : c≠.taskStatus) (h : name∈c.names)
    (params : Json) : dispatchCliRequest name params=c.serve params := by
  unfold dispatchCliRequest
  rw [primaryNameFor_name hc h]
  cases c with
  | taskStatus => exact absurd rfl hc
  | _ =>
    rw [List.mem_singleton.mp h]
    simp only [String.reduceEq,ite_true,ite_false]
    rfl

theorem serve_pathless (hc : c.takesPath=false) {params other : Json}
    (h : ∀ k,k≠"path" → params.get? k=other.get? k) : c.serve params=c.serve other := by
  have hid : fieldStr params "task_id"=fieldStr other "task_id" := by
    rw [fieldStr,fieldStr,h "task_id" (by decide)]
  cases c with
  | enqueue | prewarm | close => cases hc
  | status | listTasks | shutdown => rfl
  | taskStatus => simp only [Command.serve,hid]
  | cancelTask => simp only [Command.serve,hid]

theorem primaryNameFor_taskStatus (h : name∈Command.taskStatus.names) :
    primaryNameFor name="get_task_status" := by
  simp only [Command.names,List.mem_cons,List.not_mem_nil,or_false] at h
  rcases h with rfl | rfl <;> decide +kernel

theorem dispatch_taskStatus (h : name∈Command.taskStatus.names) (params : Json) :
    dispatchCliRequest name params=cliRequest (fieldStr params "path") (fieldStr params "tenant_id")
      "get_task_status" params := by
  unfold dispatchCliRequest
  rw [primaryNameFor_taskStatus h]
  simp only [String.reduceEq,ite_false]

theorem reply_taskStatus (cfg : RouterConfig) (i : Nat) (envs : List Env) (s : Shared)
    (h : name∈Command.taskStatus.names) {params : Json} (hp : fieldStr params "path"=none) :
    replyAlone cfg i (dispatchCliRequest name params) envs s=
      some (.error (-32602,"CLI requires 'path' parameter to identify the target binary")) := by
  rw [dispatch_taskStatus h,hp]
  rfl

/-- Of the commands only `task_status` is not what its lifecycle says. -/
theorem lifecycle_iff (cfg : RouterConfig) (c : Command) (name : String) (h : name∈c.names) :
    Lifecycle cfg c name ↔ c≠.taskStatus := by
  constructor
  · rintro hl rfl
    have ha:=hl.answered rfl ⟨.new cfg,[]⟩ .init (.obj [("task_id",.str "job-1")]) "job-1" rfl 0 {}
    have hs : statusReply (Shared.new cfg).tasks "job-1"=.error (-32001,"unknown task_id") := rfl
    rw [reply_taskStatus cfg 0 [{}] _ h rfl,hs] at ha
    cases ha
  · intro hc
    refine ⟨fun he => absurd he hc,dispatch_serve hc h,fun hp params other hk => ?_⟩
    rw [dispatch_serve hc h,dispatch_serve hc h]
    exact serve_pathless hp hk

theorem lifecycle_cancelTask : Lifecycle sampleConfig .cancelTask "cancel_task" :=
  (lifecycle_iff sampleConfig .cancelTask "cancel_task" (by decide)).mpr (by decide)

/-- A task that is in the registry, and a client that asks for it. -/
theorem task_status_refused :
    ∃ p,(service queueConfig).Reach (fun _ _ => True) (.new queueConfig) p ∧
      (p.state.tasks.get "job-1").isSome=true ∧
      replyAlone queueConfig 1
        (dispatchCliRequest "task_status" (.ofFields [("task_id",.str "job-1")])) [{}] p.state=
          some (.error (-32602,"CLI requires 'path' parameter to identify the target binary")) := by
  obtain ⟨p,hp,ht⟩:=(service queueConfig).play_free (.new queueConfig)
    (.start (enqueueRequest "x" "k")::steps 0 (idles 7))
    (fun p => (p.state.tasks.get "job-1").isSome) (by decide +kernel)
  exact ⟨p,hp,ht,reply_taskStatus queueConfig 1 [{}] p.state (by decide) (by decide +kernel)⟩

end Router
