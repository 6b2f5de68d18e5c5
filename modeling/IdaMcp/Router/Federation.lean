import IdaMcp.Router.Executions

/-!
# A federated enqueue that fails

`enqueue_federated_task` makes its task before it asks the first node, and no
way out with an error ends it. What is left is stated of the call on its own,
from any state of the service: whatever nodes there are and however they
answer, a call that fails leaves a running task of its own unless it had no
node to ask or its key had a running task.
-/

namespace Router
open Lib (Map Json)

def statusOf (reg : Tasks.TaskRegistry) (id : TaskId) : Option Tasks.TaskStatus :=
  (reg.get id).map Tasks.TaskState.status

/-- No task that was made since is running. -/
def NoTrace (reg reg' : Tasks.TaskRegistry) : Prop :=
  ∀ id,id∉reg.created → statusOf reg' id≠some .running

section Registry
variable {reg : Tasks.TaskRegistry}

theorem statusOf_mergeMeta (x : TaskId) (patch : Json) (r : Tasks.Reading) (id : TaskId) :
    statusOf (reg.mergeMeta x patch r) id=statusOf reg id := by
  simp only [statusOf,Tasks.TaskRegistry.get,Tasks.TaskRegistry.mergeMeta,
    Tasks.TaskRegistry.get_modify]
  split
  · next h =>
    subst h
    cases reg.entries.get id <;> rfl
  · rfl

theorem statusOf_unlisted (hw : Tasks.Wf reg) {id : TaskId} (h : id∉reg.created) :
    statusOf reg id=none := by
  cases he : reg.entries.get id with
  | none => simp only [statusOf,Tasks.TaskRegistry.get,he,Option.map_none]
  | some e => exact absurd (hw.listed id e he) h

theorem createWithKey_ok (hw : Tasks.Wf reg) {pre message : String} {key : Option String}
    {r : Tasks.Reading} {id : TaskId} (h : (reg.createWithKey pre key message r).1=.ok id) :
    id∉reg.created ∧ statusOf (reg.createWithKey pre key message r).2 id=some .running := by
  unfold Tasks.TaskRegistry.createWithKey Tasks.TaskRegistry.createInternal at h ⊢
  split at h
  · cases h
  next hd =>
    cases h
    refine ⟨hw.next_unused pre (Nat.le_add_right _ _),?_⟩
    simp only [statusOf,Tasks.TaskRegistry.get,Tasks.TaskRegistry.createFresh]
    rw [Tasks.TaskRegistry.get_prune,if_neg]
    · rw [Tasks.TaskRegistry.insert,Map.get_insert,if_pos rfl]
      rfl
    · intro hs
      obtain ⟨e,he,hrun⟩:=Tasks.TaskRegistry.surplus_terminal hs
      rw [Tasks.TaskRegistry.insert,Map.get_insert,if_pos rfl] at he
      cases he
      exact hrun rfl

theorem createWithKey_error {pre message : String} {key : Option String} {r : Tasks.Reading}
    {id : TaskId} (h : (reg.createWithKey pre key message r).1=.error id) :
    (reg.createWithKey pre key message r).2=reg := by
  unfold Tasks.TaskRegistry.createWithKey Tasks.TaskRegistry.createInternal at h ⊢
  split at h
  · rfl
  · cases h

theorem createWithKey_error_iff (hw : Tasks.Wf reg) (pre message : String) (key : Option String)
    (r : Tasks.Reading) :
    (∃ id,(reg.createWithKey pre key message r).1=.error id) ↔
      ∃ k id,key=some k ∧ reg.RunningWith k id := by
  cases key with
  | none => simp [Tasks.TaskRegistry.createWithKey,Tasks.TaskRegistry.createInternal]
  | some k =>
    have h:=Tasks.TaskRegistry.createInternal_error_iff hw pre k message none r
    constructor
    · rintro ⟨id,hid⟩
      exact ⟨k,id,rfl,(h id).mp hid⟩
    · rintro ⟨_,id,⟨⟩,hrun⟩
      exact ⟨id,(h id).mpr hrun⟩

end Registry

section Call
variable {cfg : RouterConfig} {i : Nat} {envs : List Env} {s t : Shared}

theorem solo_submitToAny {id : TaskId} {payload : Json} {nodes : List FederationNode}
    {last : Option String} {r : Except (Option String) (FederationNode × TaskId)}
    (h : (service cfg).solo i (submitToAny id payload nodes last) envs s=some (r,t)) :
    t.tasks=s.tasks := by
  induction nodes generalizing last envs s with
  | nil =>
    cases envs with
    | nil => cases h; rfl
    | cons => cases h
  | cons node rest ih =>
    unfold submitToAny at h
    obtain ⟨es,fs,reply,s₁,-,hsubmit,h⟩:=(service cfg).solo_bind h
    obtain ⟨env,-,hx⟩:=(service cfg).solo_perform hsubmit
    have hs : s₁.tasks=s.tasks := by cases hx; rfl
    cases reply with
    | error err => rw [ih h,hs]
    | ok response =>
      dsimp only at h
      split at h
      · cases fs with
        | nil => cases h; exact hs
        | cons => cases h
      · rw [ih h,hs]

theorem solo_dispatchRemote {nodes : List FederationNode} {path : Path} {method : String}
    {params : Json} {tenantId : String} {priority : Nat} {dedupeKey : Option String}
    {e : ToolError}
    (h : (service cfg).solo i
      (dispatchRemote nodes path method params tenantId priority dedupeKey) envs s=
        some (.error e,t)) :
    ∃ message r,∀ id,statusOf t.tasks id=
      statusOf (s.tasks.createWithKey "federated" dedupeKey message r).2 id := by
  unfold dispatchRemote at h
  obtain ⟨_,_,made,s₁,-,hmade,h₁⟩:=(service cfg).solo_bind h
  obtain ⟨env,-,hx⟩:=(service cfg).solo_perform hmade
  obtain ⟨_,_,_,s₂,-,hmerge,h₂⟩:=(service cfg).solo_bind h₁
  obtain ⟨env₂,-,hx₂⟩:=(service cfg).solo_perform hmerge
  obtain ⟨_,fs,reply,s₃,-,hsubmit,h₃⟩:=(service cfg).solo_bind h₂
  have htasks:=solo_submitToAny hsubmit
  have hsame : t.tasks=s₂.tasks := by
    rcases reply with last | ⟨node,remoteTaskId⟩
    · cases fs with
      | nil => cases h₃; exact htasks
      | cons => cases h₃
    · obtain ⟨_,gs,_,_,-,-,h₄⟩:=(service cfg).solo_bind h₃
      cases gs <;> cases h₄
  refine ⟨"Dispatching "++method++" to federation",env.reading,fun id => ?_⟩
  rw [hsame]
  cases hx₂
  cases hx
  exact statusOf_mergeMeta ..

end Call

/-- The call has no node to ask, or a running task has its key. -/
def Harmless (envs : List Env) (dedupeKey : Option String) (reg : Tasks.TaskRegistry) : Prop :=
  envs.head?.map Env.nodes=some [] ∨ ∃ key id,dedupeKey=some key ∧ reg.RunningWith key id

theorem noTrace_iff {cfg : RouterConfig} {i : Nat} {envs : List Env} {s t : Shared} {path : Path}
    {method : String} {params : Json} {tenantId : Option String} {priority : Nat}
    {dedupeKey : Option String} {e : ToolError} (hk : TasksKnown s)
    (h : (service cfg).solo i
      (enqueueFederatedTask path method params tenantId priority dedupeKey) envs s=
        some (.error e,t)) :
    NoTrace s.tasks t.tasks ↔ Harmless envs dedupeKey s.tasks := by
  unfold enqueueFederatedTask at h
  obtain ⟨_,fs,nodes,s₁,rfl,hnodes,hrest⟩:=(service cfg).solo_bind h
  obtain ⟨env,rfl,hx⟩:=(service cfg).solo_perform hnodes
  clear h hnodes
  cases hx
  have hhead : Harmless ([env]++fs) dedupeKey s.tasks ↔
      env.nodes=[] ∨ ∃ key id,dedupeKey=some key ∧ s.tasks.RunningWith key id := by
    simp [Harmless]
  rw [hhead]
  split at hrest
  · next hempty =>
    have hnone : env.nodes=[] := List.isEmpty_iff.mp hempty
    refine iff_of_true (fun id hid => ?_) (.inl hnone)
    cases fs with
    | cons => cases hrest
    | nil =>
      cases hrest
      rw [statusOf_unlisted hk.wf hid]
      rintro ⟨⟩
  · next hnodes =>
    have hsome : env.nodes≠[] := fun hn => hnodes (List.isEmpty_iff.mpr hn)
    obtain ⟨message,r,hstatus⟩:=solo_dispatchRemote hrest
    have hiff:=createWithKey_error_iff hk.wf "federated" message dedupeKey r
    rw [← hiff,or_iff_right hsome]
    cases hmade : (s.tasks.createWithKey "federated" dedupeKey message r).1 with
    | error existing =>
      refine iff_of_true (fun id hid => ?_) ⟨existing,rfl⟩
      rw [hstatus,createWithKey_error hmade,statusOf_unlisted hk.wf hid]
      rintro ⟨⟩
    | ok id =>
      obtain ⟨hnew,hrunning⟩:=createWithKey_ok hk.wf hmade
      refine iff_of_false (fun hno => hno id hnew ?_) fun ⟨_,hn⟩ => by cases hn
      rw [hstatus]
      exact hrunning

/-- In any state of the service, whatever nodes there are and however they answer: where the call of
task `i`, on its own, comes back with an error, it left no running task exactly if it was
harmless. -/
theorem failed_enqueue_trace_iff (cfg : RouterConfig) {p : Service}
    (hr : (service cfg).Reach (fun _ _ => True) (.new cfg) p) {i : Nat}
    {u : Lib.Task Op.Res Job} (hu : p.tasks[i]?=some u) {path : Path} {method : String}
    {params : Json} {tenantId : Option String} {priority : Nat} {dedupeKey : Option String}
    {k : Except ToolError Json → Run Unit}
    (hprog : u.prog=enqueueFederatedTask path method params tenantId priority dedupeKey >>= k)
    {envs : List Env} {e : ToolError} {t : Shared}
    (h : (service cfg).solo i
      (enqueueFederatedTask path method params tenantId priority dedupeKey) envs p.state=
        some (.error e,t)) :
    (∃ q v,(service cfg).Reach (fun _ _ => True) (.new cfg) q ∧ q.state=t ∧
      q.tasks[i]?=some v ∧ v.prog=k (.error e)) ∧
    (NoTrace p.state.tasks t.tasks ↔ Harmless envs dedupeKey p.state.tasks) :=
  ⟨(service cfg).solo_reach (fun _ _ => trivial) hr hu hprog h,
    noTrace_iff (tasksKnown_holds cfg hr).1 h⟩

def federatedRequest (key : String) : Json :=
  .ofFields [("path",.str "/a"),("method",.str "decompile"),("federate",.bool true),
    ("dedupe_key",.str key)]

/-- One node is ready, and it cannot be reached. -/
def unreachable : List Env :=
  [{nodes := [⟨"n","http://n"⟩]},{},{},{remote := .error "connection refused"}]

/-- The key has a running task in the queue. -/
theorem failed_enqueue_trace_shared :
    ∃ p i u e t,(service queueConfig).Reach (fun _ _ => True) (.new queueConfig) p ∧
      p.tasks[i]?=some u ∧ (service queueConfig).solo i (enqueueFederatedTask "/a" "decompile"
        (.obj []) none 0 (some "k")) unreachable p.state=some (.error e,t) ∧
      NoTrace p.state.tasks t.tasks := by
  obtain ⟨p,hp,ht⟩:=(service queueConfig).play_free (.new queueConfig)
    (.start (enqueueRequest "x" "k")::steps 0 (idles 7))
    (fun p => p.tasks.length=1 ∧ p.state.tasks.RunningWith "k" "job-1" ∧
      ((service queueConfig).solo 1 (enqueueFederatedTask "/a" "decompile" (.obj []) none 0
        (some "k")) unreachable p.state).any fun x => !x.1.isOk) (by decide +kernel)
  obtain ⟨hlen,hrun,hsolo⟩:=of_decide_eq_true ht
  have hq:=hp.step (.start (c := .enqueuez (federatedRequest "k")) rfl) trivial
  cases hx : (service queueConfig).solo 1 (enqueueFederatedTask "/a" "decompile" (.obj []) none 0
      (some "k")) unreachable p.state with
  | none => rw [hx] at hsolo; cases hsolo
  | some x =>
    obtain ⟨r,t⟩:=x
    rw [hx] at hsolo
    cases r with
    | ok => cases hsolo
    | error e =>
      have hu : (p.tasks++[(service queueConfig).newTask (.enqueuez (federatedRequest "k"))])[1]?=
          some ((service queueConfig).newTask (.enqueuez (federatedRequest "k"))) := by
        rw [← hlen,List.getElem?_concat_length]
      have hmain:=failed_enqueue_trace_iff queueConfig hq hu rfl hx
      exact ⟨_,1,_,e,t,hq,hu,hx,hmain.2.mpr (.inr ⟨"k","job-1",rfl,hrun⟩)⟩

/-- The call was answered with a failure. -/
def refused (t : Lib.Task Op.Res Job) : Bool :=
  match t.log with
  | ⟨.world (.respond (.http 503 _)),_⟩::_ => true
  | _ => false

/-- The only node cannot be reached: the call is refused, its task stays, and a second call with the
key would be answered with it. -/
theorem failed_enqueue_leaves_task :
    ∃ p u,(service queueConfig).Reach (fun _ _ => True) (.new queueConfig) p ∧
      p.tasks[0]?=some u ∧ refused u=true ∧
      ¬NoTrace (Shared.new queueConfig).tasks p.state.tasks ∧
      (p.state.tasks.createWithKey "federated" (some "k") "" {}).1=.error "federated-1" := by
  obtain ⟨p,hp,ht⟩:=(service queueConfig).play_free (.new queueConfig)
    (.start (.enqueuez (federatedRequest "k"))::steps 0 (unreachable++idles 1))
    (fun p => (p.tasks[0]?).any refused ∧ statusOf p.state.tasks "federated-1"=some .running ∧
      p.state.tasks.RunningWith "k" "federated-1") (by decide +kernel)
  obtain ⟨hrefused,hstatus,hrun⟩:=of_decide_eq_true ht
  cases hu : p.tasks[0]? with
  | none => rw [hu] at hrefused; cases hrefused
  | some u =>
    rw [hu] at hrefused
    refine ⟨p,u,hp,hu,hrefused,fun hno => hno "federated-1" (List.not_mem_nil) hstatus,?_⟩
    have hw:=(tasksKnown_holds queueConfig hp).1.wf
    exact (Tasks.TaskRegistry.createInternal_error_iff hw "federated" "k" "" none {} _).mpr hrun

end Router
