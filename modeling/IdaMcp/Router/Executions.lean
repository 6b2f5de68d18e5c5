import IdaMcp.Router.Frame
import IdaMcp.Tasks.Lifecycle

/-!
# Executions of queued tasks

An enqueue call creates its task in the registry and then puts it into the
queue or submits it to another node. The monitor follows the id that a call
has created and not yet used. A call that is answered with the id of a running
task (`deduplicated`) uses an id that is not its own.
-/

namespace Router
open Lib (Map Json Monitor Holds Fired)
open Lib.Monitor (keeps_pure keeps_bind keeps_perform)
variable {id : TaskId} {o : RouteOp}

/-- The task that an enqueue call is about to use: one that it has created, or the running task that
its key was answered with. -/
inductive Hand where
  | empty
  | own (id : TaskId)
  | foreign (id : TaskId)
  deriving Repr,DecidableEq

def handMonitor : Monitor Op.Res Hand where
  next m e := match e with
    | ⟨.tasks (.createWithKey _ _ _),.ok id⟩ => .own id
    | ⟨.tasks (.createWithKey _ _ _),.error id⟩ => .foreign id
    | ⟨.route (.push _ _ _ _ _ _ _),_⟩ => .empty
    | ⟨.submit _ _ _,r⟩ => if (accepted r).isSome then .empty else m
    | _ => m
  allowed m op := match op with
    | .route (.push id _ _ _ _ _ _) => m=.own id ∨ m=.foreign id
    | .submit id _ _ => m=.own id ∨ m=.foreign id
    | _ => True
  good _ _ := True

def hand (t : Lib.Task Op.Res Job) : Hand := handMonitor.track (fun _ => .empty) t

namespace Executions

theorem keeps_any (op : Op) (h : ∀ m,handMonitor.allowed m op) :
    handMonitor.Keeps (fun _ => True) (act op) :=
  keeps_perform fun m _ => ⟨h m,fun _ _ => trivial⟩

theorem keeps_plain (op : Op) (h : op.followed=false) :
    handMonitor.Keeps (fun _ => True) (act op) := by
  cases op with
  | route o => cases o <;> first | exact keeps_any _ fun _ => trivial | cases h
  | submit => cases h
  | _ => exact keeps_any _ fun _ => trivial

theorem keeps_tasks (o : Tasks.TaskOp) : handMonitor.Keeps (fun _ => True) (act (.tasks o)) :=
  keeps_any _ fun _ => trivial

theorem wp_create {α : Type} (pre : String) (key : Option String) (message : String)
    (f : Except TaskId TaskId → Run α) (m : Hand)
    (h : ∀ r m,m=.own (createdId r) ∨ m=.foreign (createdId r) →
      handMonitor.wp (f r) (fun _ _ => True) m) :
    handMonitor.wp (act (.tasks (.createWithKey pre key message)) >>= f) (fun _ _ => True) m := by
  rw [Monitor.wp_bind,Monitor.wp_perform]
  refine ⟨trivial,fun r _ => ?_⟩
  cases r with
  | error existing => exact h (.error existing) _ (.inr rfl)
  | ok id => exact h (.ok id) _ (.inl rfl)

theorem wp_other {α : Type} {op : Op} {f : op.Res → Run α} {m : Hand}
    (ha : handMonitor.allowed m op) (hn : ∀ r,handMonitor.next m ⟨op,r⟩=m)
    (h : ∀ r,handMonitor.wp (f r) (fun _ _ => True) m) :
    handMonitor.wp (act op >>= f) (fun _ _ => True) m := by
  rw [Monitor.wp_bind,Monitor.wp_perform]
  exact ⟨ha,fun r _ => by rw [hn]; exact h r⟩

theorem keeps_admitTask (path : Path) (method : String) (params : Json) (tenantId : String)
    (priority : Nat) (dedupeKey : Option String) :
    handMonitor.Keeps (fun _ => True)
      (admitTask path method params tenantId priority dedupeKey) := by
  refine keeps_withLock keeps_plain (keeps_bind (keeps_plain _ rfl) fun r => ?_)
  rcases r with e | _
  · exact keeps_pure _
  intro m _
  refine wp_create _ _ _ _ m fun r m hm => ?_
  refine wp_other trivial (fun _ => rfl) fun _ => wp_other trivial (fun _ => rfl) fun state => ?_
  rw [Monitor.wp_bind,Monitor.wp_perform]
  exact ⟨hm,fun _ _ => trivial⟩

theorem wp_submitToAny (id : TaskId) (payload : Json) (nodes : List FederationNode)
    (e : Option String) {m : Hand} (hm : m=.own id ∨ m=.foreign id) :
    handMonitor.wp (submitToAny id payload nodes e) (fun _ _ => True) m := by
  induction nodes generalizing e with
  | nil => trivial
  | cons node rest ih =>
    unfold submitToAny
    rw [Monitor.wp_bind,Monitor.wp_perform]
    refine ⟨hm,fun r _ => ?_⟩
    cases r with
    | error err => exact ih _
    | ok response =>
      have ha : accepted (.ok response)=fieldStr response "task_id" := rfl
      cases hf : fieldStr response "task_id" with
      | some task => simp only [hf]; trivial
      | none =>
        have hn : handMonitor.next m ⟨.submit id node payload,.ok response⟩=m := by
          change (if (accepted (.ok response)).isSome then Hand.empty else m)=m
          rw [ha,hf]
          rfl
        rw [hn]
        simp only [hf]
        exact ih _

theorem keeps_enqueueTask (path method : String) (tenantId : Option String) (params : Json) :
    handMonitor.Keeps (fun _ => True) (enqueueTask path method tenantId params) := by
  have hdrive (n : Nat) : handMonitor.Keeps (fun _ => True) (driveRouteQueue n) :=
    keeps_drive (keeps_withLock keeps_plain (keeps_plain _ rfl)) (fun _ _ => keeps_tasks _)
      (fun _ => keeps_plain _ rfl) n
  unfold enqueueTask
  dsimp only
  split
  · refine keeps_bind (keeps_plain _ rfl) fun nodes => ?_
    split
    · exact keeps_pure _
    intro m _
    refine wp_create _ _ _ _ m fun r m hm => wp_other trivial (fun _ => rfl) fun _ => ?_
    refine handMonitor.wp_seq (wp_submitToAny _ _ nodes none hm) fun reply m _ => ?_
    rcases reply with e | ⟨node,remoteTaskId⟩
    · trivial
    have hfollow : handMonitor.Keeps (fun _ => True)
      (followRemote (createdId r) node remoteTaskId) := by
      refine keeps_bind (keeps_tasks _) fun r => ?_
      rcases r with _ | state
      · exact keeps_pure _
      dsimp only
      split
      · exact keeps_bind (keeps_tasks _) fun _ => keeps_bind (keeps_tasks _) fun _ =>
          keeps_bind (keeps_plain _ rfl) fun _ => keeps_bind (keeps_plain _ rfl) fun _ =>
          keeps_tasks _
      · exact keeps_pure _
    exact keeps_bind hfollow (fun _ => keeps_pure _) m trivial
  · refine keeps_bind (keeps_admitTask _ _ _ _ _ _) fun r => ?_
    rcases r with e | taskId
    · exact keeps_pure _
    · exact keeps_bind (keeps_plain _ rfl) fun _ => keeps_bind (hdrive _) fun _ => keeps_pure _

theorem core : Core handMonitor (fun _ => True) :=
  core_of_ops keeps_plain keeps_enqueueTask
    (keeps_requestOf keeps_plain (fun _ _ => keeps_any _ fun _ => trivial)
      (fun _ => keeps_any _ fun _ => trivial) fun _ => keeps_any _ fun _ => trivial)
    (fun _ _ _ => keeps_any _ fun _ => trivial) fun _ _ _ _ _ => keeps_any _ fun _ => trivial

theorem body (job : Job) : handMonitor.Keeps (fun _ => True) job.body := by
  have hlocked (o : InnerOp) : handMonitor.Keeps (fun _ => True) (locked o) :=
    keeps_withLock keeps_plain (keeps_any _ fun _ => trivial)
  exact core.body job (fun task _ => keeps_finish keeps_plain task)
    (fun _ _ _ _ => keeps_any _ fun _ => trivial) fun h _ =>
    core.reader h (hlocked _) (fun _ => hlocked _) fun _ => hlocked _

end Executions

/-! ### One operation on the queue -/

def RouteQueueState.ids (q : RouteQueueState) : List TaskId := q.queued.map QueuedRouteTask.taskId

/-- What an operation may do to the queue, with the ids it puts in, starts, ends and cancels. -/
inductive QueueMove (cfg : RouterConfig) (q q' : RouteQueueState) :
    List TaskId → List TaskId → List TaskId → List TaskId → Prop where
  | idle (hi : q'.ids=q.ids) (ha : q'.active=q.active) : QueueMove cfg q q' [] [] [] []
  | pushed (id : TaskId) (hi : q'.ids.Perm (id::q.ids)) (ha : q'.active=q.active) :
      QueueMove cfg q q' [id] [] [] []
  | started (id : TaskId) (a : ActiveRouteTask) (hi : q.ids.Perm (id::q'.ids))
      (hl : q.active.size < cfg.maxActiveTasks) (ha : q'.active=q.active.insert id a) :
      QueueMove cfg q q' [] [id] [] []
  | finished (id : TaskId) (hi : q'.ids=q.ids) (ha : q'.active=q.active.remove id) :
      QueueMove cfg q q' [] [] [id] []
  | cancelled (id : TaskId) (hi : q.ids.Perm (id::q'.ids)) (ha : q'.active=q.active) :
      QueueMove cfg q q' [] [] [] [id]

namespace QueueMove
variable {cfg : RouterConfig} {q q' : RouteQueueState} {ids st fs cs running : List TaskId}

theorem pushes_one (h : QueueMove cfg q q' ids st fs cs) : ids=[] ∨ ∃ id,ids=[id] := by
  cases h <;> simp

theorem starts_queued (h : QueueMove cfg q q' ids st fs cs) : st ⊆ q.ids := by
  cases h with
  | started id a hi _ _ =>
    exact List.cons_subset.mpr ⟨hi.mem_iff.mpr List.mem_cons_self,List.nil_subset _⟩
  | _ => exact List.nil_subset _

theorem running_step (h : QueueMove cfg q q' ids st fs cs)
    (ha : q.active.keysOf.Perm running) (hl : running.length ≤ cfg.maxActiveTasks)
    (hst : ∀ id∈st,id∉running) :
    q'.active.keysOf.Perm (st++running.diff fs) ∧
      (st++running.diff fs).length ≤ cfg.maxActiveTasks := by
  have hsize : q.active.size=running.length := by
    rw [← ha.length_eq]
    exact (List.length_map ..).symm
  cases h with
  | idle _ he | pushed _ _ he | cancelled _ _ he => rw [he]; exact ⟨ha,hl⟩
  | started id a _ hlt he =>
    have hn : id∉q.active.keysOf := fun hm => hst id List.mem_cons_self (ha.mem_iff.mp hm)
    rw [he,Map.keysOf_insert hn]
    refine ⟨ha.cons id,?_⟩
    rw [List.diff_nil,List.length_append,List.length_singleton,← hsize]
    omega
  | finished id _ he =>
    rw [he,Map.keysOf_remove,List.nil_append,List.diff_cons,List.diff_nil]
    refine ⟨ha.erase id,Nat.le_trans ?_ hl⟩
    exact List.length_erase_le

end QueueMove

theorem ids_eraseIdx {q : RouteQueueState} {i : Nat} {t : QueuedRouteTask}
    (h : q.queued[i]?=some t) :
    q.ids.Perm (t.taskId::(q.queued.eraseIdx i).map QueuedRouteTask.taskId) := by
  obtain ⟨hi,rfl⟩:=List.getElem?_eq_some_iff.mp h
  exact (List.getElem_cons_eraseIdx_perm hi).symm.map QueuedRouteTask.taskId

/-- The task that an operation puts into the queue. -/
def RouteOp.pushes (q : RouteQueueState) : RouteOp → List TaskId
  | .push id _ _ _ _ _ known => if known && (q.active.get id).isNone then [id] else []
  | _ => []

theorem RouteOp.run_move (cfg : RouterConfig) (o : RouteOp) (env : Env) (q : RouteQueueState) :
    QueueMove cfg q (o.run cfg env q).2 (o.pushes q) (o.starts (o.run cfg env q).1)
      o.finishes (o.cancels (o.run cfg env q).1) := by
  cases o with
  | room | list => exact .idle rfl rfl
  | finish id tenant => exact .finished id rfl rfl
  | push id path method params tenant priority known =>
    simp only [RouteOp.run,RouteQueueState.push,RouteOp.pushes]
    split
    · refine .pushed id ?_ rfl
      have hp:=((List.perm_insertionSort (fun a b : QueuedRouteTask =>
        Before a.priority b.priority a.enqueuedAt b.enqueuedAt) (q.queued++
        [⟨id,path,method,params,tenant,priority,env.instant⟩])).map QueuedRouteTask.taskId)
      rw [List.map_append] at hp
      exact hp.trans (List.perm_append_singleton _ _)
    · exact .idle rfl rfl
  | cancel id =>
    simp only [RouteOp.run,RouteQueueState.cancel]
    split
    · next i hi =>
      obtain ⟨hlt,ht,-⟩:=List.findIdx?_eq_some_iff_getElem.mp hi
      have hp:=ids_eraseIdx (List.getElem?_eq_getElem hlt)
      rw [of_decide_eq_true ht] at hp
      exact .cancelled id hp rfl
    · exact .idle rfl rfl
  | next =>
    simp only [RouteOp.run,RouteQueueState.next]
    split
    · exact .idle rfl rfl
    next hlim =>
    split
    · exact .idle rfl rfl
    split
    · exact .idle rfl rfl
    next i _ _ t ht =>
      exact .started t.taskId _ (ids_eraseIdx ht) (Nat.lt_of_not_le hlim) rfl

/-! ### The ledger -/

/-- The tasks that were put into the queue or accepted by another node and not cancelled. -/
def Shared.used (s : Shared) : List TaskId := s.routeQueue.ids++(s.started++s.submitted)

structure SameTasks (s t : Shared) : Prop where
  routeQueue : t.routeQueue=s.routeQueue
  tasks : t.tasks=s.tasks
  makers : t.makers=s.makers
  started : t.started=s.started
  running : t.running=s.running
  submitted : t.submitted=s.submitted
  revoked : t.revoked=s.revoked

def Op.ofTasks : Op → Bool
  | .route _ | .tasks _ | .submit _ _ _ => true
  | _ => false

theorem exec_sameTasks {cfg : RouterConfig} {i : Nat} {op : Op} {env : Env} {r : op.Res}
    {s t : Shared} (h : exec cfg i op env s=some (r,t)) (ho : op.ofTasks=false) :
    SameTasks s t := by
  cases op with
  | route | tasks | submit => cases ho
  | lock | acquireSpawn | tick =>
    simp only [exec] at h
    split at h <;> cases h
    exact ⟨rfl,rfl,rfl,rfl,rfl,rfl,rfl⟩
  | receive c =>
    simp only [exec] at h
    split at h
    · cases h; exact ⟨rfl,rfl,rfl,rfl,rfl,rfl,rfl⟩
    split at h
    · split at h <;> cases h
      exact ⟨rfl,rfl,rfl,rfl,rfl,rfl,rfl⟩
    · cases h; exact ⟨rfl,rfl,rfl,rfl,rfl,rfl,rfl⟩
  | unlock | releaseSpawn | channel | inner | warm | probe | prewarm | world | spawn | newHandle =>
    cases h
    exact ⟨rfl,rfl,rfl,rfl,rfl,rfl,rfl⟩

theorem created_run (o : Tasks.TaskOp) (rd : Tasks.Reading) (reg : Tasks.TaskRegistry) :
    (o.run rd reg).2.created=taskMade o (o.run rd reg).1++reg.created := by
  have hmodify : ∀ (reg : Tasks.TaskRegistry) id f,(reg.modify id f).created=reg.created := by
    intro reg id f
    unfold Tasks.TaskRegistry.modify
    split <;> rfl
  have hcreate : ∀ pre key message metadata,
      (reg.createInternal pre key message metadata rd).2.created=
        (reg.createInternal pre key message metadata rd).1.toOption.toList++reg.created := by
    intro pre key message metadata
    unfold Tasks.TaskRegistry.createInternal
    split <;> rfl
  cases o with
  | createKeyed | create | createWithKey | createWithMeta => exact hcreate _ _ _ _
  | setHandle | updateMessage | mergeMeta | complete | fail => exact hmodify _ _ _
  | get | listAll | createCompleted => rfl
  | cancel id =>
    simp only [Tasks.TaskOp.run,Tasks.TaskRegistry.cancel]
    split
    · split
      · exact hmodify _ _ _
      · rfl
    · rfl

/-- Every task in use was made by the registry, and by one call. -/
structure TasksKnown (s : Shared) : Prop where
  wf : Tasks.Wf s.tasks
  makers : s.makers.map Prod.fst=s.tasks.created
  used : s.used ⊆ s.tasks.created

theorem TasksKnown.maker_unique {s : Shared} (hk : TasksKnown s) {i j : Nat} (h : (id,i)∈s.makers)
    (hj : (id,j)∈s.makers) : i=j := by
  have hn : (s.makers.map Prod.fst).Nodup := hk.makers ▸ hk.wf.distinct
  exact congrArg Prod.snd (List.inj_on_of_nodup_map hn h hj rfl)

section Used
variable {cfg : RouterConfig} {s t : Shared} {i : Nat} {env : Env}

theorem used_same (h : SameTasks s t) : t.used=s.used := by
  rw [Shared.used,h.routeQueue,h.started,h.submitted]
  rfl

theorem used_route {r : o.Res} (h : exec cfg i (.route o) env s=some (r,t)) :
    QueueMove cfg s.routeQueue t.routeQueue (o.pushes s.routeQueue) (o.starts r) o.finishes
      (o.cancels r) ∧ (t.used.Perm (o.pushes s.routeQueue++s.used) ∨
        ∃ id,o.cancels r=[id] ∧ s.used.Perm (id::t.used)) := by
  have hm:=o.run_move cfg env s.routeQueue
  cases h
  refine ⟨hm,?_⟩
  simp only [Shared.used]
  generalize o.pushes s.routeQueue=ids at hm
  generalize o.starts (o.run cfg env s.routeQueue).1=st at hm
  generalize o.finishes=fs at hm
  generalize o.cancels (o.run cfg env s.routeQueue).1=cs at hm
  cases hm with
  | idle hi _ | finished _ hi _ => exact .inl (by rw [hi]; exact .refl _)
  | pushed id hi _ => exact .inl (hi.append_right _)
  | started id a hi _ _ =>
    refine .inl (.symm ((hi.append_right _).trans ?_))
    exact List.perm_middle.symm
  | cancelled id hi _ => exact .inr ⟨id,rfl,hi.append_right _⟩

theorem used_submit {node : FederationNode} {payload : Json} {r : Except String Json}
    (h : exec cfg i (.submit id node payload) env s=some (r,t)) :
    t.used.Perm ((accepted r).toList.map (fun _ => id)++s.used) := by
  cases h
  simp only [Shared.used]
  have hmid : ∀ a b c d : List TaskId,(a++(b++(c++d))).Perm (c++(a++(b++d))) := by
    intro a b c d
    have h1 : (b++(c++d)).Perm (c++(b++d)) := List.perm_append_comm_assoc b c d
    exact (h1.append_left a).trans (List.perm_append_comm_assoc a c (b++d))
  exact hmid ..

end Used

def Hand.Has (m : Hand) (id : TaskId) : Prop := m=.own id ∨ m=.foreign id

/-- A call that was answered with another call's task uses it at most while it is active, which
leaves the queue as it is. -/
def UsesOwn (s : Shared) (m : Hand) : Op → Prop
  | .route (.push id _ _ _ _ _ _) => m=.foreign id → (s.routeQueue.active.get id).isSome
  | .submit id _ _ => m≠.foreign id
  | _ => True

section Known
variable {cfg : RouterConfig} {i : Nat} {op : Op} {env : Env} {r : op.Res} {s t : Shared} {m : Hand}

theorem pushes_has (ha : handMonitor.allowed m (.route o)) (hid : id∈o.pushes s.routeQueue) :
    m.Has id ∧ (UsesOwn s m (.route o) → m=.own id) ∧
      ∀ r,handMonitor.next m ⟨.route o,r⟩=.empty := by
  cases o with
  | push x path method params tenant priority known =>
    simp only [RouteOp.pushes] at hid
    split at hid
    · next hc =>
      obtain rfl:=List.mem_singleton.mp hid
      refine ⟨ha,fun hu => ha.resolve_right fun hf => ?_,fun _ => rfl⟩
      have hsome:=hu hf
      rw [Option.isNone_iff_eq_none.mp (Bool.and_eq_true_iff.mp hc).2] at hsome
      cases hsome
    · cases hid
  | _ => cases hid

theorem used_step (ha : handMonitor.allowed m op) (hx : exec cfg i op env s=some (r,t)) :
    ∀ id∈t.used,id∈s.used ∨ (m.Has id ∧ (UsesOwn s m op → m=.own id) ∧
      handMonitor.next m ⟨op,r⟩=.empty) := by
  intro id hid
  cases op with
  | route o =>
    rcases (used_route hx).2 with hp | ⟨x,-,hp⟩
    · rcases List.mem_append.mp (hp.mem_iff.mp hid) with h | h
      · obtain ⟨hm,hown,hn⟩:=pushes_has ha h
        exact .inr ⟨hm,hown,hn r⟩
      · exact .inl h
    · exact .inl (hp.mem_iff.mpr (List.mem_cons_of_mem _ hid))
  | tasks => cases hx; exact .inl hid
  | submit x node payload =>
    rcases List.mem_append.mp ((used_submit hx).mem_iff.mp hid) with h | h
    · obtain ⟨task,hr,rfl⟩:=List.mem_map.mp h
      have hs : (accepted r).isSome=true := by rw [Option.mem_toList.mp hr]; rfl
      exact .inr ⟨ha,ha.resolve_right,if_pos hs⟩
    · exact .inl h
  | _ => exact .inl (used_same (exec_sameTasks hx rfl) ▸ hid)

theorem made_step (hx : exec cfg i op env s=some (r,t)) :
    ∃ ids,t.tasks.created=ids++s.tasks.created ∧ t.makers=ids.map (fun id => (id,i))++s.makers := by
  cases op with
  | route | submit => cases hx; exact ⟨[],rfl,rfl⟩
  | tasks o => cases hx; exact ⟨_,created_run o env.reading s.tasks,rfl⟩
  | _ =>
    obtain ⟨-,h2,h3,-⟩:=exec_sameTasks hx rfl
    exact ⟨[],by rw [h2]; rfl,by rw [h3]; rfl⟩

theorem wf_step (hw : Tasks.Wf s.tasks) (hx : exec cfg i op env s=some (r,t)) :
    Tasks.Wf t.tasks := by
  cases op with
  | route | submit => cases hx; exact hw
  | tasks o => cases hx; exact hw.step (.run hw o env.reading)
  | _ => rw [(exec_sameTasks hx rfl).tasks]; exact hw

theorem next_cases (m : Hand) (op : Op) (r : op.Res) :
    handMonitor.next m ⟨op,r⟩=m ∨ handMonitor.next m ⟨op,r⟩=.empty ∨
      ∃ pre key message id,op=.tasks (.createWithKey pre key message) ∧
        ((HEq r (.ok id : Except TaskId TaskId) ∧ handMonitor.next m ⟨op,r⟩=.own id) ∨
          (HEq r (.error id : Except TaskId TaskId) ∧ handMonitor.next m ⟨op,r⟩=.foreign id)) := by
  cases op with
  | route o => cases o <;> first | exact .inl rfl | exact .inr (.inl rfl)
  | tasks o => cases o with
    | createWithKey pre key message =>
      cases r with
      | ok id => exact .inr (.inr ⟨pre,key,message,id,rfl,.inl ⟨.rfl,rfl⟩⟩)
      | error id => exact .inr (.inr ⟨pre,key,message,id,rfl,.inr ⟨.rfl,rfl⟩⟩)
    | _ => exact .inl rfl
  | submit =>
    simp only [handMonitor]
    split
    · exact .inr (.inl rfl)
    · exact .inl rfl
  | _ => exact .inl rfl

theorem created_fresh {pre message : String} {key : Option String}
    (hx : exec cfg i (.tasks (.createWithKey pre key message)) env s=some (.ok id,t)) :
    t.tasks.created=id::s.tasks.created ∧ t.makers=(id,i)::s.makers ∧ t.used=s.used := by
  have hc:=created_run (.createWithKey pre key message) env.reading s.tasks
  simp only [exec,Option.some.injEq,Prod.mk.injEq] at hx
  obtain ⟨hres,rfl⟩:=hx
  rw [hres] at hc ⊢
  exact ⟨hc,rfl,rfl⟩

theorem found_listed (hw : Tasks.Wf s.tasks) {pre message : String} {key : Option String}
    (hx : exec cfg i (.tasks (.createWithKey pre key message)) env s=some (.error id,t)) :
    id∈s.tasks.created ∧ t.tasks=s.tasks ∧ t.makers=s.makers := by
  cases hd : key.bind fun key => s.tasks.duplicate key env.reading.walk with
  | none =>
    simp only [exec,Tasks.TaskOp.run,Tasks.TaskRegistry.createWithKey,
      Tasks.TaskRegistry.createInternal,hd] at hx
    cases hx
  | some existing =>
    have hrun : (Tasks.TaskOp.createWithKey pre key message).run env.reading s.tasks=
        (.error existing,s.tasks) := by
      simp only [Tasks.TaskOp.run,Tasks.TaskRegistry.createWithKey,
        Tasks.TaskRegistry.createInternal,hd]
    simp only [exec,hrun] at hx
    cases hx
    obtain ⟨k,-,hdup⟩:=Option.bind_eq_some_iff.mp hd
    obtain ⟨x,e,he,-,-,hid⟩:=Tasks.TaskRegistry.duplicate_some hdup
    refine ⟨?_,rfl,rfl⟩
    rw [← hid,hw.named x e he]
    exact hw.listed x e he

theorem TasksKnown.step (hk : TasksKnown s) (hm : ∀ id,m.Has id → id∈s.tasks.created)
    (ha : handMonitor.allowed m op) (hx : exec cfg i op env s=some (r,t)) :
    TasksKnown t ∧ ∀ id,(handMonitor.next m ⟨op,r⟩).Has id → id∈t.tasks.created := by
  obtain ⟨ids,hcreated,hmakers⟩:=made_step hx
  have hgrow : s.tasks.created ⊆ t.tasks.created := by
    rw [hcreated]; exact List.subset_append_right _ _
  refine ⟨⟨wf_step hk.wf hx,?_,fun id hid => ?_⟩,fun id hid => ?_⟩
  · rw [hmakers,hcreated,List.map_append,hk.makers,List.map_map]
    exact congrArg (·++_) (List.map_id _)
  · rcases used_step ha hx id hid with h | ⟨h,-⟩
    · exact hgrow (hk.used h)
    · exact hgrow (hm id h)
  · rcases next_cases m op r with hn | hn | ⟨pre,key,message,x,rfl,⟨hr,hn⟩ | ⟨hr,hn⟩⟩
    · exact hgrow (hm id (hn ▸ hid))
    · rw [hn] at hid; rcases hid with h | h <;> cases h
    · obtain rfl:=eq_of_heq hr
      rw [hn] at hid
      rcases hid with h | h <;> cases h
      rw [(created_fresh hx).1]
      exact List.mem_cons_self
    · obtain rfl:=eq_of_heq hr
      rw [hn] at hid
      rcases hid with h | h <;> cases h
      exact hgrow (found_listed hk.wf hx).1

end Known

theorem tasksKnown_holds (cfg : RouterConfig) {C : Service → Move → Prop} {p : Service}
    (hr : (service cfg).Reach C (.new cfg) p) :
    Holds handMonitor (fun _ => .empty) TasksKnown
      (fun s _ _ m => ∀ id,m.Has id → id∈s.tasks.created) p := by
  have hempty : ∀ (s : Shared) id,Hand.empty.Has id → id∈s.tasks.created := by
    rintro s id (h | h) <;> cases h
  refine Lib.reach_holds (service cfg) handMonitor (fun _ => .empty) C (fun _ _ => True)
    (fun c => Executions.body c .empty trivial) (fun _ _ _ _ _ _ => trivial)
    ⟨.new 1,rfl,List.nil_subset _⟩ (fun _ _ _ _ _ _ => hempty _) ?_ ?_
    (fun _ _ _ _ _ _ _ _ _ _ _ _ _ _ => hempty _) hr
  · intro p i t op env r s _ hi hf
    exact hi.1.step (hi.2 i t hf.task) hf.allowed hf.exec
  · intro p i t op env r s j u _ hi hf _ hu id hid
    obtain ⟨ids,hcreated,-⟩:=made_step hf.exec
    rw [hcreated]
    exact List.mem_append_right _ (hi.2 j u hu id hid)

/-! ### Each task once -/

/-- No task is used twice, and the running executions are those in the active map. -/
structure TaskLedger (cfg : RouterConfig) (s : Shared) : Prop where
  distinct : s.used.Nodup
  running : s.running ⊆ s.started
  active : s.routeQueue.active.keysOf.Perm s.running
  limit : s.running.length ≤ cfg.maxActiveTasks

/-- A task that a call has created and not used is not used by anyone. -/
def InHand (s : Shared) (i : Nat) (m : Hand) : Prop :=
  ∀ id,m=.own id → (id,i)∈s.makers ∧ id∉s.used

section Step
variable {cfg : RouterConfig} {i j : Nat} {op : Op} {env : Env} {r : op.Res} {s t : Shared}
  {m n : Hand}

theorem TaskLedger.route (hl : TaskLedger cfg s) {r : o.Res}
    (h : exec cfg i (.route o) env s=some (r,t))
    (hp : ∀ id∈o.pushes s.routeQueue,id∉s.used) : TaskLedger cfg t := by
  obtain ⟨hmove,hused⟩:=used_route h
  have hdistinct : t.used.Nodup := by
    rcases hused with hu | ⟨id,-,hu⟩
    · rw [hu.nodup_iff]
      rcases hmove.pushes_one with he | ⟨id,he⟩
      · rw [he]; exact hl.distinct
      · rw [he] at hp ⊢
        exact List.nodup_cons.mpr ⟨hp id List.mem_cons_self,hl.distinct⟩
    · exact (List.nodup_cons.mp (hu.nodup_iff.mp hl.distinct)).2
  have hst : ∀ id∈o.starts r,id∉s.running := by
    intro id hid hrun
    refine List.disjoint_of_nodup_append hl.distinct (hmove.starts_queued hid) ?_
    exact List.mem_append_left _ (hl.running hrun)
  obtain ⟨hactive,hlimit⟩:=hmove.running_step hl.active hl.limit hst
  cases h
  refine ⟨hdistinct,?_,hactive,hlimit⟩
  refine List.append_subset.mpr ⟨List.subset_append_left _ _,fun id hid => ?_⟩
  exact List.mem_append_right _ (hl.running ((List.diff_subset ..) hid))

theorem TaskLedger.step (hl : TaskLedger cfg s) (hm : InHand s i m) (ha : handMonitor.allowed m op)
    (hu : UsesOwn s m op) (hx : exec cfg i op env s=some (r,t)) : TaskLedger cfg t := by
  cases op with
  | route o => exact hl.route hx fun id hid => (hm id ((pushes_has ha hid).2.1 hu)).2
  | tasks => cases hx; exact ⟨hl.distinct,hl.running,hl.active,hl.limit⟩
  | submit id node payload =>
    have hdistinct : t.used.Nodup := by
      rw [(used_submit hx).nodup_iff]
      cases accepted r with
      | none => exact hl.distinct
      | some task => exact List.nodup_cons.mpr ⟨(hm id (ha.resolve_right hu)).2,hl.distinct⟩
    cases hx
    exact ⟨hdistinct,hl.running,hl.active,hl.limit⟩
  | _ =>
    have hs:=exec_sameTasks hx rfl
    have hused:=used_same hs
    obtain ⟨h1,-,-,h4,h5,-,-⟩:=hs
    exact ⟨hused ▸ hl.distinct,by rw [h4,h5]; exact hl.running,by rw [h1,h5]; exact hl.active,
      h5 ▸ hl.limit⟩

theorem InHand.step (hk : TasksKnown s) (ht : TasksKnown t) (hm : InHand s i m)
    (ha : handMonitor.allowed m op) (hx : exec cfg i op env s=some (r,t)) :
    InHand t i (handMonitor.next m ⟨op,r⟩) := by
  intro id he
  rcases next_cases m op r with hn | hn | ⟨pre,key,message,x,rfl,⟨hr,hn⟩ | ⟨hr,hn⟩⟩ <;>
    rw [hn] at he
  · obtain ⟨ids,-,hmakers⟩:=made_step hx
    refine ⟨hmakers ▸ List.mem_append_right _ (hm id he).1,fun hid => ?_⟩
    rcases used_step ha hx id hid with h | ⟨-,-,h⟩
    · exact (hm id he).2 h
    · rw [hn,he] at h; cases h
  · cases he
  · cases he
    obtain rfl:=eq_of_heq hr
    obtain ⟨hcreated,hmakers,hused⟩:=created_fresh hx
    refine ⟨hmakers ▸ List.mem_cons_self,fun hid => ?_⟩
    have hd:=ht.wf.distinct
    rw [hcreated] at hd
    exact (List.nodup_cons.mp hd).1 (hk.used (hused ▸ hid))
  · cases he

theorem InHand.other (hk : TasksKnown s) (hm : InHand s i m) (hn : InHand s j n) (hij : j≠i)
    (ha : handMonitor.allowed m op) (hu : UsesOwn s m op)
    (hx : exec cfg i op env s=some (r,t)) : InHand t j n := by
  obtain ⟨ids,-,hmakers⟩:=made_step hx
  refine fun id he => ⟨hmakers ▸ List.mem_append_right _ (hn id he).1,fun hid => ?_⟩
  rcases used_step ha hx id hid with h | ⟨-,h,-⟩
  · exact (hn id he).2 h
  · exact hij (hk.maker_unique (hn id he).1 (hm id (h hu)).1)

end Step

def Unrepeated (p : Service) : Move → Prop
  | .start _ => True
  | .run i e => ∀ t,p.tasks[i]?=some t → UsesOwn p.state (hand t) e.op

theorem taskLedger_holds (cfg : RouterConfig) {C : Service → Move → Prop}
    (hC : ∀ p l,C p l → Unrepeated p l) {p : Service}
    (hr : (service cfg).Reach C (.new cfg) p) :
    Holds handMonitor (fun _ => .empty) (TaskLedger cfg) (fun s i _ m => InHand s i m) p := by
  refine Lib.reach_holds (service cfg) handMonitor (fun _ => .empty) C (fun _ _ => True)
    (fun c => Executions.body c .empty trivial) (fun _ _ _ _ _ _ => trivial)
    ⟨List.nodup_nil,List.nil_subset _,.refl _,Nat.zero_le _⟩
    (fun _ _ _ _ _ _ _ h => (by cases h)) ?_ ?_
    (fun _ _ _ _ _ _ _ _ _ _ _ _ _ _ _ h => (by cases h)) hr
  · intro p i t op env r s hp hi hf
    obtain ⟨hk,hhas⟩:=tasksKnown_holds cfg hp
    have ht:=(hk.step (hhas i t hf.task) hf.allowed hf.exec).1
    have hm:=hi.2 i t hf.task
    exact ⟨hi.1.step hm hf.allowed (hC _ _ hf.cond t hf.task) hf.exec,
      hm.step hk ht hf.allowed hf.exec⟩
  · intro p i t op env r s j u hp hi hf hji hu
    exact InHand.other (tasksKnown_holds cfg hp).1 (hi.2 i t hf.task) (hi.2 j u hu) hji hf.allowed
      (hC _ _ hf.cond t hf.task) hf.exec

/-- No task is queued or running twice or started twice, and the executions are within the limit. -/
structure AtMostOnce (cfg : RouterConfig) (s : Shared) : Prop where
  queued : (s.routeQueue.ids++s.running).Nodup
  started : (s.started++s.submitted).Nodup
  limit : s.running.length ≤ cfg.maxActiveTasks

/-- No task starts twice while each call queues only what it made. -/
theorem at_most_once (cfg : RouterConfig) {p : Service}
    (hr : (service cfg).Reach Unrepeated (.new cfg) p) : AtMostOnce cfg p.state := by
  obtain ⟨hl,-⟩:=taskLedger_holds cfg (fun _ _ h => h) hr
  obtain ⟨hq,hs,hd⟩:=List.nodup_append.mp hl.distinct
  refine ⟨List.nodup_append.mpr ⟨hq,?_,fun a ha b hb => ?_⟩,hs,hl.limit⟩
  · exact hl.active.nodup_iff.mp p.state.routeQueue.active.nodupKeys
  · exact hd a ha b (List.mem_append_left _ (hl.running hb))

/-! ### Sample runs -/

instance (s : Shared) (m : Hand) : DecidablePred (UsesOwn s m)
  | .route (.push id _ _ _ _ _ _) =>
    inferInstanceAs (Decidable (m=.foreign id → (s.routeQueue.active.get id).isSome))
  | .submit id _ _ => inferInstanceAs (Decidable (m≠.foreign id))
  | .route (.room _) | .route (.cancel _) | .route .next | .route (.finish _ _) | .route .list
  | .lock _ | .unlock _ | .acquireSpawn | .releaseSpawn | .channel _ | .receive _ | .inner _
  | .warm _ | .probe _ | .prewarm _ | .world _ | .spawn _ | .tasks _ | .newHandle | .tick _ =>
    .isTrue trivial

/-- The same key again once the first task is active. -/
theorem at_most_once_active :
    ∃ p,(service queueConfig).Reach Unrepeated (.new queueConfig) p ∧
      (p.state.routeQueue.ids=["job-2"] ∧ p.state.running=["job-1"]) ∧
      AtMostOnce queueConfig p.state := by
  obtain ⟨p,hp,ht⟩:=(service queueConfig).play_any Unrepeated
    (fun p l => match l with
      | .start _ => true
      | .run i e => (p.tasks[i]?).all fun t => decide (UsesOwn p.state (hand t) e.op))
    (fun p l h => by
      cases l with
      | start => trivial
      | run i e =>
        intro t ht
        dsimp only at h
        rw [ht] at h
        exact of_decide_eq_true h) (.new queueConfig)
    (.start (enqueueRequest "x" "k")::steps 0 (idles 7++{rounds := 4}::idles 3)++
      .start (enqueueRequest "x" "k")::steps 1 (idles 7)++
      .start (enqueueRequest "x" "l")::steps 2 (idles 7))
    (fun p => p.state.routeQueue.ids=["job-2"] ∧ p.state.running=["job-1"]) (by decide +kernel)
  exact ⟨p,hp,of_decide_eq_true ht,at_most_once queueConfig hp⟩

/-- Three calls with one key before the queue is driven: one task runs three times at once, where
two executions are allowed. -/
theorem one_task_runs_three_times :
    ∃ p,(service queueConfig).Reach (fun _ _ => True) (.new queueConfig) p ∧
      p.state.running=["job-1","job-1","job-1"] ∧ queueConfig.maxActiveTasks=2 ∧
      ¬AtMostOnce queueConfig p.state := by
  obtain ⟨p,hp,ht⟩:=(service queueConfig).play_free (.new queueConfig)
    (.start (enqueueRequest "x" "k")::steps 0 (idles 7)++.start (enqueueRequest "x" "k")::
      steps 1 (idles 7)++.start (enqueueRequest "x" "k")::
      steps 2 (idles 7++{rounds := 4}::idles 14))
    (fun p => p.state.running=["job-1","job-1","job-1"]) (by decide +kernel)
  have hrun:=of_decide_eq_true ht
  refine ⟨p,hp,hrun,rfl,fun h => ?_⟩
  have hlimit:=h.limit
  rw [hrun] at hlimit
  cases hlimit with
  | step h => cases h with
    | step h => cases h

end Router
