import IdaMcp.Router.Executions

/-!
# Tasks of different tenants

A task belongs to the tenant of the call that made it. An enqueue call changes
or returns only a task that it got from its creation or that it took from the
queue while it drove it (`heldMonitor`). Whether that task is another tenant's
is up to the dedupe key, which has no tenant in it, and to the queue.
-/

namespace Router
open Lib (Map Json Monitor)
variable {op : Op} {C : Service → Move → Prop} {p : Service} {cfg : RouterConfig} {tenant : String}

/-- The tenant for which a call enqueues. -/
def Job.enqueuer : Job → Option String
  | .enqueuez value => some (normalizeTenant (fieldStr value "tenant_id"))
  | .cli method params =>
    if method="enqueue" then some (normalizeTenant (fieldStr params "tenant_id")) else none
  | _ => none

def CreatedFor (p : Service) (id : TaskId) (tenant : String) : Prop :=
  ∃ i t,(id,i)∈p.state.makers ∧ p.tasks[i]?=some t ∧ t.call.enqueuer=some tenant

/-- The tasks that a call gets hold of. -/
def given : Lib.Event Op.Res → List TaskId
  | ⟨.tasks (.createWithKey _ _ _),r⟩ => [createdId r]
  | ⟨.route .next,some task⟩ => [task.taskId]
  | _ => []

/-- No enqueue call gets hold of a task of another tenant: neither is its key answered with one, nor
does it take one from the queue. -/
def Separate (p : Service) : Move → Prop
  | .start _ => True
  | .run i e => ∀ t tenant,p.tasks[i]?=some t → t.call.enqueuer=some tenant → ∀ id∈given e,
      ∀ other,CreatedFor p id other → other=tenant

def changedTask : Tasks.TaskOp → Option TaskId
  | .setHandle id _ | .updateMessage id _ | .mergeMeta id _ | .complete id _ | .fail id _
  | .cancel id => some id
  | _ => none

/-- The task that a reply names. -/
def Reply.taskId : Reply → Option TaskId
  | .tool result => result.toOption.bind fun v => fieldStr v "task_id"
  | .rpc result => result.toOption.bind fun v => fieldStr v "task_id"
  | .http _ body => fieldStr body "task_id"

def Op.reaches : Op → Option TaskId
  | .tasks o => changedTask o
  | .world (.respond reply) => reply.taskId
  | _ => none

/-- The tasks that an enqueue call has got hold of; other calls are not followed. -/
def heldMonitor : Monitor Op.Res (Option (List TaskId)) where
  next m e := m.map (given e++·)
  allowed m op := ∀ ids,m=some ids → ∀ id,op.reaches=some id → id∈ids
  good _ _ := True

def atStart (call : Job) : Option (List TaskId) := call.enqueuer.map fun _ => []

namespace Tenants

/-- A call that is followed and has got hold of these tasks at least. -/
def Has (known : List TaskId) (m : Option (List TaskId)) : Prop := ∃ ids,m=some ids ∧ known ⊆ ids

variable {α : Type} {known : List TaskId} {m : Option (List TaskId)}

theorem Has.mono {less : List TaskId} (h : Has known m) (hs : less ⊆ known) : Has less m := by
  obtain ⟨ids,he,hk⟩:=h
  exact ⟨ids,he,List.Subset.trans hs hk⟩

theorem wp_op {Q : op.Res → Option (List TaskId) → Prop} (hm : Has known m)
    (ha : ∀ id,op.reaches=some id → id∈known)
    (h : ∀ r m,Has (given ⟨op,r⟩++known) m → Q r m) : heldMonitor.wp (act op) Q m := by
  obtain ⟨ids,rfl,hk⟩:=hm
  refine ⟨fun x hx id hid => ?_,fun r _ => h r _ ⟨_,rfl,List.append_subset.mpr ⟨?_,?_⟩⟩⟩
  · cases hx; exact hk (ha id hid)
  · exact List.subset_append_left _ _
  · exact List.Subset.trans hk (List.subset_append_right _ _)

theorem wp_quiet {Q : op.Res → Option (List TaskId) → Prop} (hm : Has known m)
    (ha : op.reaches=none) (hg : ∀ r,given ⟨op,r⟩=[])
    (h : ∀ r m,Has known m → Q r m) : heldMonitor.wp (act op) Q m :=
  wp_op hm (fun id hid => by rw [ha] at hid; cases hid) fun r m hm => h r m (by rwa [hg r] at hm)

theorem wp_locked {x : Mutex} {body : Run α} {Q : α → Option (List TaskId) → Prop}
    (hm : Has known m)
    (hb : ∀ m,Has known m → heldMonitor.wp body (fun r m => ∃ more,Has more m ∧
      ∀ m,Has more m → Q r m) m) : heldMonitor.wp (withLock x body) Q m := by
  unfold withLock
  rw [Monitor.wp_bind]
  refine wp_quiet hm rfl (fun _ => rfl) fun _ m hm => ?_
  rw [Monitor.wp_bind]
  refine heldMonitor.wp_mono (hb m hm) fun r m hr => ?_
  obtain ⟨more,hmore,hq⟩:=hr
  rw [Monitor.wp_bind]
  exact wp_quiet hmore rfl (fun _ => rfl) fun _ m hm => hq m hm

theorem wp_task {o : Tasks.TaskOp} {id : TaskId}
    {Q : o.Res → Option (List TaskId) → Prop} (hm : Has known m) (hid : id∈known)
    (ho : changedTask o=some id) (h : ∀ r m,Has known m → Q r m) :
    heldMonitor.wp (act (.tasks o)) Q m := by
  refine wp_op hm (fun x hx => ?_) fun r m hm => h r m (hm.mono (List.subset_append_right _ _))
  obtain rfl:=Option.some.inj (ho.symm.trans hx)
  exact hid

theorem wp_drive (n : Nat) (hm : Has known m) :
    heldMonitor.wp (driveRouteQueue n) (fun _ m => Has known m) m := by
  induction n generalizing m with
  | zero => trivial
  | succ n ih =>
    unfold driveRouteQueue
    rw [Monitor.wp_bind]
    refine wp_locked hm fun m hm => wp_op hm (fun _ h => by cases h) fun r m hm =>
      ⟨_,hm,fun m hm => ?_⟩
    cases r with
    | none => exact hm.mono (List.subset_append_right _ _)
    | some task =>
      dsimp only
      rw [Monitor.wp_bind]
      refine wp_task hm (List.mem_append_left _ List.mem_cons_self) rfl fun _ m hm => ?_
      rw [Monitor.wp_bind]
      exact wp_quiet hm rfl (fun _ => rfl) fun _ m hm =>
        ih (hm.mono (List.subset_append_right _ _))

/-- The reply names a task that the call has got hold of, or none. -/
def Named (r : Except ToolError Json) (m : Option (List TaskId)) : Prop :=
  ∃ known,Has known m ∧ ∀ v id,r=.ok v → fieldStr v "task_id"=some id → id∈known

theorem named_error {e : ToolError} (hm : Has known m) : Named (.error e) m :=
  ⟨known,hm,fun _ _ h => by cases h⟩

theorem fieldStr_queuedReply (id : TaskId) (path method tenantId : String) (priority : Nat)
    (extra : List (String × Json)) (h : ∀ e∈extra,e.1≠"task_id") :
    fieldStr (.ofFields (queuedReply id path method tenantId priority++extra)) "task_id"=
      some id := by
  have hnone : extra.reverse.find? (fun e => e.1=="task_id")=none := by
    refine List.find?_eq_none.mpr fun e he => ?_
    simpa using h e (List.mem_reverse.mp he)
  rw [fieldStr,Json.get?_ofFields,List.reverse_append,List.find?_append,hnone]
  simp [queuedReply,Json.asStr]

theorem named_queued {id : TaskId} {path method tenantId : String} {priority : Nat}
    {extra : List (String × Json)} (hm : Has known m) (hid : id∈known)
    (h : ∀ e∈extra,e.1≠"task_id") :
    Named (.ok (.ofFields (queuedReply id path method tenantId priority++extra))) m := by
  refine ⟨known,hm,fun v x hv hx => ?_⟩
  cases hv
  rw [fieldStr_queuedReply _ _ _ _ _ _ h] at hx
  cases hx
  exact hid

theorem wp_admitTask (path : Path) (method : String) (params : Json) (tenantId : String)
    (priority : Nat) (dedupeKey : Option String) (hm : Has known m) :
    heldMonitor.wp (admitTask path method params tenantId priority dedupeKey)
      (fun r m => ∃ more,Has more m ∧ ∀ id,r=.ok id → id∈more) m := by
  refine wp_locked hm fun m hm => ?_
  rw [Monitor.wp_bind]
  refine wp_quiet hm rfl (fun _ => rfl) fun r m hm => ?_
  rcases r with e | _
  · exact ⟨known,hm,fun m hm => ⟨known,hm,fun _ h => by cases h⟩⟩
  dsimp only
  rw [Monitor.wp_bind]
  refine wp_op hm (fun _ h => by cases h) fun made m hm => ?_
  have hid : createdId made∈given ⟨.tasks (.createWithKey "job" dedupeKey ("Queued "++method)),made⟩
      ++known := List.mem_append_left _ List.mem_cons_self
  rw [Monitor.wp_bind]
  refine wp_task hm hid rfl fun _ m hm => ?_
  rw [Monitor.wp_bind]
  refine wp_quiet hm rfl (fun _ => rfl) fun state m hm => ?_
  rw [Monitor.wp_bind]
  refine wp_quiet hm rfl (fun _ => rfl) fun _ m hm => ?_
  exact ⟨_,hm,fun m hm => ⟨_,hm,fun id h => by cases h; exact hid⟩⟩

theorem wp_enqueueRouteTask (path : Path) (method : String) (params : Json)
    (tenantId : Option String) (priority : Nat) (dedupeKey : Option String) (hm : Has known m) :
    heldMonitor.wp (enqueueRouteTask path method params tenantId priority dedupeKey) Named m := by
  unfold enqueueRouteTask
  refine heldMonitor.wp_seq (wp_admitTask _ _ _ _ _ _ hm) fun r m hr => ?_
  obtain ⟨more,hm,hid⟩:=hr
  rcases r with e | id
  · exact named_error hm
  dsimp only
  rw [Monitor.wp_bind]
  refine wp_quiet hm rfl (fun _ => rfl) fun n m hm => ?_
  refine heldMonitor.wp_seq (wp_drive n hm) fun _ m hm => ?_
  have h : Named (.ok (.ofFields (queuedReply id path method (normalizeTenant tenantId) priority++
      []))) m := named_queued hm (hid id rfl) fun _ h => by cases h
  rwa [List.append_nil] at h

theorem wp_submitToAny (id : TaskId) (payload : Json) (nodes : List FederationNode)
    (e : Option String) (hm : Has known m) :
    heldMonitor.wp (submitToAny id payload nodes e) (fun _ m => Has known m) m := by
  induction nodes generalizing e m with
  | nil => exact hm
  | cons node rest ih =>
    unfold submitToAny
    rw [Monitor.wp_bind]
    refine wp_quiet hm rfl (fun _ => rfl) fun r m hm => ?_
    cases r with
    | error err => exact ih _ hm
    | ok response =>
      dsimp only
      split
      · exact hm
      · exact ih _ hm

theorem wp_followRemote (id : TaskId) (node : FederationNode) (remoteTaskId : TaskId)
    (hm : Has known m) (hid : id∈known) :
    heldMonitor.wp (followRemote id node remoteTaskId) (fun _ m => Has known m) m := by
  unfold followRemote
  rw [Monitor.wp_bind]
  refine wp_quiet hm rfl (fun _ => rfl) fun state m hm => ?_
  rcases state with _ | state
  · exact hm
  dsimp only
  split
  · rw [Monitor.wp_bind]
    refine wp_task hm hid rfl fun _ m hm => ?_
    rw [Monitor.wp_bind]
    refine wp_task hm hid rfl fun _ m hm => ?_
    rw [Monitor.wp_bind]
    refine wp_quiet hm rfl (fun _ => rfl) fun handle m hm => ?_
    rw [Monitor.wp_bind]
    refine wp_quiet hm rfl (fun _ => rfl) fun _ m hm => ?_
    exact wp_task hm hid rfl fun _ m hm => hm
  · exact hm

theorem wp_enqueueFederatedTask (path : Path) (method : String) (params : Json)
    (tenantId : Option String) (priority : Nat) (dedupeKey : Option String) (hm : Has known m) :
    heldMonitor.wp (enqueueFederatedTask path method params tenantId priority dedupeKey)
      Named m := by
  unfold enqueueFederatedTask
  rw [Monitor.wp_bind]
  refine wp_quiet hm rfl (fun _ => rfl) fun nodes m hm => ?_
  split
  · exact named_error hm
  unfold dispatchRemote
  rw [Monitor.wp_bind]
  refine wp_op hm (fun _ h => by cases h) fun made m hm => ?_
  have hid : createdId made∈given ⟨.tasks (.createWithKey "federated" dedupeKey
      ("Dispatching "++method++" to federation")),made⟩++known :=
    List.mem_append_left _ List.mem_cons_self
  rw [Monitor.wp_bind]
  refine wp_task hm hid rfl fun _ m hm => ?_
  refine heldMonitor.wp_seq (wp_submitToAny _ _ _ _ hm) fun r m hm => ?_
  rcases r with e | ⟨node,remoteTaskId⟩
  · exact named_error hm
  · refine heldMonitor.wp_seq (wp_followRemote _ node remoteTaskId hm hid) fun _ m hm => ?_
    exact named_queued hm hid (by simp)

theorem wp_enqueueTask (path method : String) (tenantId : Option String) (params : Json)
    (hm : Has known m) :
    heldMonitor.wp (enqueueTask path method tenantId params) Named m := by
  unfold enqueueTask
  dsimp only
  split
  · exact wp_enqueueFederatedTask _ _ _ _ _ _ hm
  · exact wp_enqueueRouteTask _ _ _ _ _ _ hm

theorem wp_answer {reply : Reply} (hm : Has known m) (h : ∀ id,reply.taskId=some id → id∈known) :
    heldMonitor.wp (world (.respond reply)) (fun _ _ => True) m :=
  wp_op hm h fun _ _ _ => trivial

theorem fieldStr_error (text : String) :
    fieldStr (.ofFields [("error",.str text)]) "task_id"=none := by
  rw [fieldStr,Json.get?_ofFields]
  simp

theorem wp_enqueuez (value : Json) (hm : Has known m) :
    heldMonitor.wp (enqueuez value) (fun _ _ => True) m := by
  unfold enqueuez
  split
  · refine heldMonitor.wp_seq (wp_enqueueTask _ _ _ _ hm) fun r m hr => ?_
    obtain ⟨more,hm,hnamed⟩:=hr
    rcases r with e | reply
    · refine wp_answer hm fun id hid => ?_
      rw [Reply.taskId,fieldStr_error] at hid
      cases hid
    · exact wp_answer hm fun id hid => hnamed reply id rfl hid
  · refine wp_answer hm fun id hid => ?_
    rw [Reply.taskId,fieldStr_error] at hid
    cases hid

theorem wp_cliEnqueue (path method tenantId : Option String) (params : Json) (hm : Has known m) :
    heldMonitor.wp (cliEnqueue path method tenantId params) (fun _ _ => True) m := by
  unfold cliEnqueue
  split
  · refine heldMonitor.wp_seq (wp_enqueueTask _ _ _ _ hm) fun r m hr => ?_
    obtain ⟨more,hm,hnamed⟩:=hr
    rcases r with e | reply
    · exact wp_answer hm fun id hid => by cases hid
    · exact wp_answer hm fun id hid => hnamed reply id rfl hid
  · exact wp_answer hm fun id hid => by cases hid

theorem body (call : Job) : heldMonitor.wp call.body (fun _ _ => True) (atStart call) := by
  have hnone : ∀ call : Job,call.enqueuer=none →
      heldMonitor.wp call.body (fun _ _ => True) (atStart call) := by
    intro call hc
    rw [atStart,hc]
    exact heldMonitor.wp_fixed (fun op => ⟨fun _ h => (by cases h),fun _ => rfl⟩) _ fun _ => trivial
  cases call with
  | enqueuez value => exact wp_enqueuez value ⟨[],rfl,List.nil_subset _⟩
  | cli method params =>
    by_cases hmethod : method="enqueue"
    · subst hmethod
      exact wp_cliEnqueue _ _ _ _ ⟨[],rfl,List.nil_subset _⟩
    · exact hnone _ (if_neg hmethod)
  | _ => exact hnone _ rfl

end Tenants

theorem makers_bound (cfg : RouterConfig)
    (hr : (service cfg).Reach C (.new cfg) p) : ∀ x∈p.state.makers,x.2 < p.tasks.length := by
  induction hr with
  | init => intro x hx; cases hx
  | @step p q l _ hs _ ih =>
    intro x hx
    have hle:=hs.length_le
    cases hs with
    | start => exact Nat.lt_of_lt_of_le (ih x hx) hle
    | @run i t op k env r s ht hk hexec =>
      replace hexec : exec cfg i op env p.state=some (r,s) := hexec
      obtain ⟨ids,-,hmakers⟩:=made_step hexec
      replace hx : x∈s.makers := hx
      rw [hmakers] at hx
      rcases List.mem_append.mp hx with h | h
      · obtain ⟨id,-,rfl⟩:=List.mem_map.mp h
        exact Nat.lt_of_lt_of_le (List.getElem?_eq_some_iff.mp ht).1 hle
      · exact Nat.lt_of_lt_of_le (ih x h) hle

theorem CreatedFor.before {q : Service} {l : Move} (hr : (service cfg).Reach C (.new cfg) p)
    (hs : (service cfg).Step p l q) {id : TaskId} (hid : id∈p.state.tasks.created)
    (h : CreatedFor q id tenant) : CreatedFor p id tenant := by
  obtain ⟨j,u,hj,hu,hc⟩:=h
  have hold : (id,j)∈p.state.makers := by
    cases hs with
    | start => exact hj
    | @run i t op k env r s ht hk hexec =>
      replace hexec : exec cfg i op env p.state=some (r,s) := hexec
      obtain ⟨ids,hcreated,hmakers⟩:=made_step hexec
      replace hj : (id,j)∈s.makers := hj
      rw [hmakers] at hj
      rcases List.mem_append.mp hj with h | h
      · obtain ⟨x,hx,he⟩:=List.mem_map.mp h
        obtain ⟨rfl,-⟩:=Prod.mk.inj he
        have hd:=(wf_step (tasksKnown_holds cfg hr).1.wf hexec).distinct
        rw [hcreated] at hd
        exact absurd hid (List.disjoint_of_nodup_append hd hx)
      · exact h
  obtain ⟨t,ht,hcall⟩:=hs.call_back hu (makers_bound cfg hr _ hold)
  exact ⟨j,t,hold,ht,hcall ▸ hc⟩

/-- What a call of this tenant has got hold of is not another tenant's. -/
def OwnTasks (p : Service) (tenant : String) (m : Option (List TaskId)) : Prop :=
  ∀ ids,m=some ids → ∀ id∈ids,id∈p.state.tasks.created ∧
    ∀ other,CreatedFor p id other → other=tenant

theorem OwnTasks.step {q : Service} {l : Move} (hr : (service cfg).Reach C (.new cfg) p)
    (hs : (service cfg).Step p l q) {m : Option (List TaskId)}
    (h : OwnTasks p tenant m) : OwnTasks q tenant m := by
  have hgrow : p.state.tasks.created ⊆ q.state.tasks.created := by
    cases hs with
    | start => exact List.Subset.refl _
    | @run i t op k env r s ht hk hexec =>
      replace hexec : exec cfg i op env p.state=some (r,s) := hexec
      obtain ⟨ids,hcreated,-⟩:=made_step hexec
      exact fun x hx => hcreated ▸ List.mem_append_right _ hx
  intro ids he id hid
  obtain ⟨hk,hown⟩:=h ids he id hid
  exact ⟨hgrow hk,fun other ho => hown other (ho.before hr hs hk)⟩

theorem given_known {i : Nat} {env : Env} {r : op.Res} {s t : Shared} (hk : TasksKnown s)
    (hx : exec cfg i op env s=some (r,t)) {id : TaskId} (hid : id∈given ⟨op,r⟩) :
    (id∈s.tasks.created ∧ t.tasks.created=s.tasks.created) ∨
      (t.tasks.created=id::s.tasks.created ∧ t.makers=(id,i)::s.makers) := by
  cases op with
  | tasks o => cases o with
    | createWithKey pre key message =>
      obtain rfl:=List.mem_singleton.mp hid
      cases r with
      | ok x => exact .inr ⟨(created_fresh hx).1,(created_fresh hx).2.1⟩
      | error x =>
        obtain ⟨hl,ht,-⟩:=found_listed hk.wf hx
        exact .inl ⟨hl,by rw [ht]⟩
    | _ => cases hid
  | route o => cases o with
    | next =>
      obtain ⟨hmove,-⟩:=used_route hx
      have htasks : t.tasks=s.tasks := by cases hx; rfl
      cases r with
      | none => cases hid
      | some task =>
        obtain rfl:=List.mem_singleton.mp hid
        have hq : task.taskId∈s.routeQueue.ids := hmove.starts_queued List.mem_cons_self
        exact .inl ⟨hk.used (List.mem_append_left _ hq),by rw [htasks]⟩
    | _ => cases hid
  | _ => cases hid

theorem own_tasks (cfg : RouterConfig)
    (hr : (service cfg).Reach Separate (.new cfg) p) : ∀ (i : Nat) t tenant,p.tasks[i]?=some t →
    t.call.enqueuer=some tenant → OwnTasks p tenant (heldMonitor.track atStart t) := by
  have hnew : ∀ (p : Service) call tenant,Job.enqueuer call=some tenant →
      OwnTasks p tenant (atStart call) := by
    intro p call tenant hc ids he id hid
    rw [atStart,hc] at he
    cases he
    cases hid
  induction hr with
  | init => intro i t tenant ht; cases ht
  | @step p q l hp hs hcond ih =>
    have hall:=hs
    cases hs with
    | start he =>
      intro i t tenant ht hc
      rcases Lib.append_getElem? ht with h | ⟨-,rfl⟩
      · exact (ih i t tenant h hc).step hp hall
      · exact hnew _ _ _ hc
    | @run i t op k env r s ht hk hx =>
      intro j u tenant hu hc
      rcases Lib.set_append_getElem? hu with ⟨rfl,-,rfl⟩ | ⟨-,h⟩ | ⟨-,h⟩
      · intro ids he id hid
        obtain ⟨held,hheld,rfl⟩:=Option.map_eq_some_iff.mp he
        rcases List.mem_append.mp hid with hgiven | hold
        · have hexec : exec cfg j op env p.state=some (r,s) := hx
          have hk:=(tasksKnown_holds cfg hp).1
          rcases given_known hk hexec hgiven with ⟨hknown,hcreated⟩ | ⟨hcreated,hmakers⟩
          · refine ⟨hcreated ▸ hknown,fun other ho => ?_⟩
            exact hcond t tenant ht hc id hgiven other (ho.before hp hall hknown)
          · refine ⟨hcreated ▸ List.mem_cons_self,fun other ho => ?_⟩
            obtain ⟨x,u,hx,hu',ho⟩:=ho
            replace hx : (id,x)∈s.makers := hx
            rw [hmakers] at hx
            rcases List.mem_cons.mp hx with h | h
            · obtain ⟨-,rfl⟩:=Prod.mk.inj h
              obtain rfl:=Option.some.inj (hu'.symm.trans hu)
              exact Option.some.inj (ho.symm.trans hc)
            · -- The id would have been made before.
              have hd:=hcreated ▸ (wf_step hk.wf hexec).distinct
              refine absurd ?_ (List.nodup_cons.mp hd).1
              exact hk.makers ▸ List.mem_map_of_mem h
        · exact (ih j t tenant ht hc).step hp hall held hheld id hold
      · exact (ih j u tenant h hc).step hp hall
      · obtain ⟨call,-,rfl⟩:=List.mem_map.mp h
        exact hnew _ _ _ hc

/-- The task is as it was, or it was pruned. -/
def Untouched (id : TaskId) (reg reg' : Tasks.TaskRegistry) : Prop :=
  reg'.entries.get id=reg.entries.get id ∨ (reg'.entries.get id=none ∧ id∈reg'.pruned)

namespace Untouched
variable {id : TaskId} {reg reg' : Tasks.TaskRegistry}

theorem prune (walk : List TaskId) (h : reg'.entries.get id=reg.entries.get id) :
    Untouched id reg (reg'.pruneTerminalTasks walk) := by
  rw [Untouched,Tasks.TaskRegistry.get_prune]
  by_cases hs : id∈reg'.surplus walk
  · exact .inr ⟨if_pos hs,List.mem_append_left _ hs⟩
  · exact .inl (by rw [if_neg hs,h])

theorem modify {x : TaskId} (hx : x≠id) (f : Tasks.TaskEntry → Tasks.TaskEntry) :
    (reg.modify x f).entries.get id=reg.entries.get id := by
  rw [Tasks.TaskRegistry.get_modify,if_neg (Ne.symm hx)]

theorem insert (hw : Tasks.Wf reg) (hid : id∈reg.created) (pre : String) {n : Nat}
    (hn : reg.counter ≤ n) (state : Tasks.TaskState) :
    ({reg with counter := n+1}.insert (Tasks.TaskRegistry.nextTaskId pre n) state).entries.get id=
      reg.entries.get id := by
  have hne : id≠Tasks.TaskRegistry.nextTaskId pre n := by
    rintro rfl
    exact hw.next_unused pre hn hid
  rw [Tasks.TaskRegistry.insert,Map.get_insert,if_neg hne]

theorem run (hw : Tasks.Wf reg) (hid : id∈reg.created) (o : Tasks.TaskOp) (r : Tasks.Reading)
    (ho : changedTask o≠some id) : Untouched id reg (o.run r reg).2 := by
  have hne {x : TaskId} (h : changedTask o=some x) : x≠id := fun he => ho (he ▸ h)
  have hcreate : ∀ pre key message metadata,
      Untouched id reg (reg.createInternal pre key message metadata r).2 := by
    intro pre key message metadata
    unfold Tasks.TaskRegistry.createInternal
    split
    · exact .inl rfl
    · exact prune _ (insert hw hid pre (Nat.le_add_right _ _) _)
  cases o with
  | createKeyed | create | createWithKey | createWithMeta => exact hcreate _ _ _ _
  | get | listAll => exact .inl rfl
  | setHandle | updateMessage | mergeMeta => exact .inl (modify (hne rfl) _)
  | complete | fail => exact prune _ (modify (hne rfl) _)
  | cancel x =>
    simp only [Tasks.TaskOp.run,Tasks.TaskRegistry.cancel]
    split
    · next e he =>
      split
      · refine prune _ ?_
        rw [Tasks.TaskRegistry.get_modify,if_neg (Ne.symm (hne rfl))]
      · exact .inl rfl
    · exact .inl rfl
  | createCompleted => exact prune _ (insert hw hid "task" (Nat.le_add_right _ _) _)

end Untouched

theorem held_some {t : Lib.Task Op.Res Job} (hc : t.call.enqueuer=some tenant) :
    ∃ ids,heldMonitor.track atStart t=some ids := by
  unfold Monitor.track
  induction t.log with
  | nil => exact ⟨[],by rw [List.foldr_nil,atStart,hc]; rfl⟩
  | cons e log ih =>
    obtain ⟨ids,he⟩:=ih
    exact ⟨given e++ids,by rw [List.foldr_cons,he]; rfl⟩

/-- A step of an enqueue call for one tenant leaves the tasks that were made for another, and does
not answer with one of them. -/
theorem tenant_isolation (cfg : RouterConfig) {p q : Service}
    (hr : (service cfg).Reach Separate (.new cfg) p) {i : Nat} {e : Lib.Event Op.Res}
    (hs : (service cfg).Step p (.run i e) q) {t : Lib.Task Op.Res Job} (ht : p.tasks[i]?=some t)
    {tenant other : String} (hc : t.call.enqueuer=some tenant) (hne : other≠tenant) {id : TaskId}
    (hid : CreatedFor p id other) :
    Untouched id p.state.tasks q.state.tasks ∧
      ∀ reply,e.op=.world (.respond reply) → reply.taskId≠some id := by
  have hw:=Lib.conforms (service cfg) heldMonitor atStart Separate (fun _ _ => True) Tenants.body
    (fun _ _ _ _ _ _ => trivial) hr i t ht
  have hk:=(tasksKnown_holds cfg hr).1
  cases hs with
  | @run _ u op k env r s hu hprog hx =>
    obtain rfl:=Option.some.inj (ht.symm.trans hu)
    rw [hprog,Monitor.wp_call] at hw
    have hreach : op.reaches≠some id := by
      intro hop
      obtain ⟨ids,he⟩:=held_some hc
      have hheld:=hw.1 ids he id hop
      exact hne ((own_tasks cfg hr i t tenant ht hc ids he id hheld).2 other hid)
    have hcreated : id∈p.state.tasks.created := by
      obtain ⟨j,_,hj,-⟩:=hid
      exact hk.makers ▸ List.mem_map_of_mem hj
    refine ⟨?_,fun reply he hreply => ?_⟩
    · replace hx : exec cfg i op env p.state=some (r,s) := hx
      change Untouched id p.state.tasks s.tasks
      cases op with
      | tasks o => cases hx; exact .run hk.wf hcreated o env.reading hreach
      | route | submit => cases hx; exact .inl rfl
      | _ => rw [(exec_sameTasks hx rfl).tasks]; exact .inl rfl
    · obtain rfl : op=.world (.respond reply) := he
      exact hreach hreply

def enqueuerAt (p : Service) (i : Nat) : Option String :=
    (p.tasks[i]?).bind fun t => t.call.enqueuer

theorem enqueuerAt_some {i : Nat} (h : enqueuerAt p i=some tenant) :
    ∃ t,p.tasks[i]?=some t ∧ t.call.enqueuer=some tenant :=
  Option.bind_eq_some_iff.mp h

def separate (p : Service) : Move → Bool
  | .start _ => true
  | .run i e => (given e).all fun id => p.state.makers.all fun x =>
    x.1≠id || enqueuerAt p x.2=enqueuerAt p i

theorem separate_sound (p : Service) (l : Move) (h : separate p l=true) : Separate p l := by
  cases l with
  | start => trivial
  | run i e =>
    rintro t tenant ht hc id hid other ⟨j,u,hj,hu,ho⟩
    have hall:=List.all_eq_true.mp (List.all_eq_true.mp h id hid) (id,j) hj
    have he : enqueuerAt p j=enqueuerAt p i := by simpa using hall
    simp only [enqueuerAt,hu,ht,Option.bind_some] at he
    rw [ho,hc] at he
    exact Option.some.inj he

/-- The tenant that the metadata of a task names. -/
def metaTenant (reg : Tasks.TaskRegistry) (id : TaskId) : Option String :=
  (reg.get id).bind fun state => state.metadata.bind fun v => fieldStr v "tenant_id"

/-- Tenant `x` has a task in the queue, and `y`, with another key, has just made one. -/
theorem tenant_isolation_keys :
    ∃ p q e t,(service queueConfig).Reach Separate (.new queueConfig) p ∧
      (service queueConfig).Step p (.run 1 e) q ∧ p.tasks[1]?=some t ∧
      t.call.enqueuer=some "y" ∧ CreatedFor p "job-1" "x" ∧
      Untouched "job-1" p.state.tasks q.state.tasks := by
  obtain ⟨p,hp,ht⟩:=(service queueConfig).play_any Separate separate separate_sound
    (.new queueConfig)
    (.start (enqueueRequest "x" "k")::steps 0 (idles 7)++
      .start (enqueueRequest "y" "l")::steps 1 (idles 3))
    (fun p => ("job-1",0)∈p.state.makers ∧ enqueuerAt p 0=some "x" ∧ enqueuerAt p 1=some "y" ∧
      ((service queueConfig).fire (.run 1 {}) p).isSome) (by decide +kernel)
  obtain ⟨hmaker,h0,h1,hfire⟩:=of_decide_eq_true ht
  obtain ⟨u,hu,hux⟩:=enqueuerAt_some h0
  obtain ⟨t,ht,hty⟩:=enqueuerAt_some h1
  obtain ⟨⟨l,q⟩,hq⟩:=Option.isSome_iff_exists.mp hfire
  obtain ⟨e,hs⟩:=(service queueConfig).fire_run hq
  have hfor : CreatedFor p "job-1" "x" := ⟨0,u,hmaker,hu,hux⟩
  exact ⟨p,q,e,t,hp,hs,ht,hty,hfor,
    (tenant_isolation queueConfig hp hs ht hty (by decide) hfor).1⟩

/-- The same with one key: the call of `y` is answered with the task of `x` and rewrites its
metadata. -/
theorem key_shared_by_tenants :
    ∃ p q e t,(service queueConfig).Reach (fun _ _ => True) (.new queueConfig) p ∧
      (service queueConfig).Step p (.run 1 e) q ∧ p.tasks[1]?=some t ∧
      t.call.enqueuer=some "y" ∧ CreatedFor p "job-1" "x" ∧
      ¬Untouched "job-1" p.state.tasks q.state.tasks := by
  obtain ⟨p,hp,ht⟩:=(service queueConfig).play_free (.new queueConfig)
    (.start (enqueueRequest "x" "k")::steps 0 (idles 7)++
      .start (enqueueRequest "y" "k")::steps 1 (idles 3))
    (fun p => ("job-1",0)∈p.state.makers ∧ enqueuerAt p 0=some "x" ∧ enqueuerAt p 1=some "y" ∧
      metaTenant p.state.tasks "job-1"=some "x" ∧
      ((service queueConfig).fire (.run 1 {}) p).any fun x =>
        metaTenant x.2.state.tasks "job-1"=some "y") (by decide +kernel)
  obtain ⟨hmaker,h0,h1,hbefore,hfire⟩:=of_decide_eq_true ht
  obtain ⟨u,hu,hux⟩:=enqueuerAt_some h0
  obtain ⟨t,ht,hty⟩:=enqueuerAt_some h1
  cases hq : (service queueConfig).fire (.run 1 {}) p with
  | none => rw [hq] at hfire; cases hfire
  | some x =>
  rw [hq] at hfire
  have hafter : metaTenant x.2.state.tasks "job-1"=some "y" := of_decide_eq_true hfire
  obtain ⟨e,hs⟩:=(service queueConfig).fire_run hq
  refine ⟨p,x.2,e,t,hp,hs,ht,hty,⟨0,u,hmaker,hu,hux⟩,fun h => ?_⟩
  rcases h with h | ⟨h,-⟩
  · rw [metaTenant,Tasks.TaskRegistry.get,h] at hafter
    exact absurd (hbefore.symm.trans hafter) (by decide)
  · rw [metaTenant,Tasks.TaskRegistry.get,h] at hafter
    cases hafter

end Router
