import IdaMcp.Router.Executions

/-!
# Cancellation before the start

`cancel_task` asks the registry first and returns when the registry has
cancelled the task; only a task that the registry does not have as running is
taken out of the queue. `revoked` has the tasks whose cancellation was decided
while they were queued, each with the number of its executions until then.
-/

namespace Router
open Lib (Holds)

/-- The tasks that the registry says it has cancelled. -/
def cancelledByRegistry : Lib.Event Op.Res → List TaskId
  | ⟨.tasks o,r⟩ => taskCancels o r
  | _ => []

/-- No cancellation of a queued task is decided in the registry. -/
def CancelledInQueue (p : Service) (l : Move) : Prop :=
  Unrepeated p l ∧ match l with
    | .start _ => True
    | .run _ e => ∀ id∈cancelledByRegistry e,id∉p.state.routeQueue.ids

/-- A cancelled task is known and not in the queue, and was not started since. -/
def Withdrawn (s : Shared) : Prop :=
  ∀ x∈s.revoked,x.1∈s.tasks.created ∧ x.1∉s.routeQueue.ids ∧ s.started.count x.1=x.2

theorem mem_revocations {s : Shared} {ids : List TaskId} {x : TaskId × Nat}
    (h : x∈s.revocations ids) :
    x.1∈ids ∧ x.1∈s.routeQueue.ids ∧ x.2=s.started.count x.1 := by
  obtain ⟨id,hid,rfl⟩:=List.mem_map.mp h
  obtain ⟨hm,hq⟩:=List.mem_filter.mp hid
  obtain ⟨t,ht,he⟩:=List.any_eq_true.mp hq
  exact ⟨hm,List.mem_map.mpr ⟨t,ht,of_decide_eq_true he⟩,rfl⟩

theorem QueueMove.queued_subset {cfg : RouterConfig} {q q' : RouteQueueState}
    {ids st fs cs : List TaskId} (h : QueueMove cfg q q' ids st fs cs) : q'.ids ⊆ ids++q.ids := by
  cases h with
  | idle hi _ | finished _ hi _ => rw [hi]; exact List.Subset.refl _
  | pushed id hi _ => exact hi.subset
  | started id _ hi _ _ | cancelled id hi _ =>
    exact fun x hx => hi.mem_iff.mpr (List.mem_cons_of_mem _ hx)

theorem QueueMove.cancels_one {cfg : RouterConfig} {q q' : RouteQueueState}
    {ids st fs cs : List TaskId} {id : TaskId} (h : QueueMove cfg q q' ids st fs cs) (hid : id∈cs) :
    q.ids.Perm (id::q'.ids) ∧ st=[] := by
  cases h with
  | cancelled x hi _ => obtain rfl:=List.mem_singleton.mp hid; exact ⟨hi,rfl⟩
  | _ => cases hid

section Step
variable {cfg : RouterConfig} {i : Nat} {op : Op} {env : Env} {r : op.Res} {s t : Shared} {m : Hand}

theorem Withdrawn.route {o : RouteOp} {r : o.Res} (hk : TasksKnown s) (hl : TaskLedger cfg s)
    (hg : Withdrawn s) (hp : ∀ id∈o.pushes s.routeQueue,∀ x∈s.revoked,x.1≠id)
    (hx : exec cfg i (.route o) env s=some (r,t)) : Withdrawn t := by
  obtain ⟨hmove,-⟩:=used_route hx
  have hrevoked : t.revoked=s.revocations (o.cancels r)++s.revoked := by cases hx; rfl
  have hstarted : t.started=o.starts r++s.started := by cases hx; rfl
  have hcreated : t.tasks.created=s.tasks.created := by cases hx; rfl
  intro x hxm
  rw [hrevoked] at hxm
  rw [hstarted,hcreated,List.count_append]
  rcases List.mem_append.mp hxm with hnew | hold
  · -- The entry that is taken out was the only one of its task.
    obtain ⟨hc,hq,hn⟩:=mem_revocations hnew
    obtain ⟨hone,hst⟩:=hmove.cancels_one hc
    have hd : s.routeQueue.ids.Nodup := (List.nodup_append.mp hl.distinct).1
    refine ⟨hk.used (List.mem_append_left _ hq),?_,?_⟩
    · exact (List.nodup_cons.mp (hone.nodup_iff.mp hd)).1
    · rw [hst,hn,List.count_nil,Nat.zero_add]
  · obtain ⟨hc,hq,hn⟩:=hg x hold
    refine ⟨hc,fun hm => ?_,?_⟩
    · rcases List.mem_append.mp (hmove.queued_subset hm) with h | h
      · exact hp _ h x hold rfl
      · exact hq h
    · have hnot : x.1∉o.starts r := fun h => hq (hmove.starts_queued h)
      rw [List.count_eq_zero_of_not_mem hnot,Nat.zero_add,hn]

theorem Withdrawn.step (hk : TasksKnown s) (hl : TaskLedger cfg s) (ha : handMonitor.allowed m op)
    (hu : UsesOwn s m op) (hc : ∀ id∈cancelledByRegistry ⟨op,r⟩,id∉s.routeQueue.ids)
    (hg : Withdrawn s) (hown : ∀ id,m=.own id → ∀ x∈s.revoked,x.1≠id)
    (hx : exec cfg i op env s=some (r,t)) :
    Withdrawn t ∧ ∀ x∈t.revoked,x∈s.revoked ∨ x.1∈s.used := by
  cases op with
  | route o =>
    refine ⟨hg.route hk hl (fun id hid => hown id ((pushes_has ha hid).2.1 hu)) hx,fun x hxm => ?_⟩
    cases hx
    rcases List.mem_append.mp hxm with h | h
    · exact .inr (List.mem_append_left _ (mem_revocations h).2.1)
    · exact .inl h
  | tasks o =>
    have hnone : s.revocations (taskCancels o r)=[] := by
      refine List.eq_nil_iff_forall_not_mem.mpr fun x hxm => ?_
      obtain ⟨h1,h2,-⟩:=mem_revocations hxm
      exact hc _ h1 h2
    have hgrow : s.tasks.created ⊆ t.tasks.created := by
      cases hx
      rw [created_run]
      exact List.subset_append_right _ _
    have hrevoked : t.revoked=s.revoked := by
      cases hx
      exact congrArg (·++s.revoked) hnone
    refine ⟨fun x hxm => ?_,fun x hxm => .inl (hrevoked ▸ hxm)⟩
    obtain ⟨hold,hq,hn⟩:=hg x (hrevoked ▸ hxm)
    cases hx
    exact ⟨hgrow hold,hq,hn⟩
  | submit => cases hx; exact ⟨hg,fun _ h => .inl h⟩
  | _ =>
    obtain ⟨h1,h2,-,h4,-,-,h7⟩:=exec_sameTasks hx rfl
    refine ⟨?_,fun x h => .inl (h7 ▸ h)⟩
    intro x hxm
    rw [h7] at hxm
    rw [h1,h2,h4]
    exact hg x hxm

end Step

theorem withdrawn_holds (cfg : RouterConfig) {p : Service}
    (hr : (service cfg).Reach CancelledInQueue (.new cfg) p) :
    Holds handMonitor (fun _ => .empty) Withdrawn
      (fun s _ _ m => ∀ id,m=.own id → ∀ x∈s.revoked,x.1≠id) p := by
  refine Lib.reach_holds (service cfg) handMonitor (fun _ => .empty) CancelledInQueue
    (fun _ _ => True) (fun c => Executions.body c .empty trivial) (fun _ _ _ _ _ _ => trivial)
    (fun _ h => by cases h) (fun _ _ _ _ _ _ _ h => by cases h) ?_ ?_
    (fun _ _ _ _ _ _ _ _ _ _ _ _ _ _ _ h => by cases h) hr
  · intro p i t op env r s hp hi hf
    obtain ⟨hk,-⟩:=tasksKnown_holds cfg hp
    obtain ⟨hl,hhand⟩:=taskLedger_holds cfg (fun _ _ h => h.1) hp
    obtain ⟨hw,hnew⟩:=Withdrawn.step hk hl hf.allowed (hf.cond.1 t hf.task) hf.cond.2 hi.1
      (hi.2 i t hf.task) hf.exec
    refine ⟨hw,fun id he x hxm hxid => ?_⟩
    rcases next_cases (hand t) op r with hn | hn | ⟨pre,key,message,y,rfl,⟨hres,hn⟩ | ⟨hres,hn⟩⟩ <;>
      (replace he : handMonitor.next (hand t) _=_ := he; rw [hn] at he)
    · rcases hnew x hxm with h | h
      · exact hi.2 i t hf.task id he x h hxid
      · exact (hhand i t hf.task id he).2 (hxid ▸ h)
    · cases he
    · cases he
      obtain rfl:=eq_of_heq hres
      -- The new task's id was not known before.
      have hx : exec cfg i (.tasks (.createWithKey pre key message)) env p.state=some (.ok id,s) :=
        hf.exec
      have hd:=(wf_step hk.wf hx).distinct
      rw [(created_fresh hx).1] at hd
      rcases hnew x hxm with h | h
      · exact (List.nodup_cons.mp hd).1 (hxid ▸ (hi.1 x h).1)
      · exact (List.nodup_cons.mp hd).1 (hxid ▸ hk.used h)
    · cases he
  · intro p i t op env r s j u hp hi hf hji hu id he x hxm hxid
    obtain ⟨hl,hhand⟩:=taskLedger_holds cfg (fun _ _ h => h.1) hp
    obtain ⟨-,hnew⟩:=Withdrawn.step (tasksKnown_holds cfg hp).1 hl hf.allowed (hf.cond.1 t hf.task)
      hf.cond.2 hi.1 (hi.2 i t hf.task) hf.exec
    rcases hnew x hxm with h | h
    · exact hi.2 j u hu id he x h hxid
    · exact (hhand j u hu id he).2 (hxid ▸ h)

/-- A task whose cancellation was decided while it was queued is never started after. -/
theorem cancellation_effective (cfg : RouterConfig) {p : Service}
    (hr : (service cfg).Reach CancelledInQueue (.new cfg) p) :
    ∀ id n,(id,n)∈p.state.revoked → p.state.started.count id=n := by
  intro id n h
  exact ((withdrawn_holds cfg hr).1 (id,n) h).2.2

def cancelRequest (id : TaskId) : Job := .cli "cancel_task" (.ofFields [("task_id",.str id)])

/-- The first cancellation comes before the task is queued, the second takes it out. -/
theorem cancellation_effective_queued :
    ∃ p,(service queueConfig).Reach CancelledInQueue (.new queueConfig) p ∧
      ("job-1",0)∈p.state.revoked ∧ p.state.started.count "job-1"=0 := by
  obtain ⟨p,hp,ht⟩:=(service queueConfig).play_any CancelledInQueue
    (fun p l => match l with
      | .start _ => true
      | .run i e => ((p.tasks[i]?).all fun t => decide (UsesOwn p.state (hand t) e.op)) &&
          (cancelledByRegistry e).all fun id => decide (id∉p.state.routeQueue.ids))
    (fun p l h => by
      cases l with
      | start => exact ⟨trivial,trivial⟩
      | run i e =>
        obtain ⟨h1,h2⟩:=Bool.and_eq_true_iff.mp h
        refine ⟨fun t ht => ?_,fun id hid => of_decide_eq_true (List.all_eq_true.mp h2 id hid)⟩
        rw [ht] at h1
        exact of_decide_eq_true h1) (.new queueConfig)
    (.start (enqueueRequest "x" "k")::steps 0 (idles 3)++
      .start (cancelRequest "job-1")::steps 1 (idles 2)++steps 0 (idles 4)++
      .start (cancelRequest "job-1")::steps 2 (idles 6)++steps 0 ({rounds := 4}::idles 4))
    (fun p => ("job-1",0)∈p.state.revoked) (by decide +kernel)
  have hrevoked:=of_decide_eq_true ht
  exact ⟨p,hp,hrevoked,cancellation_effective queueConfig hp _ _ hrevoked⟩

/-- The registry cancels the queued task, `cancel_task` answers that it was cancelled, and the next
drive starts it. -/
theorem cancelled_task_starts :
    ∃ p,(service queueConfig).Reach (fun _ _ => True) (.new queueConfig) p ∧
      ("job-1",0)∈p.state.revoked ∧ p.state.started.count "job-1"=1 := by
  obtain ⟨p,hp,ht⟩:=(service queueConfig).play_free (.new queueConfig)
    (.start (enqueueRequest "x" "k")::steps 0 (idles 7)++
      .start (cancelRequest "job-1")::steps 1 (idles 2)++steps 0 ({rounds := 4}::idles 2))
    (fun p => ("job-1",0)∈p.state.revoked ∧ p.state.started.count "job-1"=1) (by decide +kernel)
  exact ⟨p,hp,of_decide_eq_true ht⟩

end Router
