import IdaMcp.Lib.Line
import IdaMcp.Router.Changes

/-!
# The order of the two queues

The sections of `prewarm_queue` and `route_queue` as a line with priorities
(`Lib.Line`): what each does to the entries, and that a drive takes the entry
that ranks first among those whose tenant is below its cap.
-/

namespace Router
open Lib (Map Json)
open Lib.Line (Order Turn Shown Scheduler)
variable (cfg : RouterConfig)

def routeOrder : Order QueuedRouteTask := ⟨(·.priority),(·.enqueuedAt)⟩
def prewarmOrder : Order QueuedPrewarmTask := ⟨(·.priority),(·.enqueuedAt)⟩

/-- The test of lines 1963-1970. -/
def RouteQueueState.eligible (q : RouteQueueState) (t : QueuedRouteTask) : Bool :=
  tenantCount q.tenantActive t.tenantId < cfg.maxTasksPerTenant

/-- The test of lines 1886-1893. -/
def PrewarmQueueState.eligible (q : PrewarmQueueState) (t : QueuedPrewarmTask) : Bool :=
  tenantCount q.tenantActive t.tenantId < cfg.maxPrewarmsPerTenant

theorem RouteQueueState.next_cases (instant : Instant) (q : RouteQueueState) :
    (q.next cfg instant=(none,q) ∧
      (cfg.maxActiveTasks ≤ q.active.size ∨ q.queued.findIdx? (q.eligible cfg)=none)) ∨
      ∃ i t,¬cfg.maxActiveTasks ≤ q.active.size ∧ q.queued.findIdx? (q.eligible cfg)=some i ∧
        q.queued[i]?=some t ∧ q.next cfg instant=(some t,{q with
          queued:=q.queued.eraseIdx i
          tenantActive:=countUp q.tenantActive t.tenantId
          active:=q.active.insert t.taskId
            ⟨t.taskId,t.path,t.method,t.tenantId,t.priority,instant⟩}) := by
  by_cases hfull : cfg.maxActiveTasks ≤ q.active.size
  · exact .inl ⟨if_pos hfull,.inl hfull⟩
  cases hi : q.queued.findIdx? (q.eligible cfg) with
  | none =>
    refine .inl ⟨?_,.inr rfl⟩
    rw [next,if_neg hfull,show q.queued.findIdx? (fun t => decide
      (tenantCount q.tenantActive t.tenantId < cfg.maxTasksPerTenant))=_ from hi]
  | some i =>
    obtain ⟨hlt,-,-⟩ := List.findIdx?_eq_some_iff_getElem.mp hi
    have ht:=List.getElem?_eq_getElem hlt
    refine .inr ⟨i,q.queued[i],hfull,rfl,ht,?_⟩
    rw [next,if_neg hfull,show q.queued.findIdx? (fun t => decide
      (tenantCount q.tenantActive t.tenantId < cfg.maxTasksPerTenant))=_ from hi]
    simp only [ht]

theorem PrewarmQueueState.next_cases (instant : Instant) (q : PrewarmQueueState) :
    (q.next cfg instant=(none,q) ∧
        (cfg.maxActivePrewarms ≤ q.active.size ∨ q.queued.findIdx? (q.eligible cfg)=none)) ∨
      ∃ i t,¬cfg.maxActivePrewarms ≤ q.active.size ∧ q.queued.findIdx? (q.eligible cfg)=some i ∧
        q.queued[i]?=some t ∧ q.next cfg instant=(some t,{q with
          queued:=q.queued.eraseIdx i
          tenantActive:=countUp q.tenantActive t.tenantId
          active:=q.active.insert t.taskId
            ⟨t.taskId,t.path,t.tenantId,t.priority,t.keepWarm,instant⟩}) := by
  by_cases hfull : cfg.maxActivePrewarms ≤ q.active.size
  · exact .inl ⟨if_pos hfull,.inl hfull⟩
  cases hi : q.queued.findIdx? (q.eligible cfg) with
  | none =>
    refine .inl ⟨?_,.inr rfl⟩
    rw [next,if_neg hfull,show q.queued.findIdx? (fun t => decide
      (tenantCount q.tenantActive t.tenantId < cfg.maxPrewarmsPerTenant))=_ from hi]
  | some i =>
    obtain ⟨hlt,-,-⟩ := List.findIdx?_eq_some_iff_getElem.mp hi
    have ht:=List.getElem?_eq_getElem hlt
    refine .inr ⟨i,q.queued[i],hfull,rfl,ht,?_⟩
    rw [next,if_neg hfull,show q.queued.findIdx? (fun t => decide
      (tenantCount q.tenantActive t.tenantId < cfg.maxPrewarmsPerTenant))=_ from hi]
    simp only [ht]

/-- What a section of the route queue shows: an entry came if the queue grew, `next` returns what is
started, and an entry was removed if `cancel` says so. -/
def RouteOp.shown (env : Env) (q : RouteQueueState) : RouteOp → Shown QueuedRouteTask
  | .push id path method params tenant priority known =>
    if (RouteOp.run cfg (.push id path method params tenant priority known) env q).2.queued.length=
        q.queued.length then {}
    else {came:=[⟨id,path,method,params,tenant,priority,env.instant⟩]}
  | .cancel id =>
    if (q.cancel id).1 then {removed:=(q.queued.find? fun t => t.taskId=id).toList} else {}
  | .next => {started:=(RouteOp.run cfg .next env q).1.toList}
  | .room _ | .finish _ _ | .list => {}

def PrewarmOp.shown (env : Env) (q : PrewarmQueueState) : PrewarmOp → Shown QueuedPrewarmTask
  | .enqueue path priority keepWarm tenant =>
    match (PrewarmOp.run cfg (.enqueue path priority keepWarm tenant) env q).1 with
    | .ok x => {came:=[⟨x.1,path,tenant,priority,keepWarm,env.instant⟩]}
    | .error _ => {}
  | .next => {started:=(PrewarmOp.run cfg .next env q).1.toList}
  | .finish _ _ _ | .list => {}

theorem getElem?_of_findIdx? {α : Type} {xs : List α} {p : α → Bool} {i : Nat}
    (h : xs.findIdx? p=some i) : xs[i]?=xs.find? p := by
  obtain ⟨hlt,hp,hbefore⟩:=List.findIdx?_eq_some_iff_getElem.mp h
  rw [List.getElem?_eq_getElem hlt]
  refine (List.find?_eq_some_iff_getElem.mpr ⟨hp,i,hlt,rfl,fun j hj => ?_⟩).symm
  rw [Bool.not_eq_true']
  exact Bool.eq_false_iff.mpr (hbefore j hj)

theorem RouteOp.moves (env : Env) (q : RouteQueueState) (op : RouteOp) :
    ∃ m : Turn QueuedRouteTask,(op.run cfg env q).2.queued=routeOrder.move q.queued m ∧
      op.shown cfg env q=m.shown q.queued ∧ ∀ a,m=.enter a → a.enqueuedAt=env.instant := by
  cases op with
  | room | finish | list => exact ⟨.stay,rfl,rfl,by rintro _ ⟨⟩⟩
  | push id path method params tenant priority known =>
    simp only [RouteOp.shown,RouteOp.run,RouteQueueState.push]
    split
    · exact ⟨.enter _,rfl,if_neg (by simp),fun a ha => by cases ha; rfl⟩
    · exact ⟨.stay,rfl,if_pos rfl,by rintro _ ⟨⟩⟩
  | cancel id =>
    simp only [RouteOp.shown,RouteOp.run]
    cases hi : q.queued.findIdx? fun t => decide (t.taskId=id) with
    | some i =>
      have hc : q.cancel id=(true,{q with queued:=q.queued.eraseIdx i}) := by
        rw [RouteQueueState.cancel,hi]
      rw [hc]
      exact ⟨.remove i,rfl,by rw [Turn.shown,getElem?_of_findIdx? hi]; rfl,by rintro _ ⟨⟩⟩
    | none =>
      have hc : q.cancel id=(false,q) := by rw [RouteQueueState.cancel,hi]
      rw [hc]
      exact ⟨.stay,rfl,rfl,by rintro _ ⟨⟩⟩
  | next =>
    simp only [RouteOp.shown,RouteOp.run]
    rcases q.next_cases cfg env.instant with ⟨he,-⟩ | ⟨i,t,-,-,ht,he⟩
    · rw [he]
      exact ⟨.stay,rfl,rfl,by rintro _ ⟨⟩⟩
    · rw [he]
      exact ⟨.start i,rfl,by rw [Turn.shown,ht],by rintro _ ⟨⟩⟩

theorem PrewarmOp.moves (env : Env) (q : PrewarmQueueState) (op : PrewarmOp) :
    ∃ m : Turn QueuedPrewarmTask,(op.run cfg env q).2.queued=prewarmOrder.move q.queued m ∧
      op.shown cfg env q=m.shown q.queued ∧ ∀ a,m=.enter a → a.enqueuedAt=env.instant := by
  cases op with
  | finish | list => exact ⟨.stay,rfl,rfl,by rintro _ ⟨⟩⟩
  | enqueue path priority keepWarm tenant =>
    simp only [PrewarmOp.shown,PrewarmOp.run,PrewarmQueueState.enqueue]
    by_cases hfull : cfg.maxQueuedPrewarms ≤ q.queued.length
    · simp only [if_pos hfull]
      exact ⟨.stay,rfl,rfl,by rintro _ ⟨⟩⟩
    · simp only [if_neg hfull]
      exact ⟨.enter _,rfl,rfl,fun a ha => by cases ha; rfl⟩
  | next =>
    simp only [PrewarmOp.shown,PrewarmOp.run]
    rcases q.next_cases cfg env.instant with ⟨he,-⟩ | ⟨i,t,-,-,ht,he⟩
    · rw [he]
      exact ⟨.stay,rfl,rfl,by rintro _ ⟨⟩⟩
    · rw [he]
      exact ⟨.start i,rfl,by rw [Turn.shown,ht],by rintro _ ⟨⟩⟩

def routeScheduler : Scheduler (RouteOp × Env) RouteQueueState QueuedRouteTask where
  order:=routeOrder
  queued:=(·.queued)
  step x q:=(x.1.run cfg x.2 q).2
  shown x q:=x.1.shown cfg x.2 q
  time x:=x.2.instant
  moves x q:=x.1.moves cfg x.2 q

def prewarmScheduler : Scheduler (PrewarmOp × Env) PrewarmQueueState QueuedPrewarmTask where
  order:=prewarmOrder
  queued:=(·.queued)
  step x q:=(x.1.run cfg x.2 q).2
  shown x q:=x.1.shown cfg x.2 q
  time x:=x.2.instant
  moves x q:=x.1.moves cfg x.2 q

/-- After the sections `ops`, each with its reading of the clock: the entries are in their places,
and what `next` returns is served first and active from then on. -/
structure RouteOrderly (ops : List (RouteOp × Env)) (q : RouteQueueState) : Prop where
  orderly : (routeScheduler cfg).Orderly q ((routeScheduler cfg).history .new ops)
    (q.eligible cfg) fun t => ∃ env,(RouteOp.next.run cfg env q).1=some t
  active : ∀ env t,(RouteOp.next.run cfg env q).1=some t →
    (RouteOp.next.run cfg env q).2.active.get t.taskId=
      some ⟨t.taskId,t.path,t.method,t.tenantId,t.priority,env.instant⟩

structure PrewarmOrderly (ops : List (PrewarmOp × Env)) (q : PrewarmQueueState) : Prop where
  orderly : (prewarmScheduler cfg).Orderly q ((prewarmScheduler cfg).history .new ops)
    (q.eligible cfg) fun t => ∃ env,(PrewarmOp.next.run cfg env q).1=some t
  active : ∀ env t,(PrewarmOp.next.run cfg env q).1=some t →
    (PrewarmOp.next.run cfg env q).2.active.get t.taskId=
      some ⟨t.taskId,t.path,t.tenantId,t.priority,t.keepWarm,env.instant⟩

theorem route_orderly (ops : List (RouteOp × Env))
    (hclock : (ops.map fun x => x.2.instant).Pairwise (· ≤ ·)) :
    RouteOrderly cfg ops ((routeScheduler cfg).after .new ops) := by
  refine ⟨(routeScheduler cfg).orderly rfl ops hclock ?_,fun env t ht => ?_⟩
  · rintro t ⟨env,ht⟩
    rcases ((routeScheduler cfg).after .new ops).next_cases cfg env.instant with
      ⟨he,-⟩ | ⟨i,u,-,hi,hu,he⟩
    · simp only [RouteOp.run,he] at ht
      cases ht
    · simp only [RouteOp.run,he,Option.some.injEq] at ht
      exact ⟨i,hi,ht ▸ hu⟩
  · rcases ((routeScheduler cfg).after .new ops).next_cases cfg env.instant with
      ⟨he,-⟩ | ⟨i,u,-,-,-,he⟩
    · simp only [RouteOp.run,he] at ht
      cases ht
    · simp only [RouteOp.run,he,Option.some.injEq] at ht ⊢
      rw [ht]
      exact Map.get_insert_self ..

theorem prewarm_orderly (ops : List (PrewarmOp × Env))
    (hclock : (ops.map fun x => x.2.instant).Pairwise (· ≤ ·)) :
    PrewarmOrderly cfg ops ((prewarmScheduler cfg).after .new ops) := by
  refine ⟨(prewarmScheduler cfg).orderly rfl ops hclock ?_,fun env t ht => ?_⟩
  · rintro t ⟨env,ht⟩
    rcases ((prewarmScheduler cfg).after .new ops).next_cases cfg env.instant with
      ⟨he,-⟩ | ⟨i,u,-,hi,hu,he⟩
    · simp only [PrewarmOp.run,he] at ht
      cases ht
    · simp only [PrewarmOp.run,he,Option.some.injEq] at ht
      exact ⟨i,hi,ht ▸ hu⟩
  · rcases ((prewarmScheduler cfg).after .new ops).next_cases cfg env.instant with
      ⟨he,-⟩ | ⟨i,u,-,-,-,he⟩
    · simp only [PrewarmOp.run,he] at ht
      cases ht
    · simp only [PrewarmOp.run,he,Option.some.injEq] at ht ⊢
      rw [ht]
      exact Map.get_insert_self ..

def routeSections (xs : List (Op × Env)) : List (RouteOp × Env) := xs.filterMap fun x =>
  match x.1 with
  | .route o => some (o,x.2)
  | _ => none

def prewarmSections (xs : List (Op × Env)) : List (PrewarmOp × Env) := xs.filterMap fun x =>
  match x.1 with
  | .prewarm o => some (o,x.2)
  | _ => none

/-- Each queue is what its own sections in `xs` make of it, and in order if the clock is. -/
structure QueuesRun (xs : List (Op × Env)) (s : Shared) : Prop where
  route : s.routeQueue=(routeScheduler cfg).after .new (routeSections xs)
  prewarm : s.prewarmQueue=(prewarmScheduler cfg).after .new (prewarmSections xs)
  orderly : (xs.map fun x => x.2.instant).Pairwise (· ≤ ·) →
    RouteOrderly cfg (routeSections xs) s.routeQueue ∧
      PrewarmOrderly cfg (prewarmSections xs) s.prewarmQueue

theorem queues_after {C : Service → Move → Prop} {xs : List (Op × Env)} {p : Service}
    (hr : (service cfg).Runs C (.new cfg) xs p) :
    p.state.routeQueue=(routeScheduler cfg).after .new (routeSections xs) ∧
      p.state.prewarmQueue=(prewarmScheduler cfg).after .new (prewarmSections xs) := by
  induction hr with
  | init => exact ⟨rfl,rfl⟩
  | start _ _ _ ih => exact ih
  | @run xs p i t op k env r s _ _ _ hx _ ih =>
    have hq:=exec_queues cfg hx
    rw [Scheduler.after,routeSections,Scheduler.after,prewarmSections,List.filterMap_append,
      List.filterMap_append,List.foldl_append,List.foldl_append]
    change s.routeQueue=List.foldl _ ((routeScheduler cfg).after .new (routeSections xs)) _ ∧
      s.prewarmQueue=List.foldl _ ((prewarmScheduler cfg).after .new (prewarmSections xs)) _
    rw [← ih.1,← ih.2]
    cases op with
    | route o => cases hx; exact ⟨rfl,rfl⟩
    | prewarm o => cases hx; exact ⟨rfl,rfl⟩
    | _ => exact ⟨hq.routeQueue (by rintro _ ⟨⟩),hq.prewarmQueue (by rintro _ ⟨⟩)⟩

theorem sections_sorted {α : Type} {xs : List (Op × Env)} (f : Op × Env → Option (α × Env))
    (hf : ∀ x y,f x=some y → y.2=x.2)
    (h : (xs.map fun x => x.2.instant).Pairwise (· ≤ ·)) :
    ((xs.filterMap f).map fun x => x.2.instant).Pairwise (· ≤ ·) := by
  rw [List.pairwise_map] at h ⊢
  refine List.Pairwise.filterMap f ?_ h
  intro x y hxy a ha b hb
  rw [hf x a ha,hf y b hb]
  exact hxy

/-- In every run of the router each queue is what its own sections have made of it, one after the
other and with the clock readings of the run, whatever the tasks do in between. -/
theorem queues_reached (cfg : RouterConfig) {C : Service → Move → Prop} {p : Service}
    (hr : (service cfg).Reach C (.new cfg) p) : (∃ xs,(service cfg).Runs C (.new cfg) xs p) ∧
      ∀ xs,(service cfg).Runs C (.new cfg) xs p → QueuesRun cfg xs p.state := by
  refine ⟨hr.runs,fun xs hx => ?_⟩
  obtain ⟨hroute,hprewarm⟩:=queues_after cfg hx
  refine ⟨hroute,hprewarm,fun hclock => ?_⟩
  rw [hroute,hprewarm]
  refine ⟨route_orderly cfg _ (sections_sorted _ ?_ hclock),
    prewarm_orderly cfg _ (sections_sorted _ ?_ hclock)⟩
  all_goals
    rintro ⟨op,env⟩ y hy
    cases op <;> first | (cases hy; rfl) | cases hy

/-- A task is pushed and driven, while the task that enqueued it goes on. -/
theorem queues_reached_driven : ∃ xs p,
    (service queueConfig).Runs (fun _ _ => True) (.new queueConfig) xs p ∧
      (p.state.routeQueue.active.get "job-1").isSome ∧ QueuesRun queueConfig xs p.state := by
  obtain ⟨p,hr,hp⟩:=(service queueConfig).play_free (.new queueConfig)
    (.start (enqueueRequest "x" "k")::steps 0 (idles 7++{rounds := 4}::idles 3))
    (fun p => (p.state.routeQueue.active.get "job-1").isSome) (by decide +kernel)
  obtain ⟨⟨xs,hx⟩,hall⟩:=queues_reached queueConfig hr
  exact ⟨xs,p,hx,hp,hall xs hx⟩

end Router
