import IdaMcp.Lib.LockOrder
import IdaMcp.Router.Frame

/-!
# Who waits for whose mutex

The order is: `inner` first, any one of the other four under it. Every function
of the router keeps to it, with two exceptions. `release_warm_lease` holds
`warm_pool` while it takes `inner` once it has found a lease, and
`status_snapshot_inner` holds `cached_probe` while it takes `inner` and
`cached_probe` again once it has found no probe. The monitor leaves those two
replies out (`good`) and admits everything else.
-/

namespace Router
open Lib (Json Monitor Holds Fired)
open Lib.Monitor (keeps_pure keeps_bind keeps_perform)

def Mutex.rank : Mutex → Nat
  | .inner => 0
  | _ => 1

/-- The mutex that guards the data an operation works on. -/
def Op.guard : Op → Option Mutex
  | .inner _ => some .inner
  | .warm _ => some .warmPool
  | .probe _ => some .cachedProbe
  | .prewarm _ => some .prewarmQueue
  | .route _ => some .routeQueue
  | _ => none

/-- The two replies after which a function takes a mutex out of order. -/
def outOfOrder : Lib.Event Op.Res → Bool
  | ⟨.probe .statusRead,r⟩ => r.isNone
  | ⟨.warm (.take _),r⟩ => r.isSome
  | _ => false

/-- Follows the mutexes a task holds. -/
def lockMonitor : Monitor Op.Res (Finset Mutex) where
  next m e := match e with
    | ⟨.lock x,_⟩ => insert x m
    | ⟨.unlock x,_⟩ => m.erase x
    | _ => m
  allowed m op := match op with
    | .lock x => ∀ y∈m, y.rank < x.rank
    | .unlock x => x∈m
    | op => ∀ x, op.guard=some x → x∈m
  good _ e := outOfOrder e=false

namespace Locks

abbrev Free (m : Finset Mutex) : Prop := m=∅

/-- A section alone: from no mutex to no mutex. -/
theorem keeps_section {α : Type} {x : Mutex} {body : Run α}
    (h : lockMonitor.Keeps (fun m => m={x}) body) : lockMonitor.Keeps Free (withLock x body) := by
  intro m hm
  subst hm
  simp only [withLock,Monitor.wp_bind,Monitor.wp_perform,Monitor.wp_pure]
  refine ⟨by simp [lockMonitor],fun _ _ => ?_⟩
  have he : lockMonitor.next ∅ ⟨.lock x,()⟩={x} := rfl
  rw [he]
  refine lockMonitor.wp_mono (h {x} rfl) ?_
  rintro a m rfl
  exact ⟨by simp [lockMonitor],fun _ _ => by simp [lockMonitor]⟩

/-- A section of another mutex under `inner`. -/
theorem keeps_nested {α : Type} {x : Mutex} {body : Run α} (hx : x≠.inner)
    (h : lockMonitor.Keeps (fun m => m={x,.inner}) body) :
    lockMonitor.Keeps (fun m => m={.inner}) (withLock x body) := by
  intro m hm
  subst hm
  simp only [withLock,Monitor.wp_bind,Monitor.wp_perform,Monitor.wp_pure]
  refine ⟨?_,fun _ _ => ?_⟩
  · cases x <;> simp_all [lockMonitor,Mutex.rank]
  have he : lockMonitor.next {.inner} ⟨.lock x,()⟩={x,.inner} := rfl
  rw [he]
  refine lockMonitor.wp_mono (h _ rfl) ?_
  rintro a m rfl
  refine ⟨by simp [lockMonitor],fun _ _ => ?_⟩
  change ({x,.inner} : Finset Mutex).erase x={.inner}
  exact Finset.erase_insert (by simpa using hx)

/-- An operation that takes or gives back no mutex, under its guard. -/
theorem keeps_op {op : Op} {m : Finset Mutex} (hl : ∀ x, op≠.lock x) (hu : ∀ x, op≠.unlock x)
    (hg : ∀ x, op.guard=some x → x∈m) : lockMonitor.Keeps (fun n => n=m) (act op) := by
  apply keeps_perform
  rintro _ rfl
  cases op <;> first | exact absurd rfl (hl _) | exact absurd rfl (hu _) | exact ⟨hg,fun _ _ => rfl⟩

theorem keeps_locked (o : InnerOp) : lockMonitor.Keeps Free (locked o) :=
  keeps_section (keeps_op (by simp) (by simp) (by simp [Op.guard]))

theorem keeps_world (o : WorldOp) (m : Finset Mutex) :
    lockMonitor.Keeps (fun n => n=m) (world o) :=
  keeps_op (by simp) (by simp) (by simp [Op.guard])

theorem keeps_closeWorker (h : DbHandle) (why : Reason) :
    lockMonitor.Keeps Free (closeWorker h why) :=
  keeps_section (keeps_bind
    (keeps_nested (by simp) (keeps_op (by simp) (by simp) (by simp [Op.guard])))
    fun _ => keeps_op (by simp) (by simp) (by simp [Op.guard]))

theorem keeps_probeWorkerBackend : lockMonitor.Keeps Free probeWorkerBackend := by
  refine keeps_bind (keeps_section (keeps_op (by simp) (by simp) (by simp [Op.guard]))) fun r => ?_
  rcases r with _ | cached
  · refine keeps_bind (keeps_world _ _) fun r => ?_
    rcases r with e | probe
    · exact keeps_pure _
    · exact keeps_bind (keeps_section (keeps_op (by simp) (by simp) (by simp [Op.guard])))
        fun _ => keeps_pure _
  · exact keeps_pure _

theorem keeps_routeRequest (h : Option DbHandle) (method : String) (params : Json) :
    lockMonitor.Keeps Free (routeRequest h method params) := by
  refine keeps_bind (keeps_locked _) fun r => ?_
  rcases r with e | target
  · exact keeps_pure _
  refine keeps_bind (keeps_locked _) fun id =>
    keeps_bind (keeps_op (by simp) (by simp) (by simp [Op.guard])) fun chan =>
    keeps_bind (keeps_locked _) fun r => ?_
  rcases r with e | _
  · exact keeps_pure _
  refine keeps_bind (keeps_op (by simp) (by simp) (by simp [Op.guard])) fun r => ?_
  rcases r with (_ | _) | _ | _ <;> exact keeps_pure _

theorem keeps_tasks (o : Tasks.TaskOp) (m : Finset Mutex) :
    lockMonitor.Keeps (fun n => n=m) (act (.tasks o)) :=
  keeps_op (by simp) (by simp) (by simp [Op.guard])

theorem keeps_routeOp (o : RouteOp) :
    lockMonitor.Keeps (fun m => m={.routeQueue}) (act (.route o)) :=
  keeps_op (by simp) (by simp) (by simp [Op.guard])

theorem keeps_cancelTask (id : TaskId) : lockMonitor.Keeps Free (cancelTask id) := by
  refine keeps_bind (keeps_tasks _ _) fun b => ?_
  split
  · exact keeps_pure _
  refine keeps_section (keeps_bind (keeps_routeOp _) fun b => ?_)
  dsimp only
  split
  · exact keeps_bind (keeps_tasks _ _) fun _ => keeps_pure _
  · exact keeps_pure _

theorem keeps_admitTask (path : Path) (method : String) (params : Json) (tenantId : String)
    (priority : Nat) (dedupeKey : Option String) :
    lockMonitor.Keeps Free (admitTask path method params tenantId priority dedupeKey) := by
  refine keeps_section (keeps_bind (keeps_routeOp _) fun r => ?_)
  rcases r with e | _
  · exact keeps_pure _
  · exact keeps_bind (keeps_tasks _ _) fun _ => keeps_bind (keeps_tasks _ _) fun _ =>
      keeps_bind (keeps_tasks _ _) fun _ => keeps_bind (keeps_routeOp _) fun _ => keeps_pure _

theorem keeps_enqueueTask (path method : String) (tenantId : Option String) (params : Json) :
    lockMonitor.Keeps Free (enqueueTask path method tenantId params) :=
  Enqueueing.enqueueTask {
    world := fun o => keeps_world o _
    tasks := fun o => keeps_tasks o _
    drive := keeps_drive (keeps_section (keeps_routeOp _)) (fun _ _ => keeps_tasks _ _)
      fun _ => keeps_op (by simp) (by simp) (by simp [Op.guard])
    admitTask := keeps_admitTask
    submit := fun _ _ _ => keeps_op (by simp) (by simp) (by simp [Op.guard])
    handle := keeps_op (by simp) (by simp) (by simp [Op.guard])
    spawn := fun _ _ _ _ => keeps_op (by simp) (by simp) (by simp [Op.guard]) } path method tenantId
    params

/-- With a probe in the cache the guard of `cached_probe` covers nothing else. -/
theorem keeps_statusProbe : lockMonitor.Keeps Free statusProbe := by
  apply keeps_section
  intro m hm
  rw [Monitor.wp_bind,Monitor.wp_perform]
  refine ⟨by subst hm; simp [lockMonitor,Op.guard],fun r hr => ?_⟩
  cases r with
  | none => exact absurd hr (by simp [lockMonitor,outOfOrder])
  | some probe => exact hm

theorem keeps_statusSnapshot (b : Bool) : lockMonitor.Keeps Free (statusSnapshotInner b) := by
  refine keeps_bind keeps_statusProbe fun probe => keeps_section ?_
  have hread (x : Mutex) (op : Op) (hx : x≠.inner) (hl : ∀ x, op≠.lock x) (hu : ∀ x, op≠.unlock x)
      (hg : op.guard=some x) :
      lockMonitor.Keeps (fun m => m={.inner}) (withLock x (act op)) :=
    keeps_nested hx (keeps_op hl hu (by simp [hg]))
  refine keeps_bind (keeps_op (by simp) (by simp) (by simp [Op.guard])) fun _ =>
    keeps_bind (hread .warmPool _ (by simp) (by simp) (by simp) rfl) fun _ =>
    keeps_bind (hread .prewarmQueue _ (by simp) (by simp) (by simp) rfl) fun _ =>
    keeps_bind (hread .routeQueue _ (by simp) (by simp) (by simp) rfl) fun _ => ?_
  dsimp only
  split
  · exact keeps_bind (keeps_world _ _) fun _ => keeps_pure _
  · exact keeps_pure _

/-- Without a lease under its path the guard of `warm_pool` covers nothing else. -/
theorem keeps_releaseWarmLease (path : Path) : lockMonitor.Keeps Free (releaseWarmLease path) := by
  apply keeps_section
  intro m hm
  rw [Monitor.wp_bind,Monitor.wp_perform]
  refine ⟨by subst hm; simp [lockMonitor,Op.guard],fun r hr => ?_⟩
  cases r with
  | none => exact hm
  | some lease => exact absurd hr (by simp [lockMonitor,outOfOrder])

theorem parts : Parts lockMonitor Free where
  world o := keeps_world o _
  acquire := keeps_op (by simp) (by simp) (by simp [Op.guard])
  release := keeps_op (by simp) (by simp) (by simp [Op.guard])
  spawnRoute _ := keeps_op (by simp) (by simp) (by simp [Op.guard])
  look o _ := keeps_locked o
  pinned := keeps_section (keeps_op (by simp) (by simp) (by simp [Op.guard]))
  queuePrewarm _ _ _ _ := keeps_section (keeps_op (by simp) (by simp) (by simp [Op.guard]))
  drivePrewarm := keeps_drivePrewarm
    (keeps_section (keeps_op (by simp) (by simp) (by simp [Op.guard])))
    fun _ => keeps_op (by simp) (by simp) (by simp [Op.guard])
  route o _ := keeps_section (keeps_routeOp o)
  tasks o _ := keeps_tasks o _
  tick _ := keeps_op (by simp) (by simp) (by simp [Op.guard])
  enqueue := keeps_enqueueTask
  cancel := keeps_cancelTask
  probe := keeps_probeWorkerBackend
  status := keeps_statusSnapshot
  request := keeps_routeRequest
  close h := keeps_closeWorker h _

theorem refs : Refs lockMonitor Free where
  toParts := parts
  spawnClient path tenantId := parts.spawnWorker path tenantId _
    (Parts.evictLoop (keeps_locked _) fun h => keeps_closeWorker h _)
    (fun _ => keeps_locked _) fun _ _ => keeps_locked _
  ensure path tenantId := parts.ensure path tenantId
    (fun tenant => parts.spawnWorker path tenant _
      (Parts.evictLoop (keeps_locked _) fun h => keeps_closeWorker h _)
      (fun _ => keeps_locked _) fun _ _ => keeps_locked _)
    (fun _ => keeps_locked _) (fun _ => keeps_locked _)
    fun _ => keeps_bind (keeps_locked _) fun _ => keeps_pure _
  releaseRef _ := keeps_locked _
  closeLast path tenantId := parts.closeLast path tenantId (fun _ => keeps_locked _)
    fun h => keeps_closeWorker h _
  closeIdb token := parts.closeIdb token (fun _ => keeps_locked _) fun h => keeps_closeWorker h _
  collect idle := Parts.collectIdle idle (keeps_locked _) fun h => keeps_closeWorker h _

theorem core : Core lockMonitor Free :=
  ⟨refs,refs.prewarm fun path handle token tenantId cache => parts.installWarmLease
    (keeps_section (keeps_op (by simp) (by simp) (by simp [Op.guard])))
    (keeps_section (keeps_op (by simp) (by simp) (by simp [Op.guard]))) keeps_releaseWarmLease
    path handle token tenantId cache
    (keeps_section (keeps_op (by simp) (by simp) (by simp [Op.guard])))⟩

theorem body (job : Job) : lockMonitor.Keeps Free job.body :=
  core.body job (fun _ _ _ => keeps_section (keeps_op (by simp) (by simp) (by simp [Op.guard])))
    (fun _ _ _ _ => keeps_op (by simp) (by simp) (by simp [Op.guard])) fun handle _ =>
    parts.reader handle (keeps_locked _) (fun _ => keeps_locked _)
    fun _ => keeps_locked _

end Locks

/-- No step of the run brings one of the two replies. -/
def InOrder (_ : Service) : Move → Prop
  | .start _ => True
  | .run _ e => outOfOrder e=false

namespace Locks
variable {cfg : RouterConfig}

/-- What an operation does to the owners of the mutexes. -/
theorem exec_locks {i : Nat} {op : Op} {env : Env} {r : op.Res} {s t : Shared}
    (h : exec cfg i op env s=some (r,t)) :
    (∃ x, op=.lock x ∧ s.locks x=none ∧ t=s.setLock x (some i)) ∨
    (∃ x, op=.unlock x ∧ t=s.setLock x none) ∨
    (t.locks=s.locks ∧ (∀ x, op≠.lock x) ∧ ∀ x, op≠.unlock x) := by
  cases op with
  | lock x =>
    simp only [exec] at h
    split at h
    · next hx => cases h; exact .inl ⟨x,rfl,hx,rfl⟩
    · cases h
  | unlock x => cases h; exact .inr (.inl ⟨x,rfl,rfl⟩)
  | acquireSpawn =>
    simp only [exec] at h
    split at h
    · cases h; exact .inr (.inr ⟨rfl,by simp,by simp⟩)
    · cases h
  | receive c =>
    refine .inr (.inr ⟨?_,by simp,by simp⟩)
    simp only [exec] at h
    split at h
    · cases h; rfl
    split at h
    · split at h <;> cases h
      rfl
    · cases h; rfl
  | tick x =>
    simp only [exec] at h
    split at h
    · cases h
    · cases h; exact .inr (.inr ⟨rfl,by simp,by simp⟩)
  | releaseSpawn | channel | inner | warm | probe | prewarm | route | world | spawn | tasks |
    submit | newHandle =>
    cases h
    exact .inr (.inr ⟨rfl,by simp,by simp⟩)

theorem owner_lt {C : Service → Move → Prop} {s₀ : Shared} {p : Service}
    (h0 : ∀ x, s₀.locks x=none) (hr : (service cfg).Reach C s₀ p) (x : Mutex) (i : Nat)
    (h : p.state.locks x=some i) : i < p.tasks.length := by
  induction hr generalizing x i with
  | init => rw [h0 x] at h; cases h
  | @step p q l _ hs _ ih =>
    cases hs with
    | start _ =>
      have hi:=ih x i h
      simp only [List.length_append]
      omega
    | @run j t op k env r s ht _ hx =>
      have hj : j < p.tasks.length := (List.getElem?_eq_some_iff.mp ht).1
      have hl : p.tasks.length ≤ ((service cfg).resumed p j t op k r s).tasks.length := by
        simp [Lib.Machine.resumed]
      change s.locks x=some i at h
      suffices i < p.tasks.length by omega
      rcases exec_locks hx with ⟨y,-,-,rfl⟩ | ⟨y,-,rfl⟩ | ⟨he,-,-⟩
      · simp only [Shared.setLock] at h
        split at h
        · cases h; exact hj
        · exact ih x i h
      · simp only [Shared.setLock] at h
        split at h
        · cases h
        · exact ih x i h
      · rw [he] at h
        exact ih x i h

/-- Along a run in order, the owners of the mutexes are those the monitors follow. -/
theorem owners {p : Service} (hr : (service cfg).Reach InOrder (.new cfg) p) :
    Holds lockMonitor (fun _ => ∅) (fun _ => True)
      (fun s i _ m => ∀ x, s.locks x=some i ↔ x∈m) p := by
  refine Lib.reach_holds (service cfg) lockMonitor (fun _ => ∅) InOrder (fun _ m => m=∅)
    (fun c => body c ∅ rfl) (fun _ _ _ _ h _ => h) trivial ?_ ?_ ?_ ?_ hr
  · intro p c hp _ _ _ x
    have h:=owner_lt (fun _ => rfl) hp x p.tasks.length
    simp only [Finset.notMem_empty,iff_false]
    exact fun he => absurd (h he) (by omega)
  · intro p i t op env r s hp hi hf
    refine ⟨trivial,fun x => ?_⟩
    have hme:=hi.2 i t hf.task
    rcases exec_locks hf.exec with ⟨y,rfl,-,rfl⟩ | ⟨y,rfl,rfl⟩ | ⟨he,hl,hu⟩
    · change (if x=y then _ else _)=_ ↔ x∈insert y _
      split
      · next hxy => simp [hxy]
      · next hxy => rw [hme x]; simp [hxy]
    · change (if x=y then _ else _)=_ ↔ x∈Finset.erase _ y
      split
      · next hxy => simp [hxy]
      · next hxy => rw [hme x]; simp [hxy]
    · have hm : lockMonitor.next (lockMonitor.track (fun _ => ∅) t) ⟨op,r⟩=
          lockMonitor.track (fun _ => ∅) t := by
        cases op <;> first | rfl | exact absurd rfl (hl _) | exact absurd rfl (hu _)
      rw [he,hm]
      exact hme x
  · intro p i t op env r s j u hp hi hf hj hu x
    have hyou:=hi.2 j u hu
    rcases exec_locks hf.exec with ⟨y,-,hfree,rfl⟩ | ⟨y,rfl,rfl⟩ | ⟨he,-,-⟩
    · rw [← hyou x]
      simp only [Shared.setLock]
      split
      · next hxy => subst hxy; simp [hfree,Ne.symm hj]
      · rfl
    · -- the mutex given back was the other task's own
      have hown : p.state.locks y=some i := (hi.2 i t hf.task y).mpr hf.allowed
      rw [← hyou x]
      simp only [Shared.setLock]
      split
      · next hxy => subst hxy; simp [hown,Ne.symm hj]
      · rfl
    · rw [he]; exact hyou x
  · intro p i t op env r s c j hp hi hf _ hlen x
    simp only [Finset.notMem_empty,iff_false]
    intro he
    have hi' : i < p.tasks.length := (List.getElem?_eq_some_iff.mp hf.task).1
    rcases exec_locks hf.exec with ⟨y,-,-,rfl⟩ | ⟨y,-,rfl⟩ | ⟨hl,-,-⟩
    · simp only [Shared.setLock] at he
      split at he
      · cases he; omega
      · exact absurd (owner_lt (fun _ => rfl) hp x j he) (by omega)
    · simp only [Shared.setLock] at he
      split at he
      · cases he
      · exact absurd (owner_lt (fun _ => rfl) hp x j he) (by omega)
    · rw [hl] at he
      exact absurd (owner_lt (fun _ => rfl) hp x j he) (by omega)

end Locks

/-- The mutex that task `i` asks for next. -/
def waitsFor (p : Service) (i : Nat) : Option Mutex :=
  match p.tasks[i]? with
  | some ⟨_,.call (.lock x) _,_⟩ => some x
  | _ => none

/-- Task `i` asks for a mutex that task `j` holds. -/
def WaitsOn (p : Service) : Nat → Nat → Prop :=
  Lib.LockOrder.Blocks (fun i x => waitsFor p i=some x) fun j x => p.state.locks x=some j

/-- As long as `release_warm_lease` finds no lease and `status_snapshot_inner` finds
a probe, nobody waits, directly or through others, for a mutex of its own. -/
theorem no_circular_wait_in_order (cfg : RouterConfig) {p : Service}
    (hr : (service cfg).Reach InOrder (.new cfg) p) (i : Nat) :
    ¬Relation.TransGen (WaitsOn p) i i := by
  refine Lib.LockOrder.no_circular_wait _ _ Mutex.rank ?_ i
  intro i x y hw hown
  unfold waitsFor at hw
  split at hw
  · next c z k log ht =>
    cases hw
    have hwp:=Lib.conforms (service cfg) lockMonitor (fun _ => ∅) InOrder (fun _ m => m=∅)
      (fun c => Locks.body c ∅ rfl) (fun _ _ _ _ h _ => h) hr i _ ht
    rw [Monitor.wp_call] at hwp
    exact hwp.1 y (((Locks.owners hr).2 i _ ht y).mp hown)
  · cases hw

/-- Two requests: the second waits for the `inner` that the first holds. -/
theorem no_circular_wait_two_requests :
    ∃ p, (service sampleConfig).Reach InOrder (.new sampleConfig) p ∧
      WaitsOn p 1 0 ∧ ¬Relation.TransGen (WaitsOn p) 1 1 := by
  obtain ⟨p,hp,ht⟩:=(service sampleConfig).play_any InOrder (fun _ l => match l with
      | .run _ e => !outOfOrder e
      | .start _ => true)
    (fun _ l h => by cases l <;> simp_all [InOrder]) (.new sampleConfig)
    (.start (.toolCall none "decompile" (.obj []))::.start (.toolCall none "decompile" (.obj []))::
      steps 0 [{}])
    (fun p => waitsFor p 1=some .inner ∧ p.state.locks .inner=some 0) (by decide)
  exact ⟨p,hp,⟨.inner,of_decide_eq_true ht⟩,no_circular_wait_in_order sampleConfig hp 1⟩

/-- A status request before any probe: it asks for the `cached_probe` it holds. -/
theorem status_waits_for_itself :
    ∃ p, (service sampleConfig).Reach (fun _ _ => True) (.new sampleConfig) p ∧
      Relation.TransGen (WaitsOn p) 0 0 := by
  obtain ⟨p,hp,ht⟩:=(service sampleConfig).play_free (.new sampleConfig)
    (.start (.status false)::steps 0 [{},{},{},{},{}])
    (fun p => waitsFor p 0=some .cachedProbe ∧ p.state.locks .cachedProbe=some 0) (by decide)
  have ht:=of_decide_eq_true ht
  exact ⟨p,hp,.single ⟨.cachedProbe,ht⟩⟩

end Router
