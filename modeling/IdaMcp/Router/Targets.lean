import IdaMcp.Router.Frame

/-!
# The worker a new reference is for

`ensure_worker_with_ref_idb` picks a handle in one section (an existing worker,
or the one it spawns) and issues the token in a later one. The monitor follows
the handle picked; only for that handle is a token issued.
-/

namespace Router
open Lib (Json Monitor)
open Lib.Monitor (keeps_pure keeps_bind keeps_perform)
variable (h : DbHandle)

def targetMonitor : Monitor Op.Res (Option DbHandle) where
  next m e := match e with
    | ⟨.inner (.ensureLookup _),r⟩ => r
    | ⟨.inner (.spawnLookup _ true),r⟩ => r.map Prod.fst
    | ⟨.inner (.spawnRegister _ _ true),r⟩ => match r with
      | .reused h _ | .fresh h _ => some h
      | .refused _ => none
    | ⟨.inner (.issueRef _),_⟩ => none
    | ⟨.inner (.closeRemove h _),_⟩ => if m=some h then none else m
    | _ => m
  allowed m op := match op with
    | .inner (.issueRef h) => m=some h
    | .inner (.readerEof _) | .inner (.readerError _ _) => m=none
    | _ => True
  good _ _ := True

namespace Targets

/-- The operations that pick a handle, issue a token or remove a worker. -/
def Step : Op → Prop
  | .inner (.ensureLookup _) | .inner (.spawnLookup _ true) | .inner (.spawnRegister _ _ true) |
    .inner (.issueRef _) | .inner (.closeRemove _ _) | .inner (.readerEof _) |
    .inner (.readerError _ _) => True
  | _ => False

theorem keeps_op {op : Op} (h : ¬Step op) (I : Option DbHandle → Prop) :
    targetMonitor.Keeps I (act op) := by
  apply keeps_perform
  intro m hm
  cases op with
  | inner o => cases o with
    | ensureLookup | issueRef | closeRemove | readerEof | readerError => exact absurd trivial h
    | spawnLookup _ b => cases b <;> first | exact absurd trivial h | exact ⟨trivial,fun _ _ => hm⟩
    | spawnRegister _ _ b =>
      cases b <;> first | exact absurd trivial h | exact ⟨trivial,fun _ _ => hm⟩
    | _ => exact ⟨trivial,fun _ _ => hm⟩
  | _ => exact ⟨trivial,fun _ _ => hm⟩

theorem keeps_plain (I : Option DbHandle → Prop) (op : Op) (h : op.followed=false) :
    targetMonitor.Keeps I (act op) :=
  keeps_op (fun hs => by
    cases op with
    | inner o => cases o <;> first | exact False.elim hs | exact Bool.noConfusion h
    | _ => exact False.elim hs) I

theorem keeps_enqueues (I : Option DbHandle → Prop) (op : Op) (h : op.enqueues=true) :
    targetMonitor.Keeps I (act op) :=
  keeps_op (by cases op <;> first | exact id | cases h) I

theorem keeps_locked {o : InnerOp} (h : ¬Step (.inner o)) (I : Option DbHandle → Prop) :
    targetMonitor.Keeps I (locked o) :=
  keeps_withLock (keeps_plain I) (keeps_op h I)

theorem keeps_routeRequest (I : Option DbHandle → Prop) (h : Option DbHandle) (method : String)
    (params : Json) : targetMonitor.Keeps I (routeRequest h method params) :=
  keeps_requestOf (keeps_plain I) (fun o ho => keeps_op (by
    cases o <;> first | exact id | cases ho) I) (fun _ => keeps_op id I) (fun _ => keeps_op id I)
    h method params

abbrev None (m : Option DbHandle) : Prop := m=none

theorem keeps_close (why : Reason) : targetMonitor.Keeps None (closeWorker h why) :=
  keeps_closeWorker (keeps_plain _) (keeps_perform fun m hm => ⟨trivial,fun _ _ => by
    subst hm; rfl⟩)

/-- Closing the handle that was picked gives the pick up. -/
theorem close_picked (why : Reason) :
    targetMonitor.wp (closeWorker h why) (fun _ m => m=none) (some h) := by
  simp [closeWorker,withLock,targetMonitor]

theorem parts : Parts targetMonitor None :=
  parts_of_ops (keeps_plain _) (keeps_enqueueOf (keeps_plain _) (keeps_enqueues _))
    (keeps_routeRequest _) fun _ => keeps_perform fun m hm =>
    ⟨trivial,fun _ _ => by subst hm; rfl⟩

theorem keeps_evictLoop (n : Nat) : targetMonitor.Keeps None (evictLoop n) :=
  Parts.evictLoop (keeps_locked id _) (fun h => keeps_close h _) n

/-- What `spawn_worker` returns to `ensure_worker_with_ref_idb` is the handle picked. -/
def Spawned (r : Except String (DbHandle × Option Token)) (m : Option DbHandle) : Prop :=
  match r with
  | .ok (h,_) => m=some h
  | .error _ => m=none

theorem spawnFresh_picks (key : WorkerKey) :
    targetMonitor.wp (spawnFresh key true) Spawned none := by
  refine targetMonitor.wp_seq (parts.probe none rfl) ?_
  rintro r m rfl
  rcases r with e | probe
  · rfl
  dsimp only
  split
  · rfl
  refine targetMonitor.wp_seq (parts.world _ none rfl) ?_
  rintro n m rfl
  refine targetMonitor.wp_seq (keeps_evictLoop n none rfl) ?_
  rintro _ m rfl
  refine wp_section trivial trivial fun r => ⟨trivial,?_⟩
  cases r <;> rfl

theorem spawnWorker_picks (path : Path) (tenantId : Option String) :
    targetMonitor.wp (spawnWorker path tenantId true) Spawned none := by
  refine targetMonitor.wp_seq (parts.canonicalPath path none rfl) ?_
  rintro canonical m rfl
  refine wp_section trivial trivial fun r => ⟨trivial,?_⟩
  rcases r with _ | ⟨h,t⟩
  · refine targetMonitor.wp_seq (parts.acquire none rfl) ?_
    rintro _ m rfl
    refine targetMonitor.wp_seq (spawnFresh_picks _) fun r m hr => ?_
    exact targetMonitor.wp_seq (keeps_op id (Spawned r) m hr) fun _ _ hm => hm
  · rfl

theorem openFresh_picks (canonical canonicalOpen : Path) (idb : Option Path) :
    targetMonitor.wp (openFresh h canonical canonicalOpen idb) (fun r m => match r with
      | .ok _ => m=some h
      | .error _ => m=none) (some h) := by
  have hend : targetMonitor.wp (world (.isSbpfElf canonical) >>= fun b =>
      if b=true then detectAndRenameSbpfEntry h >>= fun _ => pure (.ok ())
      else pure (.ok ()) : Run (Except ToolError Unit)) (fun r m => match r with
      | .ok _ => m=some h
      | .error _ => m=none) (some h) := by
    refine targetMonitor.wp_seq (keeps_op id (fun m => m=some h) _ rfl) ?_
    rintro b m rfl
    split
    · exact targetMonitor.wp_seq
        (keeps_detectAndRename (keeps_routeRequest fun m => m=some h) h _ rfl)
        fun _ _ hm => hm
    · rfl
  refine targetMonitor.wp_seq (keeps_routeRequest (fun m => m=some h) _ _ _ _ rfl) ?_
  rintro r m rfl
  rcases r with e | v
  · exact targetMonitor.wp_seq (close_picked h _) fun _ _ hm => hm
  · cases idb with
    | none => exact hend
    | some idb =>
      refine targetMonitor.wp_seq (keeps_op id (fun m => m=some h) _ rfl) ?_
      rintro _ m rfl
      exact hend

theorem issueFor_picked : targetMonitor.wp (issueFor h) (fun _ m => m=none) (some h) := by
  simp [issueFor,issueRefForHandle,locked,withLock,targetMonitor]

theorem spawnAndOpen_keeps (path canonical canonicalOpen : Path) (idb : Option Path)
    (tenantId : String) :
    targetMonitor.Keeps None (spawnAndOpen path canonical canonicalOpen idb tenantId) := by
  rintro m rfl
  refine targetMonitor.wp_seq (spawnWorker_picks _ _) fun r m hr => ?_
  rcases r with e | ⟨h,initial⟩
  · exact hr
  have hm : m=some h := hr
  subst hm
  have hend : targetMonitor.wp (openAndIssue h canonical canonicalOpen idb) (fun _ => None)
      (some h) := by
    refine targetMonitor.wp_seq (openFresh_picks h _ _ _) fun r m hm => ?_
    rcases r with e | _
    · exact hm
    · have hm : m=some h := hm
      subst hm
      exact issueFor_picked h
  rcases initial with _ | token
  · exact hend
  · refine targetMonitor.wp_seq (keeps_locked id (fun m => m=some h) _ rfl) ?_
    rintro _ m rfl
    exact hend

theorem ensure_keeps (path : Path) (tenantId : Option String) :
    targetMonitor.Keeps None (ensureWorkerWithRef path tenantId) := by
  refine keeps_bind (parts.world _) fun _ => keeps_bind (parts.canonicalPath _) fun _ =>
    keeps_bind (parts.canonicalPath _) fun _ => ?_
  rintro m rfl
  refine wp_section trivial trivial fun r => ⟨trivial,?_⟩
  rcases r with _ | h
  · exact spawnAndOpen_keeps _ _ _ _ _ none rfl
  · exact issueFor_picked h

theorem refs : Refs targetMonitor None where
  toParts := parts
  spawnClient path tenantId := parts.spawnWorker path tenantId _ keeps_evictLoop
    (fun _ => keeps_locked id _) fun _ _ => keeps_locked id _
  ensure := ensure_keeps
  releaseRef _ := keeps_locked id _
  closeLast path tenantId := parts.closeLast path tenantId (fun _ => keeps_locked id _)
    fun h => keeps_close h _
  closeIdb token := parts.closeIdb token (fun _ => keeps_locked id _) fun h => keeps_close h _
  collect idle := Parts.collectIdle idle (keeps_locked id _) fun h => keeps_close h _

theorem core : Core targetMonitor None :=
  ⟨refs,refs.prewarm fun _ _ _ _ _ => keeps_install (keeps_plain _) parts
    (keeps_lease (keeps_plain _) (fun _ => keeps_locked id _) fun h => keeps_close h _)
    _ _ _ _ _ (keeps_op id _)⟩

theorem body (job : Job) : targetMonitor.Keeps None job.body :=
  core.body job (fun task _ => keeps_finish (keeps_plain _) task)
    (fun _ _ _ _ => keeps_op id _) fun handle _ => parts.reader handle
    (keeps_withLock (keeps_plain _) (keeps_perform fun _ hm => ⟨hm,fun _ _ => hm⟩))
    (fun _ => keeps_locked id _)
    fun _ => keeps_withLock (keeps_plain _) (keeps_perform fun _ hm => ⟨hm,fun _ _ => hm⟩)

end Targets

end Router
