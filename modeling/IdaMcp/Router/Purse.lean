import IdaMcp.Router.Frame

/-!
# The references a task holds

The monitor collects the tokens issued to a task and follows what becomes of each:
given back, handed over to a release task, left with the warm pool, or lost. A
queued route task and `open_idb_routed` lose their token where the request they took
it for fails; the others give it back in every case.
-/

namespace Router
open Lib (Json Monitor)
open Lib.Monitor (keeps_pure keeps_bind keeps_perform)

structure Purse where
  /-- A request that fails now takes the held tokens with it. -/
  strict : Bool
  held : List Token
  handed : List Token
  lent : List Token
  deriving DecidableEq

structure Taking where
  /-- Every token issued to the task. -/
  taken : List Token
  /-- The last answer to the client was an error. -/
  failed : Bool
  purse : Purse
  deriving DecidableEq

/- `route_request` returns an error by this step. -/
def requestFailed : Lib.Event Op.Res → Bool
  | ⟨.inner (.routeTarget _),.error _⟩ | ⟨.inner (.routeRegister _ _ _),.error _⟩ => true
  | ⟨.receive _,.answer (.ok _)⟩ => false
  | ⟨.receive _,_⟩ => true
  | _ => false

/-- The tokens the step issues. -/
def issuedTo : Lib.Event Op.Res → List Token
  | ⟨.inner o,r⟩ => (o.issued r).map Prod.snd
  | _ => []

namespace Purse

def lose (x : Purse) : Purse := if x.strict then {x with held := []} else x

-- the request the token was taken for has gone through
def deliver (x : Purse) : Purse := if x.held=[] then x else {x with strict := false}

def drop (t : Token) (x : Purse) : Purse := {x with held := x.held.filter fun u => u≠t}

def next (x : Purse) (e : Lib.Event Op.Res) : Purse :=
  if requestFailed e then x.lose else match e with
  | ⟨.receive _,_⟩ => x.deliver
  | ⟨.inner (.releaseRefToken t _),_⟩ => x.drop t
  | ⟨.inner _,_⟩ => {x with held := issuedTo e++x.held}
  | ⟨.spawn (.releaseRef t),_⟩ => {x.drop t with handed := t::x.handed}
  | ⟨.warm (.insert _ _ t _ _),_⟩ => {x.drop t with lent := t::x.lent}
  | _ => x

end Purse

def purseMonitor : Monitor Op.Res Taking where
  next m e := {
    taken := issuedTo e++m.taken
    failed := match e with
      | ⟨.world (.respond (.tool r)),_⟩ => !r.isOk
      | _ => m.failed
    purse := m.purse.next e}
  allowed m op := match op with
    | .spawn (.releaseRef t) => t∈m.purse.held
    | _ => True
  good _ _ := True

namespace Purse

def start (job : Job) : Taking := match job with
  | .releaseRef t => ⟨[t],false,⟨false,[t],[],[]⟩⟩
  | .routeTask _ | .openIdb _ => ⟨[],false,⟨true,[],[],[]⟩⟩
  | _ => ⟨[],false,⟨false,[],[],[]⟩⟩

/-- The operations that may change a purse. -/
def Step : Op → Prop
  | .inner o => match o with
    | .routeTarget _ | .routeRegister _ _ _ | .releaseRefToken _ _ | .spawnLookup _ _ |
      .spawnRegister _ _ _ | .issueRef _ => True
    | _ => False
  | .receive _ | .spawn (.releaseRef _) | .warm (.insert _ _ _ _ _) => True
  | _ => False

theorem next_other {op : Op} (h : ¬Step op) (x : Purse) (r : op.Res) : x.next ⟨op,r⟩=x := by
  cases op with
  | inner o => cases o <;> first | rfl | exact absurd trivial h
  | receive => exact absurd trivial h
  | spawn job => cases job <;> first | rfl | exact absurd trivial h
  | warm o => cases o <;> first | rfl | exact absurd trivial h
  | _ => rfl

/-- An assertion on the purse alone. -/
abbrev Holding (J : Purse → Prop) (m : Taking) : Prop := J m.purse

variable {J : Purse → Prop}

theorem keeps_op {op : Op} (h : ¬Step op) (J : Purse → Prop) :
    purseMonitor.Keeps (Holding J) (act op) := by
  refine keeps_perform fun m hm => ⟨?_,fun r _ => ?_⟩
  · cases op with
    | spawn job => cases job <;> first | trivial | exact absurd trivial h
    | _ => trivial
  · change J (m.purse.next ⟨op,r⟩)
    rw [next_other h]
    exact hm

theorem keeps_plain (J : Purse → Prop) (op : Op) (h : op.followed=false) :
    purseMonitor.Keeps (Holding J) (act op) :=
  keeps_op (fun hs => by
    cases op with
    | inner o => cases o <;> first | exact False.elim hs | exact Bool.noConfusion h
    | receive => exact Bool.noConfusion h
    | spawn job => cases job <;> first | exact False.elim hs | exact Bool.noConfusion h
    | warm o => cases o <;> first | exact False.elim hs | exact Bool.noConfusion h
    | _ => exact False.elim hs) J

theorem keeps_enqueues (J : Purse → Prop) (op : Op) (h : op.enqueues=true) :
    purseMonitor.Keeps (Holding J) (act op) :=
  keeps_op (by cases op <;> first | exact id | cases h) J

theorem keeps_locked {o : InnerOp} (h : ¬Step (.inner o)) (J : Purse → Prop) :
    purseMonitor.Keeps (Holding J) (locked o) :=
  keeps_withLock (keeps_plain J) (keeps_op h J)

theorem locked_next (o : InnerOp) (m : Taking) :
    purseMonitor.wp (locked o) (fun r n => n.purse=m.purse.next ⟨.inner o,r⟩) m := by
  simp only [locked,withLock,Monitor.wp_bind,Monitor.wp_perform,Monitor.wp_pure]
  exact ⟨trivial,fun _ _ => ⟨trivial,fun r _ => ⟨trivial,fun _ _ => rfl⟩⟩⟩

theorem routeRequest_next (h : Option DbHandle) (method : String) (params : Json) (m : Taking) :
    purseMonitor.wp (routeRequest h method params) (fun r n => n.purse=match r with
      | .ok _ => m.purse.deliver
      | .error _ => m.purse.lose) m := by
  refine purseMonitor.wp_seq (locked_next _ m) fun r n hn => ?_
  rcases r with e | target
  · exact hn
  have hn : n.purse=m.purse := hn
  refine purseMonitor.wp_seq (keeps_locked id (fun x => x=m.purse) n hn) fun name n hn => ?_
  have hchan : ¬Step (.channel name) := id
  refine purseMonitor.wp_seq (keeps_op hchan (fun x => x=m.purse) n hn) fun chan n hn => ?_
  refine purseMonitor.wp_seq (locked_next _ n) fun r k hk => ?_
  have hn : n.purse=m.purse := hn
  rcases r with e | _
  · exact hk.trans (congrArg lose hn)
  have hk : k.purse=m.purse := hk.trans hn
  simp only [awaitAnswer,Monitor.wp_bind,Monitor.wp_perform]
  refine ⟨trivial,fun r _ => ?_⟩
  rcases r with (e | v) | _ | _
  · exact congrArg lose hk
  · exact congrArg deliver hk
  · exact congrArg lose hk
  · exact congrArg lose hk

/-- A purse that no request changes. -/
def Steady (x : Purse) : Prop := x.held=[] ∨ x.strict=false

theorem Steady.deliver {x : Purse} (h : x.Steady) : x.deliver=x := by
  rcases x with ⟨s,hs,hd,l⟩
  rcases h with h | h <;> simp only at h <;> subst h
  · rfl
  · unfold Purse.deliver
    split <;> rfl

theorem Steady.lose {x : Purse} (h : x.Steady) : x.lose=x := by
  rcases x with ⟨s,hs,hd,l⟩
  rcases h with h | h <;> simp only at h <;> subst h
  · unfold Purse.lose
    split <;> rfl
  · rfl

theorem keeps_routeRequest (hJ : ∀ x, J x → x.Steady) (h : Option DbHandle) (method : String)
    (params : Json) : purseMonitor.Keeps (Holding J) (routeRequest h method params) := by
  intro m hm
  refine purseMonitor.wp_mono (routeRequest_next h method params m) fun r n hn => ?_
  have hs:=hJ _ hm
  have he : n.purse=m.purse := by
    rcases r with e | v
    · exact hn.trans hs.lose
    · exact hn.trans hs.deliver
  change J n.purse
  rw [he]
  exact hm

theorem keeps_close (h : DbHandle) (why : Reason) (J : Purse → Prop) :
    purseMonitor.Keeps (Holding J) (closeWorker h why) :=
  keeps_closeWorker (keeps_plain J) (keeps_op id J)

theorem parts (hJ : ∀ x, J x → x.Steady) : Parts purseMonitor (Holding J) :=
  parts_of_ops (keeps_plain J) (keeps_enqueueOf (keeps_plain J) (keeps_enqueues J))
    (keeps_routeRequest hJ) fun _ => keeps_op id J

section Take
variable {x : Purse}

theorem parts_empty (hx : x.held=[]) : Parts purseMonitor (Holding fun y => y=x) :=
  parts fun y hy => .inl (by rw [hy]; exact hx)

def holds (t : Token) (x : Purse) : Purse := {x with held := [t]}

theorem next_issued (hx : x.held=[]) {o : InnerOp} {r : o.Res} {h : DbHandle} {t : Token}
    (hi : o.issued r=[(h,t)]) : x.next ⟨.inner o,r⟩=x.holds t := by
  cases o with
  | spawnLookup | spawnRegister | issueRef =>
    change ({x with held := (InnerOp.issued _ r).map Prod.snd++x.held} : Purse)=x.holds t
    rw [hi,hx]
    rfl
  | _ => cases hi

theorem drop_holds (hx : x.held=[]) (t : Token) : (x.holds t).drop t=x := by
  rcases x with ⟨s,hs,hd,l⟩
  simp only at hx
  subst hx
  simp [drop,holds]

/-- What `spawn_worker` returns is what the task holds. -/
def Spawned (x : Purse) (r : Except String (DbHandle × Option Token)) (m : Taking) : Prop :=
  match r with
  | .ok (_,some t) => m.purse=x.holds t
  | .ok (_,none) | .error _ => m.purse=x

theorem spawnFresh_takes (hx : x.held=[]) (key : WorkerKey) (b : Bool) (m : Taking)
    (hm : m.purse=x) : purseMonitor.wp (spawnFresh key b) (Spawned x) m := by
  have hp:=parts_empty hx
  refine purseMonitor.wp_seq (hp.probe m hm) fun r m hm => ?_
  rcases r with e | probe
  · exact hm
  dsimp only
  split
  · exact hm
  refine purseMonitor.wp_seq (hp.world _ m hm) fun n m hm => ?_
  refine purseMonitor.wp_seq (Parts.evictLoop (keeps_locked id _) (fun h => keeps_close h _ _) n
    m hm) fun _ m hm => ?_
  refine purseMonitor.wp_seq (locked_next _ m) fun r n hn => ?_
  have hm : m.purse=x := hm
  rw [hm] at hn
  cases r with
  | refused e => exact hn
  | reused h t | fresh h t => exact hn.trans (next_issued hx rfl)

theorem spawnWorker_takes (hx : x.held=[]) (path : Path) (tenantId : Option String) (b : Bool)
    (m : Taking) (hm : m.purse=x) :
    purseMonitor.wp (spawnWorker path tenantId b) (Spawned x) m := by
  have hp:=parts_empty hx
  refine purseMonitor.wp_seq (hp.canonicalPath path m hm) fun canonical m hm => ?_
  refine purseMonitor.wp_seq (locked_next _ m) fun r n hn => ?_
  have hm : m.purse=x := hm
  rw [hm] at hn
  rcases r with _ | ⟨h,t⟩
  · refine purseMonitor.wp_seq (hp.acquire n hn) fun _ m hm => ?_
    refine purseMonitor.wp_seq (spawnFresh_takes hx _ b m hm) fun r m hm => ?_
    have hrel : ¬Step .releaseSpawn := id
    have hk : purseMonitor.Keeps (fun m => Spawned x r m) (act .releaseSpawn) := by
      rcases r with e | ⟨h,_ | t⟩
      · exact keeps_op hrel fun y => y=x
      · exact keeps_op hrel fun y => y=x
      · exact keeps_op hrel fun y => y=x.holds t
    exact purseMonitor.wp_seq (hk m hm) fun _ m hm => hm
  · exact hn.trans (next_issued hx rfl)

/-- What `ensure_worker_with_ref` returns is what the task holds. -/
def Ensured (x : Purse) (r : Except ToolError (DbHandle × Token)) (m : Taking) : Prop :=
  match r with
  | .ok (_,t) => m.purse=x.holds t
  | .error _ => m.purse=x

theorem issueFor_takes (hx : x.held=[]) (h : DbHandle) (m : Taking) (hm : m.purse=x) :
    purseMonitor.wp (issueFor h) (Ensured x) m := by
  refine purseMonitor.wp_seq (locked_next _ m) fun t n hn => ?_
  rw [hm] at hn
  exact hn.trans (next_issued hx rfl)

theorem release_drops (t : Token) (b : Bool) (m : Taking) :
    purseMonitor.wp (releaseRefToken t b) (fun _ n => n.purse=m.purse.drop t) m :=
  locked_next _ m

theorem spawnAndOpen_takes (hx : x.held=[]) (path canonical canonicalOpen : Path)
    (idb : Option Path) (tenantId : String) (m : Taking) (hm : m.purse=x) :
    purseMonitor.wp (spawnAndOpen path canonical canonicalOpen idb tenantId) (Ensured x) m := by
  refine purseMonitor.wp_seq (spawnWorker_takes hx _ _ _ m hm) fun r m hm => ?_
  rcases r with e | ⟨h,initial⟩
  · exact hm
  have hend (m : Taking) (hm : m.purse=x) :
      purseMonitor.wp (openAndIssue h canonical canonicalOpen idb) (Ensured x) m := by
    refine purseMonitor.wp_seq ((parts_empty hx).openFresh h _ _ _ m hm) fun r m hm => ?_
    rcases r with e | _
    · exact hm
    · exact issueFor_takes hx h m hm
  rcases initial with _ | t
  · exact hend m hm
  · refine purseMonitor.wp_seq (release_drops t false m) fun _ n hn => hend n ?_
    rw [hn,show m.purse=x.holds t from hm,drop_holds hx]

theorem ensureWorker_takes (hx : x.held=[]) (path : Path) (tenantId : Option String) (m : Taking)
    (hm : m.purse=x) : purseMonitor.wp (ensureWorkerWithRef path tenantId) (Ensured x) m := by
  have hp:=parts_empty hx
  refine purseMonitor.wp_seq (hp.world _ m hm) fun _ m hm => ?_
  refine purseMonitor.wp_seq (hp.canonicalPath _ m hm) fun _ m hm => ?_
  refine purseMonitor.wp_seq (hp.canonicalPath _ m hm) fun _ m hm => ?_
  refine purseMonitor.wp_seq (keeps_locked id _ m hm) fun r m hm => ?_
  rcases r with _ | h
  · exact spawnAndOpen_takes hx _ _ _ _ _ m hm
  · exact issueFor_takes hx h m hm

end Take

theorem keeps_any (op : Op) (h : ∀ m, purseMonitor.allowed m op) :
    purseMonitor.Keeps (fun _ => True) (act op) :=
  keeps_perform fun m _ => ⟨h m,fun _ _ => trivial⟩

theorem plain_any (op : Op) (h : op.followed=false) :
    purseMonitor.Keeps (fun _ => True) (act op) := keeps_plain (fun _ => True) op h

theorem core_any : Core purseMonitor (fun _ => True) :=
  core_of_ops plain_any (keeps_enqueueOf plain_any fun op h => keeps_any op (by
      cases op <;> first | exact fun _ => trivial | cases h))
        (keeps_requestOf plain_any (fun _ _ => keeps_any _ fun _ => trivial)
    (fun _ => keeps_any _ fun _ => trivial) fun _ => keeps_any _ fun _ => trivial)
    (fun _ _ _ => keeps_any _ fun _ => trivial) fun _ _ _ _ _ => keeps_any _ fun _ => trivial

/-- Nothing held, handed over or left anywhere. -/
def Empty (x : Purse) : Prop := x.held=[] ∧ x.handed=[] ∧ x.lent=[]

theorem Empty.steady (x : Purse) (h : x.Empty) : x.Steady := .inl h.1

theorem runQueued_returns (task : QueuedRouteTask) (m : Taking)
    (hm : m.purse=⟨true,[],[],[]⟩) :
    purseMonitor.wp (runQueued task) (fun _ n => n.purse.Empty) m := by
  refine purseMonitor.wp_seq (ensureWorker_takes rfl _ _ m hm) fun r m hm => ?_
  rcases r with e | ⟨h,t⟩
  · change m.purse=_ at hm
    change m.purse.Empty
    rw [hm]
    exact ⟨rfl,rfl,rfl⟩
  have hm : m.purse=⟨true,[t],[],[]⟩ := hm
  refine purseMonitor.wp_seq (routeRequest_next _ _ _ m) fun r n hn => ?_
  rw [hm] at hn
  rcases r with e | v
  · change n.purse.Empty
    rw [hn]
    exact ⟨rfl,rfl,rfl⟩
  · refine purseMonitor.wp_seq (release_drops t false n) fun _ k hk => ?_
    change k.purse.Empty
    rw [hk,hn]
    exact ⟨by simp [drop,deliver],rfl,rfl⟩

theorem routeTask_returns (task : QueuedRouteTask) (m : Taking) (hm : m.purse=⟨true,[],[],[]⟩) :
    purseMonitor.wp (routeTask task) (fun _ n => n.purse.Empty) m := by
  have hp:=parts Empty.steady
  refine purseMonitor.wp_seq (runQueued_returns task m hm) fun r m hm => ?_
  refine purseMonitor.wp_seq (hp.route _ rfl m hm) fun _ m hm => ?_
  cases r with
  | error e => exact hp.tasks _ rfl m hm
  | ok v => exact hp.tasks _ rfl m hm

theorem openIdb_returns (req : OpenIdbRequest) (m : Taking) (hm : m.purse=⟨true,[],[],[]⟩) :
    purseMonitor.wp (openIdbRouted req) (fun _ n => n.failed=true → n.purse.Empty) m := by
  have hp:=parts_empty (x := ⟨true,[],[],[]⟩) rfl
  refine purseMonitor.wp_seq (hp.world _ m hm) fun _ m hm => ?_
  refine purseMonitor.wp_seq (hp.world _ m hm) fun b m hm => ?_
  refine purseMonitor.wp_seq (spawnWorker_takes rfl _ _ _ m hm) fun r m hm => ?_
  have herror (e : ToolError) (n : Taking) (hn : n.purse.Empty) :
      purseMonitor.wp (respond (.error e)) (fun _ n => n.failed=true → n.purse.Empty) n :=
    ⟨trivial,fun _ _ _ => hn⟩
  have hlost (n : Taking) (hn : n.purse=⟨true,[],[],[]⟩) : n.purse.Empty := by
    rw [hn]
    exact ⟨rfl,rfl,rfl⟩
  rcases r with e | ⟨h,initial⟩
  · exact herror _ m (hlost m hm)
  refine purseMonitor.wp_seq (routeRequest_next _ _ _ m) fun r n hn => ?_
  rcases r with e | v
  · refine herror e n (hlost n ?_)
    rcases initial with _ | t
    · rw [hn,show m.purse=_ from hm]; rfl
    · rw [hn,show m.purse=_ from hm]; rfl
  · -- the client learns the token
    refine purseMonitor.wp_seq (core_any.openedReply _ _ _ _ n trivial) fun v n _ => ?_
    exact ⟨trivial,fun _ _ hf => Bool.noConfusion (show false=true from hf)⟩

theorem prewarmPath_returns {x : Purse} (hx : x.held=[]) (hs : x.strict=false) (path : Path)
    (tenantId : String) :
    purseMonitor.Keeps (Holding fun y => y=x) (prewarmPathWithOptions path false tenantId) := by
  have hp:=parts_empty hx
  refine keeps_bind (hp.world _) fun _ => keeps_bind (hp.world _) fun b => ?_
  split
  · exact keeps_pure _
  refine keeps_bind (hp.world _) fun _ => keeps_bind (hp.look _ rfl) fun already =>
    keeps_bind (hp.world _) fun _ m hm => ?_
  refine purseMonitor.wp_seq (ensureWorker_takes hx _ _ m hm) fun r m hm => ?_
  rcases r with e | ⟨h,t⟩
  · exact hm
  have hq : Parts purseMonitor (Holding fun y => y=x.holds t) :=
    parts fun y hy => .inr (by rw [hy]; exact hs)
  refine purseMonitor.wp_seq (hq.look _ rfl m hm) fun _ m hm => ?_
  refine purseMonitor.wp_seq (hq.request _ _ _ m hm) fun _ m hm => ?_
  refine purseMonitor.wp_seq (hq.world _ m hm) fun cache m hm => ?_
  refine purseMonitor.wp_seq (Q := fun _ n => n.purse=x) ?_ fun r m hm => ?_
  · have hrel : purseMonitor.wp (releaseRefToken t false) (fun _ n => n.purse=x) m := by
      refine purseMonitor.wp_mono (release_drops t false m) fun _ n hn => ?_
      rw [hn,show m.purse=x.holds t from hm,drop_holds hx]
    cases already with
    | true => exact purseMonitor.wp_seq hrel fun _ n hn => hn
    | false =>
      refine purseMonitor.wp_seq hrel fun r n hn => ?_
      rcases r with _ | ⟨_,_ | _⟩
      · exact hn
      · refine purseMonitor.wp_seq (hp.closeLast _ _ (fun _ => keeps_locked id _)
          (fun h => keeps_close h _ _) n hn) fun r n hn => ?_
        cases r <;> exact hn
      · exact hn
  · cases r <;> exact hm

/-- A CLI request holds nothing when it is answered, and leaves nothing in the warm pool. -/
def Answered (x : Purse) : Prop := x.strict=false ∧ x.held=[] ∧ x.lent=[]

theorem cliRequest_returns (path tenantId : Option String) (method : String) (params : Json) :
    purseMonitor.Keeps (Holding Answered) (cliRequest path tenantId method params) := by
  have hp : Parts purseMonitor (Holding Answered) := parts fun _ h => .inl h.2.1
  cases path with
  | none => exact hp.answerCli _
  | some path =>
    intro m hm
    obtain ⟨hs,hx,hl⟩ : Answered m.purse := hm
    refine purseMonitor.wp_seq (ensureWorker_takes hx _ _ m rfl) fun r n hn => ?_
    rcases r with e | ⟨h,t⟩
    · exact hp.answerCli _ n (by rw [Holding,show n.purse=m.purse from hn]; exact ⟨hs,hx,hl⟩)
    have hq : Parts purseMonitor (Holding fun y => y=m.purse.holds t) :=
      parts fun y hy => .inr (by rw [hy]; exact hs)
    refine purseMonitor.wp_seq (hq.request _ _ _ n hn) fun v k hk => ?_
    have hk : k.purse=m.purse.holds t := hk
    refine purseMonitor.wp_seq (Q := fun _ n => Answered n.purse) ?_ fun _ n hn =>
      hp.answerCli _ n hn
    have hheld : t∈k.purse.held := by rw [hk]; exact List.mem_singleton_self _
    refine ⟨hheld,fun _ _ => ?_⟩
    change Answered {k.purse.drop t with handed := t::k.purse.handed}
    rw [hk]
    exact ⟨hs,by simp [drop,holds],hl⟩

theorem cli_returns (method : String) (params : Json)
    (hw : ¬(method="prewarm" ∧ boolParam params "keep_warm"=true)) :
    purseMonitor.Keeps (Holding Answered) (dispatchCliRequest method params) := by
  refine (parts fun _ h => .inl h.2.1).cli method params (fun hm path tenant => ?_)
    fun _ path tenantId name => cliRequest_returns path tenantId name params
  have hk : boolParam params "keep_warm"=false := Bool.eq_false_iff.mpr fun h => hw ⟨hm,h⟩
  rw [hk]
  intro m h
  refine purseMonitor.wp_mono (prewarmPath_returns h.2.1 h.1 path tenant m rfl) fun _ n hn => ?_
  rw [Holding,show n.purse=m.purse from hn]
  exact h

/-- What a task holds when it has finished. -/
def Done (job : Job) (m : Taking) : Prop := match job with
  | .routeTask _ | .releaseRef _ => m.purse.Empty
  | .prewarmTask task => task.keepWarm=false → m.purse.Empty
  | .cli method params => ¬(method="prewarm" ∧ boolParam params "keep_warm"=true) →
      m.purse.Answered
  | .openIdb _ => m.failed=true → m.purse.Empty
  | _ => True

theorem body_any (job : Job) (hj : ∀ method params, job≠.cli method params) (m : Taking) :
    purseMonitor.wp job.body (fun _ _ => True) m := by
  have hlocked (o : InnerOp) : purseMonitor.Keeps (fun _ => True) (locked o) :=
    keeps_withLock plain_any (keeps_any _ fun _ => trivial)
  exact core_any.body job (fun task _ => keeps_finish plain_any task)
    (fun method params h => absurd h (hj method params))
    (fun h _ => core_any.reader h (hlocked _) (fun _ => hlocked _) fun _ => hlocked _) m trivial

theorem body (job : Job) : purseMonitor.wp job.body (fun _ m => Done job m) (start job) := by
  cases job with
  | routeTask task => exact routeTask_returns task _ rfl
  | openIdb req => exact openIdb_returns req _ rfl
  | releaseRef t =>
    refine purseMonitor.wp_seq (release_drops t false _) fun _ n hn => ?_
    change n.purse.Empty
    rw [hn]
    exact ⟨by simp [start,drop],rfl,rfl⟩
  | prewarmTask task =>
    cases hk : task.keepWarm with
    | true =>
      refine purseMonitor.wp_mono (body_any (.prewarmTask task) ?_ _) fun _ m _ hf => ?_
      · intro _ _ h; cases h
      · rw [hk] at hf; cases hf
    | false =>
      refine purseMonitor.wp_seq (Q := fun _ n => n.purse=⟨false,[],[],[]⟩) ?_ fun r n hn => ?_
      · rw [hk]
        exact prewarmPath_returns rfl rfl _ _ _ rfl
      · refine purseMonitor.wp_mono
          (keeps_finish (keeps_plain fun x => x=⟨false,[],[],[]⟩) task _ n hn) fun _ k hk _ => ?_
        rw [show k.purse=_ from hk]
        exact ⟨rfl,rfl,rfl⟩
  | cli method params =>
    by_cases hw : method="prewarm" ∧ boolParam params "keep_warm"=true
    · refine purseMonitor.wp_mono
        (core_any.cli method params (fun _ _ _ => core_any.prewarmPath _ _ _)
        (fun hm => absurd hw.1 hm) _ trivial) fun _ _ _ hn => absurd hw hn
    · exact purseMonitor.wp_mono (cli_returns method params hw _ ⟨rfl,rfl,rfl⟩) fun _ _ h _ => h
  | closeIdb | toolCall | status | shutdown | watchdog | reader | enqueuez | pollRemote =>
    exact body_any _ (fun _ _ h => (by cases h)) _

end Purse

end Router
