import IdaMcp.Lib.Call
import IdaMcp.Router.Changes

/-!
# A call of `spawn_worker` that fails

The eviction loop, the two limits, the late reuse and the start of the process
come in this order, over several sections. What a call has done to others when
it fails, and whether it fails although its path has a worker, is decided in
the last of them.
-/

namespace Router
open Lib (Map Monitor Prog)
open Lib.Monitor (keeps_pure keeps_halt keeps_bind keeps_perform)

/-- Operations that may take a worker out of the registry. -/
def Op.closing : Op → Bool
  | .inner o => !o.removes.isEmpty
  | _ => false

/-- How the last section of `spawn_worker` ended, if the event is one. -/
def lastSection : Lib.Event Op.Res → List RouterInner.Spawned
  | ⟨.inner (.spawnRegister _ _ _),r⟩ => [r]
  | _ => []

structure Spawning where
  closes : Bool
  finals : List RouterInner.Spawned

def spawnMonitor : Monitor Op.Res Spawning where
  next m e := ⟨m.closes || e.op.closing,lastSection e++m.finals⟩
  allowed _ _ := True
  good _ _ := True

/-- What `spawn_worker` makes of its last section. -/
def RouterInner.Spawned.outcome : RouterInner.Spawned → Except String (DbHandle × Option Token)
  | .refused e => .error e
  | .reused h t | .fresh h t => .ok (h,some t)

namespace Spawning
variable {I : Spawning → Prop}

theorem next_plain {op : Op} (h : op.closing=false)
    (hn : ∀ key b e,op≠.inner (.spawnRegister key b e)) (m : Spawning) (r : op.Res) :
    spawnMonitor.next m ⟨op,r⟩=m := by
  have hl : lastSection ⟨op,r⟩=[] := by
    cases op with
    | inner o => cases o <;> first | rfl | exact absurd rfl (hn _ _ _)
    | _ => rfl
  change Spawning.mk (m.closes || op.closing) (lastSection ⟨op,r⟩++m.finals)=m
  rw [h,hl,Bool.or_false]
  rfl

theorem keeps_plain {op : Op} (h : op.closing=false)
    (hn : ∀ key b e,op≠.inner (.spawnRegister key b e)) : spawnMonitor.Keeps I (act op) :=
  keeps_perform fun m hm => ⟨trivial,fun r _ => (next_plain h hn m r).symm ▸ hm⟩

theorem keeps_withLock {α : Type} (x : Mutex) {body : Run α} (hb : spawnMonitor.Keeps I body) :
    spawnMonitor.Keeps I (withLock x body) :=
  keeps_bind (keeps_plain rfl nofun) fun _ => keeps_bind hb fun _ =>
    keeps_bind (keeps_plain rfl nofun) fun _ => keeps_pure _

theorem keeps_world (o : WorldOp) : spawnMonitor.Keeps I (world o) := keeps_plain rfl nofun

theorem keeps_probe : spawnMonitor.Keeps I probeWorkerBackend := by
  refine keeps_bind (keeps_withLock _ (keeps_plain rfl nofun)) fun r => ?_
  cases r with
  | some cached => exact keeps_pure _
  | none =>
    refine keeps_bind (keeps_world _) fun r => ?_
    cases r with
    | error e => exact keeps_pure _
    | ok probe => exact keeps_bind (keeps_withLock _ (keeps_plain rfl nofun)) fun _ => keeps_pure _

theorem keeps_evictLoop (n : Nat) : spawnMonitor.Keeps (fun m => m.finals=[]) (evictLoop n) := by
  induction n with
  | zero => exact keeps_halt
  | succ n ih =>
    refine keeps_bind (keeps_withLock _ (keeps_plain rfl nofun)) fun r => ?_
    cases r with
    | none => exact keeps_pure _
    | some h =>
      refine keeps_bind (keeps_withLock _ (keeps_bind (keeps_withLock _ (keeps_plain rfl nofun))
        fun _ => ?_)) fun _ => ih
      exact keeps_perform fun m hm => ⟨trivial,fun _ _ => hm⟩

/-- A call that ends before its last section has closed nothing. -/
def Ended (res : Except String (DbHandle × Option Token)) (m : Spawning) : Prop :=
  (m.finals=[] ∧ m.closes=false) ∨ ∃ r,m.finals=[r] ∧ res=r.outcome

theorem spawnFresh_ends (key : WorkerKey) (ensure : Bool) :
    spawnMonitor.wp (spawnFresh key ensure) Ended ⟨false,[]⟩ := by
  refine spawnMonitor.wp_seq (keeps_probe (I := fun m => m=⟨false,[]⟩) _ rfl) fun r m hm => ?_
  subst hm
  cases r with
  | error e => exact .inl ⟨rfl,rfl⟩
  | ok probe =>
    simp only
    cases probe.backend with
    | none => exact .inl ⟨rfl,rfl⟩
    | some backend =>
      rw [Monitor.wp_bind]
      refine ⟨trivial,fun n _ => ?_⟩
      refine spawnMonitor.wp_seq (keeps_evictLoop n _ rfl) fun _ m hm => ?_
      refine wp_section trivial trivial fun r => ⟨trivial,?_⟩
      have hone : lastSection ⟨.inner (.spawnRegister key backend ensure),r⟩++m.finals=[r] := by
        rw [hm]; rfl
      cases r <;> exact .inr ⟨_,hone,rfl⟩

theorem spawnWorker_ends (path : Path) (tenantId : Option String) (ensure : Bool) :
    spawnMonitor.wp (spawnWorker path tenantId ensure) Ended ⟨false,[]⟩ := by
  have hpath : spawnMonitor.Keeps (fun m => m=⟨false,[]⟩) (canonicalPath path) :=
    keeps_bind (keeps_world _) fun _ => keeps_bind (keeps_world _) fun _ => keeps_pure _
  refine spawnMonitor.wp_seq (hpath _ rfl) fun canonical m hm => ?_
  refine spawnMonitor.wp_seq ((keeps_withLock _ (keeps_plain rfl nofun) :
    spawnMonitor.Keeps (fun m => m=⟨false,[]⟩) (locked (.spawnLookup _ _))) _ hm) fun r m hm => ?_
  subst hm
  cases r with
  | some ht => exact .inl ⟨rfl,rfl⟩
  | none =>
    rw [Monitor.wp_bind]
    refine ⟨trivial,fun _ _ => ?_⟩
    refine spawnMonitor.wp_seq (spawnFresh_ends _ ensure) fun res m hm => ?_
    rw [Monitor.wp_bind]
    refine ⟨trivial,fun r _ => ?_⟩
    exact (@next_plain .releaseSpawn rfl nofun m r).symm ▸ hm

theorem folded (ms : List (Lib.Moment Op.Res Shared Env)) (m : Spawning) :
    let m':=ms.foldl (fun m x => spawnMonitor.next m x.event) m
    (m'.closes=true ↔ m.closes=true ∨ ∃ x∈ms,x.event.op.closing=true) ∧
      ∀ r,r∈m'.finals ↔ r∈m.finals ∨ ∃ x∈ms,r∈lastSection x.event := by
  induction ms generalizing m with
  | nil => simp
  | cons x ms ih =>
    obtain ⟨hc,hf⟩:=ih (spawnMonitor.next m x.event)
    refine ⟨hc.trans ?_,fun r => (hf r).trans ?_⟩
    · simp only [spawnMonitor,Bool.or_eq_true,List.mem_cons,exists_eq_or_imp,or_assoc]
    · simp only [spawnMonitor,List.mem_append,List.mem_cons,exists_eq_or_imp]
      tauto

end Spawning

namespace RouterInner
variable (cfg : RouterConfig) (key : WorkerKey) (s : RouterInner)

/-- Both limits leave room for one more worker. -/
def Room : Prop := s.tenantWorkers key.tenantId < cfg.maxWorkersPerTenant ∧
    s.workers.size < cfg.maxWorkers

theorem spawnRegister_refused_iff (backend : WorkerBackendKind) (now tokenNow pid : Nat)
    (instant : Instant) (spawnError : Option String) :
    (∃ e,(s.spawnRegister cfg key backend now tokenNow pid instant spawnError).1=.refused e) ↔
      ¬(s.Room cfg key ∧ (s.pathToHandle.get key=none → spawnError=none)) := by
  unfold spawnRegister Room
  split
  · next ht => exact iff_of_true ⟨_,rfl⟩ fun h => Nat.not_lt.mpr ht h.1.1
  next ht =>
  split
  · next hw => exact iff_of_true ⟨_,rfl⟩ fun h => Nat.not_lt.mpr hw h.1.2
  next hw =>
  have hroom:=And.intro (Nat.lt_of_not_le ht) (Nat.lt_of_not_le hw)
  split
  · next h hk =>
    rw [hk]
    exact iff_of_false (by rintro ⟨_,⟨⟩⟩) (not_not.mpr ⟨hroom,by rintro ⟨⟩⟩)
  next hk =>
  cases spawnError with
  | some e => exact iff_of_true ⟨e,rfl⟩ fun h => by cases h.2 hk
  | none => exact iff_of_false (by rintro ⟨_,⟨⟩⟩) (not_not.mpr ⟨hroom,fun _ => rfl⟩)

theorem spawnRegister_registered {s : RouterInner} {cfg : RouterConfig} {key : WorkerKey}
    {h : DbHandle} (hk : s.pathToHandle.get key=some h) (hroom : s.Room cfg key)
    (backend : WorkerBackendKind) (now tokenNow pid : Nat) (instant : Instant)
    (spawnError : Option String) :
    s.spawnRegister cfg key backend now tokenNow pid instant spawnError=
      (.reused h (refToken now pid s.reqCounter),
        s.tick.bindToken h (refToken now pid s.reqCounter)) := by
  unfold spawnRegister
  rw [if_neg (Nat.not_le.mpr hroom.1),if_neg (Nat.not_le.mpr hroom.2),hk]

end RouterInner

abbrev Section := Lib.Moment Op.Res Shared Env

variable {x : Section}

namespace Section

/-- The section takes the worker out of the registry. -/
def Takes (x : Section) (h : DbHandle) : Prop :=
  (∃ w,x.before.inner.workers.get h=some w) ∧ x.after.inner.workers.get h=none

/-- It is the last section of a spawn for the key. -/
def Final (x : Section) (key : WorkerKey) : Prop :=
  ∃ backend ensure r,x.event=⟨.inner (.spawnRegister key backend ensure),r⟩

theorem Takes.closing {cfg : RouterConfig} {i : Nat} {h : DbHandle} (ht : x.Takes h)
    (hx : exec cfg i x.event.op x.env x.before=some (x.event.res,x.after)) :
    x.event.op.closing=true := by
  obtain ⟨⟨w,hw⟩,hn⟩:=ht
  obtain ⟨before,env,⟨op,r⟩,after⟩:=x
  by_cases ho : ∃ o,op=.inner o
  · obtain ⟨o,rfl⟩:=ho
    obtain ⟨sends,inner,hc,he⟩:=exec_inner cfg hx
    obtain rfl : after=before.commit i (o.trace r sends) inner := he
    rcases hc.worker_stays hw with ⟨v,hv⟩ | hm
    · change inner.workers.get h=none at hn
      rw [hn] at hv
      cases hv
    · change (!o.removes.isEmpty)=true
      cases hr : o.removes with
      | nil => exact absurd (hr ▸ hm : h∈([] : List DbHandle)) List.not_mem_nil
      | cons => rfl
  · have hs:=(exec_outer cfg hx fun o he => ho ⟨o,he⟩).inner
    rw [hs,hw] at hn
    cases hn

end Section

/-- A call that fails has taken no worker from anyone, and one whose path has a worker at
its last section gets that worker under a new token. -/
def HarmlessSpawn (ms : List Section) (res : Except String (DbHandle × Option Token)) : Prop :=
  ((∃ e,res=.error e) → ∀ x∈ms,∀ h,¬x.Takes h) ∧
  ∀ x∈ms,∀ key h,x.Final key → x.before.inner.pathToHandle.get key=some h →
    ∃ t,res=.ok (h,some t) ∧ x.before.inner.tokenToHandle.get t=none ∧
      x.after.inner.tokenToHandle.get t=some h

/-- At the last section there is room, if the call has evicted a worker or its path has
one; in the first case the process starts if it has to, in the second the token is new. -/
def SpawnFits (cfg : RouterConfig) (ms : List Section) : Prop :=
  ∀ x∈ms,∀ key,x.Final key →
    ((∃ y∈ms,∃ h,y.Takes h) → x.before.inner.Room cfg key ∧
      (x.before.inner.pathToHandle.get key=none → x.env.spawnError=none)) ∧
    ((x.before.inner.pathToHandle.get key).isSome → x.before.inner.Room cfg key ∧
      x.before.inner.tokenToHandle.get
        (refToken x.env.now x.env.pid x.before.inner.reqCounter)=none)

section
variable {cfg : RouterConfig} {C : Service → Move → Prop} {i : Nat}
  {k : Except String (DbHandle × Option Token) → Run Unit} {path : Path} {tenantId : Option String}
  {ensure : Bool} {p q : Service} {ms : List Section}
    {res : Except String (DbHandle × Option Token)}

theorem outcome_error_iff (r : RouterInner.Spawned) :
    (∃ e,r.outcome=.error e) ↔ ∃ e,r=.refused e := by
  cases r with
  | refused e => exact iff_of_true ⟨e,rfl⟩ ⟨e,rfl⟩
  | reused | fresh => exact iff_of_false nofun nofun

theorem spawn_last (hx : (service cfg).Executes C i k (spawnWorker path tenantId ensure) p ms res q)
    (hm : x∈ms) {key : WorkerKey} (hf : x.Final key) : ∃ backend,
    let y:=x.before.inner.spawnRegister cfg key backend x.env.now x.env.tokenNow x.env.pid
      x.env.instant x.env.spawnError
    res=y.1.outcome ∧ x.after.inner=y.2 := by
  obtain ⟨backend,b,r,he⟩:=hf
  have hexec : exec cfg i x.event.op x.env x.before=some (x.event.res,x.after) := hx.exec x hm
  have hend:=hx.result spawnMonitor (fun _ _ => trivial)
    (Spawning.spawnWorker_ends path tenantId ensure)
  have hr:=((Spawning.folded ms ⟨false,[]⟩).2 r).mpr
    (.inr ⟨x,hm,by rw [he]; exact List.mem_singleton_self r⟩)
  rw [he] at hexec
  have hs:=Option.some.inj hexec
  refine ⟨backend,?_,?_⟩
  · rcases hend with ⟨hn,-⟩ | ⟨r',hr',hres⟩
    · rw [hn] at hr
      cases hr
    · rw [hr'] at hr
      obtain rfl:=List.mem_singleton.mp hr
      rw [hres]
      exact congrArg RouterInner.Spawned.outcome (congrArg Prod.fst hs).symm
  · exact (congrArg (fun y : RouterInner.Spawned × Shared => y.2.inner) hs).symm

theorem spawn_took (hx : (service cfg).Executes C i k (spawnWorker path tenantId ensure) p ms res q)
    (ht : ∃ x∈ms,∃ h,x.Takes h) : ∃ x∈ms,∃ key,x.Final key := by
  obtain ⟨y,hy,h,ht⟩:=ht
  have hend:=hx.result spawnMonitor (fun _ _ => trivial)
    (Spawning.spawnWorker_ends path tenantId ensure)
  obtain ⟨hc,hf⟩:=Spawning.folded ms ⟨false,[]⟩
  have hcl:=hc.mpr (.inr ⟨y,hy,ht.closing (hx.exec y hy)⟩)
  rcases hend with ⟨-,hn⟩ | ⟨r,hr,-⟩
  · rw [hn] at hcl
    cases hcl
  · rcases (hf r).mp (hr ▸ List.mem_singleton_self r) with h | ⟨x,hm,hl⟩
    · cases h
    · obtain ⟨before,env,⟨op,res⟩,after⟩:=x
      refine ⟨_,hm,?_⟩
      cases op with
      | inner o => cases o with
        | spawnRegister key backend b => exact ⟨key,backend,b,res,rfl⟩
        | _ => cases hl
      | _ => cases hl

theorem spawn_fails_iff
    (hx : (service cfg).Executes C i k (spawnWorker path tenantId ensure) p ms res q) (hm : x∈ms)
    {key : WorkerKey} (hf : x.Final key) : (∃ e,res=.error e) ↔ ¬(x.before.inner.Room cfg key ∧
      (x.before.inner.pathToHandle.get key=none → x.env.spawnError=none)) := by
  obtain ⟨backend,hres,-⟩:=spawn_last hx hm hf
  rw [hres,outcome_error_iff]
  exact RouterInner.spawnRegister_refused_iff cfg key _ backend _ _ _ _ _

/-- A call of `spawn_worker` is harmless just where it fits. -/
theorem spawn_harmless
    (hx : (service cfg).Executes C i k (spawnWorker path tenantId ensure) p ms res q) :
    HarmlessSpawn ms res ↔ SpawnFits cfg ms := by
  constructor
  · rintro ⟨hfail,hreuse⟩ x hm key hf
    refine ⟨fun ⟨y,hy,h,ht⟩ => ?_,fun hk => ?_⟩
    · by_contra hn
      exact hfail ((spawn_fails_iff hx hm hf).mpr hn) y hy h ht
    · obtain ⟨h,hk⟩:=Option.isSome_iff_exists.mp hk
      obtain ⟨t,ht,hnew,-⟩:=hreuse x hm key h hf hk
      have hroom : x.before.inner.Room cfg key := by
        by_contra hn
        obtain ⟨e,he⟩:=(spawn_fails_iff hx hm hf).mpr fun h => hn h.1
        rw [ht] at he
        cases he
      refine ⟨hroom,?_⟩
      obtain ⟨backend,hres,-⟩:=spawn_last hx hm hf
      rw [RouterInner.spawnRegister_registered hk hroom,ht] at hres
      cases hres
      exact hnew
  · intro hfit
    refine ⟨fun hfail y hy h ht => ?_,fun x hm key h hf hk => ?_⟩
    · obtain ⟨x,hm,key,hf⟩:=spawn_took hx ⟨y,hy,h,ht⟩
      exact (spawn_fails_iff hx hm hf).mp hfail ((hfit x hm key hf).1 ⟨y,hy,h,ht⟩)
    · obtain ⟨backend,hres,hafter⟩:=spawn_last hx hm hf
      obtain ⟨hroom,hnew⟩:=(hfit x hm key hf).2 (by rw [hk]; rfl)
      rw [RouterInner.spawnRegister_registered hk hroom] at hres hafter
      refine ⟨_,hres,hnew,?_⟩
      rw [hafter]
      exact Map.get_insert_self _ _ _

end

def oneEach : RouterConfig := {sampleConfig with maxWorkersPerTenant := 1}

/-- The inputs with which a CLI request opens `path` in a fresh worker, up to the release
of the worker's first reference. -/
def ensureInputs (path : Path) (now : Nat) : List Env :=
  {}::{path := path}::{canonical := some path}::{path := path}::{canonical := some path}::idles 3++
    spawnInputs path now++idles 3

def cliOf (tenant : String) (path : Path) : Job :=
  .cli "list_functions" (.ofFields [("path",.str path),("tenant_id",.str tenant)])

/-- What `open_idb_routed` does before the spawn. -/
def openLookup (path : Path) : Run Bool := do
  let expanded ← world (.expandPath path)
  world (.isSbpfElf expanded)

def afterSpawn (req : OpenIdbRequest) (isSbpf : Bool) :
    Except String (DbHandle × Option Token) → Run Unit
  | .error e => respond (.error (.openFailed e))
  | .ok (handle,closeToken) => do
    match ← routeRequest (some handle) "open" (openIdbParams req) with
    | .error e => respond (.error e)
    | .ok value => respond (.ok (← openedReply handle closeToken isSbpf value))

theorem openIdb_body (req : OpenIdbRequest) : Job.body (.openIdb req)=
    (openLookup req.path).bind fun isSbpf =>
      (spawnWorker req.path none false).bind (afterSpawn req isSbpf) := rfl

namespace Section

def takesAny (x : Section) : Bool :=
  x.before.inner.workers.keysOf.any fun h => (x.after.inner.workers.get h).isNone

theorem takes_of_any (hx : x.takesAny=true) : ∃ h,x.Takes h := by
  obtain ⟨h,hm,hn⟩:=List.any_eq_true.mp hx
  exact ⟨h,(Map.mem_keysOf _ h).mp hm,Option.isNone_iff_eq_none.mp hn⟩

/-- The last section of a spawn whose path has a worker. -/
def late (x : Section) : Bool :=
  match x.event with
  | ⟨.inner (.spawnRegister key _ _),_⟩ => (x.before.inner.pathToHandle.get key).isSome
  | _ => false

theorem final_of_late (hx : x.late=true) :
    ∃ key h,x.Final key ∧ x.before.inner.pathToHandle.get key=some h := by
  obtain ⟨before,env,⟨op,r⟩,after⟩:=x
  cases op with
  | inner o => cases o with
    | spawnRegister key backend b =>
      obtain ⟨h,hk⟩:=Option.isSome_iff_exists.mp hx
      exact ⟨key,h,⟨backend,b,r,rfl⟩,hk⟩
    | _ => cases hx
  | _ => cases hx

end Section

theorem error_of_none {ε α : Type} {r : Except ε α} (h : r.toOption.isNone=true) :
    ∃ e,r=.error e := by
  cases r with
  | error e => exact ⟨e,rfl⟩
  | ok a => cases h

theorem play_open (cfg : RouterConfig) (as : List (Lib.Act Job Env)) (path : Path) (i : Nat)
    (rest : List (Lib.Act Job Env))
    (test : List Section → Except String (DbHandle × Option Token) → Bool)
    (h : ((service cfg).play (fun _ _ => true) as ⟨.new cfg,[]⟩).any (fun p =>
      ((service cfg).follow p.tasks.length (fun x => (spawnWorker path none false).bind
        (afterSpawn (openRequest path) x)) (fun _ _ => true) (steps i (idles 2)) (openLookup path)
        ⟨p.state,p.tasks++[(service cfg).newTask (.openIdb (openRequest path))]⟩).any fun x =>
      ((service cfg).follow p.tasks.length (afterSpawn (openRequest path) x.2.1)
        (fun _ _ => true) rest
        (spawnWorker path none false) x.2.2).any fun y => test y.1 y.2.1)=true) :
    ∃ p i k ms res q,(service cfg).Reach (fun _ _ => True) (.new cfg) p ∧
      (service cfg).Executes (fun _ _ => True) i k (spawnWorker path none false) p ms res q ∧
      test ms res=true := by
  obtain ⟨p,i,-,x,ms,res,q,hr,-,hx,ht⟩:=Lib.Machine.play_call (K := service cfg)
    (C := fun _ _ => True)
    (fun _ _ _ => trivial) (.new cfg) as (.openIdb (openRequest path)) rfl
    (fun _ => trivial) (openIdb_body (openRequest path)) (steps i (idles 2)) rest
    (fun _ ms res => test ms res) h
  exact ⟨p,i,_,ms,res,q,hr,hx,ht⟩

/-- Two clients open the same path; the first looks it up before the second opens it. -/
def lateSchedule : List (Lib.Act Job Env) :=
  steps 0 ({path := "/a"}::{canonical := some "/a"}::idles 3)++
    .start (.openIdb (openRequest "/a"))::steps 1 (idles 2++spawnInputs "/a" 1)++
    steps 0 (idles 4++{rounds := 1}::idles 7)

theorem spawn_harmless_late : ∃ p i k res q,∃ ms : List Section,
    (service sampleConfig).Executes (fun _ _ => True) i k (spawnWorker "/a" none false) p ms res q ∧
      (∃ x∈ms,x.late=true) ∧ (HarmlessSpawn ms res ↔ SpawnFits sampleConfig ms) := by
  obtain ⟨p,i,k,ms,res,q,-,hx,ht⟩:=play_open sampleConfig [] "/a" 0 lateSchedule
    (fun ms _ => ms.any Section.late) (by decide +kernel)
  exact ⟨p,i,k,res,q,ms,hx,List.any_eq_true.mp ht,spawn_harmless hx⟩

/-- A tenant at its limit evicts the worker of another and is refused; and a tenant whose
limit is one is refused the worker that was started for its own path meanwhile. -/
theorem spawn_harms :
    (∃ p i k e q,∃ ms : List Section,(service oneEach).Reach (fun _ _ => True) (.new oneEach) p ∧
      (service oneEach).Executes (fun _ _ => True) i k (spawnWorker "/c" none false) p ms
        (.error e) q ∧
      ∃ x∈ms,∃ h,x.Takes h) ∧
    ∃ p i k e q,∃ ms : List Section,(service oneEach).Reach (fun _ _ => True) (.new oneEach) p ∧
      (service oneEach).Executes (fun _ _ => True) i k (spawnWorker "/a" none false) p ms
        (.error e) q ∧
      ∃ x∈ms,∃ key h,x.Final key ∧ x.before.inner.pathToHandle.get key=some h := by
  constructor
  · obtain ⟨p,i,k,ms,res,q,hr,hx,ht⟩:=play_open oneEach
      (.start (cliOf "x" "/a")::steps 0 (ensureInputs "/a" 1)++
        .start (.openIdb (openRequest "/b"))::steps 2 (idles 2++respawnInputs "/b" 8))
      "/c" 4 (steps 4 ({path := "/c"}::{canonical := some "/c"}::idles 7++{rounds := 3}::idles 16))
      (fun ms res => res.toOption.isNone && ms.any Section.takesAny) (by decide +kernel)
    obtain ⟨he,hm⟩:=Bool.and_eq_true_iff.mp ht
    obtain ⟨e,rfl⟩:=error_of_none he
    obtain ⟨x,hx',hk⟩:=List.any_eq_true.mp hm
    exact ⟨p,i,k,e,q,ms,hr,hx,x,hx',Section.takes_of_any hk⟩
  · obtain ⟨p,i,k,ms,res,q,hr,hx,ht⟩:=play_open oneEach [] "/a" 0 lateSchedule
      (fun ms res => res.toOption.isNone && ms.any Section.late) (by decide +kernel)
    obtain ⟨he,hm⟩:=Bool.and_eq_true_iff.mp ht
    obtain ⟨e,rfl⟩:=error_of_none he
    obtain ⟨x,hx',hk⟩:=List.any_eq_true.mp hm
    exact ⟨p,i,k,e,q,ms,hr,hx,x,hx',Section.final_of_late hk⟩

end Router
