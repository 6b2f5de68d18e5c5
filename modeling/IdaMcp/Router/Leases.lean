import IdaMcp.Router.Installs
import IdaMcp.Router.Returned

/-!
# The references of the warm leases

A lease leaves the pool with its token returned, or with its worker: between the
section that takes it out and the one that settles it the task has it in hand.
The exception is an insert under a path that has a lease, which is overwritten.
-/

namespace Router
open Lib (Map Json Monitor)
open Lib.Monitor (keeps_pure keeps_halt keeps_bind keeps_perform)

/-- What a task has taken out of the pool and not yet settled. -/
inductive Phase where
  | idle
  | took (lease : WarmLease)
  /-- All leases of the worker, which is about to be removed. -/
  | closing (handle : DbHandle)
  deriving DecidableEq

def Phase.releases (t : Token) : Phase → Bool
  | .took lease => lease.token=t
  | _ => false

def Phase.next (φ : Phase) : Lib.Event Op.Res → Phase
  | ⟨.warm (.take _),some lease⟩ => .took lease
  | ⟨.warm (.retain h),_⟩ => .closing h
  | ⟨.inner (.releaseRefToken t _),_⟩ => if φ.releases t then .idle else φ
  | ⟨.inner (.closeRemove h _),_⟩ => if φ=.closing h then .idle else φ
  | _ => φ

structure Leasing where
  /-- The references given to the task. -/
  got : List (DbHandle × Token)
  phase : Phase

def gotBy : Lib.Event Op.Res → List (DbHandle × Token)
  | ⟨.inner o,r⟩ => o.issued r
  | _ => []

def leaseMonitor : Monitor Op.Res Leasing where
  next m e := ⟨gotBy e++m.got,m.phase.next e⟩
  allowed m op := match op with
    | .warm (.take _) | .warm (.retain _) => m.phase=.idle
    | .warm (.insert _ h t _ _) => (h,t)∈m.got
    | _ => True
  good _ _ := True

namespace Leases

/-- Nothing in hand, and these references given. -/
structure Has (l : List (DbHandle × Token)) (m : Leasing) : Prop where
  idle : m.phase=.idle
  got : l ⊆ m.got

variable {l : List (DbHandle × Token)}

theorem Has.mono {k : List (DbHandle × Token)} {m : Leasing} (h : Has l m) (hk : k ⊆ l) : Has k m :=
  ⟨h.idle,List.Subset.trans hk h.got⟩

/-- The sections that take leases out or put one in. -/
def Moves : Op → Prop
  | .warm (.take _) | .warm (.retain _) | .warm (.insert _ _ _ _ _) => True
  | _ => False

theorem keeps_op {op : Op} (h : ¬Moves op) : leaseMonitor.Keeps (Has l) (act op) := by
  refine keeps_perform fun m hm => ⟨?_,fun r _ => ⟨?_,?_⟩⟩
  · cases op with
    | warm o => cases o <;> first | trivial | exact absurd trivial h
    | _ => trivial
  · change m.phase.next ⟨op,r⟩=.idle
    rw [hm.idle]
    cases op with
    | warm o => cases o <;> first | rfl | exact absurd trivial h
    | inner o => cases o <;> rfl
    | _ => rfl
  · exact List.Subset.trans hm.got (List.subset_append_right _ _)

theorem keeps_plain (op : Op) (_ : op.followed=false) (h : op.staged=false) :
    leaseMonitor.Keeps (Has l) (act op) :=
  keeps_op fun hm => by
    cases op with
    | warm o => cases o <;> first | exact hm | cases h
    | _ => exact hm

theorem keeps_inner (o : InnerOp) : leaseMonitor.Keeps (Has l) (act (.inner o)) := keeps_op id

theorem keeps_locked (o : InnerOp) : leaseMonitor.Keeps (Has l) (locked o) :=
  Unstaged.withLock keeps_plain (keeps_inner o)

theorem keeps_close (h : DbHandle) (why : Reason) :
    leaseMonitor.Keeps (Has l) (closeWorker h why) := by
  refine Unstaged.withLock keeps_plain fun m hm => ?_
  simp only [withLock,Monitor.wp_bind,Monitor.wp_perform,Monitor.wp_pure]
  refine ⟨trivial,fun _ _ => ⟨hm.idle,fun _ _ => ⟨trivial,fun _ _ => ⟨trivial,fun _ _ => ?_⟩⟩⟩⟩
  exact ⟨if_pos rfl,hm.got⟩

theorem keeps_lease (path : Path) : leaseMonitor.Keeps (Has l) (releaseWarmLease path) := by
  refine Unstaged.withLock keeps_plain fun m hm => ?_
  rw [Monitor.wp_bind]
  refine ⟨hm.idle,fun r _ => ?_⟩
  rcases r with _ | lease
  · exact hm
  -- the lease is in hand until its token is released
  refine leaseMonitor.wp_seq (Q := fun _ m => Has l m) ?_ fun r m hm => ?_
  · simp only [releaseRefToken,locked,withLock,Monitor.wp_bind,Monitor.wp_perform,Monitor.wp_pure]
    exact ⟨trivial,fun _ _ => ⟨trivial,fun _ _ => ⟨trivial,fun _ _ =>
      ⟨if_pos (decide_eq_true rfl),hm.got⟩⟩⟩⟩
  · rcases r with _ | ⟨h,_ | _⟩
    · exact hm
    · exact keeps_close h _ m hm
    · exact hm

theorem refs : Refs leaseMonitor (Has l) :=
  Unstaged.refs keeps_plain
    (Unstaged.enqueueTask keeps_plain fun op h => keeps_op (by
      cases op <;> first | exact id | cases h))
    (Unstaged.routeRequest keeps_plain (fun o _ => keeps_inner o) (fun _ => keeps_op id)
      fun _ => keeps_op id)
    (fun o _ _ _ => keeps_inner o) keeps_close
    (keeps_drivePrewarm (Unstaged.withLock keeps_plain (keeps_op id)) fun _ => keeps_op id)

/-- The reference of `ensure_worker_with_ref` was given to the task. -/
def Ensured (l : List (DbHandle × Token)) (r : Except ToolError (DbHandle × Token)) (m : Leasing) :
    Prop := match r with
  | .ok x => Has (x::l) m
  | .error _ => Has l m

theorem issueFor_gives (h : DbHandle) (m : Leasing) (hm : Has l m) :
    leaseMonitor.wp (issueFor h) (Ensured l) m := by
  simp only [issueFor,issueRefForHandle,locked,withLock,Monitor.wp_bind,Monitor.wp_perform,
    Monitor.wp_pure]
  refine ⟨trivial,fun _ _ => ⟨trivial,fun t _ => ⟨trivial,fun _ _ => ⟨hm.idle,?_⟩⟩⟩⟩
  exact List.cons_subset_cons _ hm.got

theorem openAndIssue_gives (h : DbHandle) (canonical canonicalOpen : Path) (idb : Option Path)
    (m : Leasing) (hm : Has l m) :
    leaseMonitor.wp (openAndIssue h canonical canonicalOpen idb) (Ensured l) m := by
  refine leaseMonitor.wp_seq (refs.openFresh h _ _ _ m hm) fun r m hm => ?_
  rcases r with e | _
  · exact hm
  · exact issueFor_gives h m hm

theorem spawnWorker_keeps (path : Path) (tenantId : Option String) (b : Bool) :
    leaseMonitor.Keeps (Has l) (spawnWorker path tenantId b) :=
  refs.spawnWorker path tenantId b (Parts.evictLoop (keeps_locked _) fun h => keeps_close h _)
    (fun _ => keeps_locked _) fun _ _ => keeps_locked _

theorem ensure_gives (path : Path) (tenantId : Option String) (m : Leasing) (hm : Has l m) :
    leaseMonitor.wp (ensureWorkerWithRef path tenantId) (Ensured l) m := by
  refine leaseMonitor.wp_seq (refs.world _ m hm) fun _ m hm => ?_
  refine leaseMonitor.wp_seq (refs.canonicalPath _ m hm) fun _ m hm => ?_
  refine leaseMonitor.wp_seq (refs.canonicalPath _ m hm) fun _ m hm => ?_
  refine leaseMonitor.wp_seq (keeps_locked _ m hm) fun r m hm => ?_
  rcases r with _ | h
  · refine leaseMonitor.wp_seq (spawnWorker_keeps _ _ _ m hm) fun r m hm => ?_
    rcases r with e | ⟨h,_ | t⟩
    · exact hm
    · exact openAndIssue_gives h _ _ _ m hm
    · exact leaseMonitor.wp_seq (keeps_locked _ m hm) fun _ m hm => openAndIssue_gives h _ _ _ m hm
  · exact issueFor_gives h m hm

theorem keeps_install {handle : DbHandle} {token : Token} (hx : (handle,token)∈l) (path : Path)
    (tenantId : String) (cache : Option Path) :
    leaseMonitor.Keeps (Has l) (installWarmLease path handle token tenantId cache) :=
  refs.installWarmLease (Unstaged.withLock keeps_plain (keeps_op id))
    (Unstaged.withLock keeps_plain (keeps_op id)) keeps_lease path handle token tenantId cache
    (Unstaged.withLock keeps_plain
      (keeps_perform fun _ hm => ⟨hm.got hx,fun _ _ => ⟨hm.idle,hm.got⟩⟩))

theorem prewarmPath_keeps (path : Path) (keepWarm : Bool) (tenantId : String) :
    leaseMonitor.Keeps (Has l) (prewarmPathWithOptions path keepWarm tenantId) := by
  refine keeps_bind (refs.world _) fun _ => keeps_bind (refs.world _) fun b => ?_
  split
  · exact keeps_pure _
  refine keeps_bind (refs.world _) fun _ => keeps_bind (refs.look _ rfl) fun _ =>
    keeps_bind (refs.world _) fun _ m hm => ?_
  refine leaseMonitor.wp_seq (ensure_gives _ _ m hm) fun r m hm => ?_
  rcases r with e | ⟨handle,token⟩
  · exact hm
  have hsettle (already : Bool) (canonical : Path) (tenant : String) (cache : Option Path) :
      leaseMonitor.Keeps (Has ((handle,token)::l))
        (settlePrewarm keepWarm already canonical handle token tenant cache) :=
    Parts.settlePrewarm _ _ _ _ _ _ _ (keeps_install List.mem_cons_self _ _ _) (refs.releaseRef _)
      (refs.closeLast _ _)
  refine leaseMonitor.wp_mono (keeps_bind (refs.look _ rfl) (fun _ =>
    keeps_bind (refs.request _ _ _) fun _ => keeps_bind (refs.world _) fun _ =>
    keeps_bind (hsettle _ _ _ _) fun r => ?_) m hm) fun _ m hm =>
      hm.mono (List.subset_cons_self _ _)
  cases r <;> exact keeps_pure _

theorem core : Core leaseMonitor (Has l) := ⟨refs,prewarmPath_keeps⟩

theorem body (job : Job) : leaseMonitor.Keeps (Has []) job.body :=
  core.body job (fun _ _ _ => Unstaged.withLock keeps_plain (keeps_op id))
    (fun _ _ _ _ => keeps_op id) fun h _ =>
    core.reader h (keeps_locked _) (fun _ => keeps_locked _) fun _ => keeps_locked _

end Leases

def leasingOf (t : Lib.Task Op.Res Job) : Leasing := leaseMonitor.track (fun _ => ⟨[],.idle⟩) t

/-- The references that a step leaves with the pool. -/
def installs : Lib.Event Op.Res → List (DbHandle × Token)
  | ⟨.warm (.insert _ h t _ _),_⟩ => [(h,t)]
  | _ => []

/-- The references handed to `install_warm_lease` so far. -/
def handed (p : Service) : List (DbHandle × Token) :=
    p.tasks.flatMap fun t => t.log.flatMap installs

def InPool (pool : WarmPool) (x : DbHandle × Token) : Prop :=
  ∃ path lease,Map.get pool path=some lease ∧ lease.handle=x.1 ∧ lease.token=x.2

def Phase.Covers (x : DbHandle × Token) : Phase → Prop
  | .idle => False
  | .took lease => lease.token=x.2
  | .closing h => h=x.1

/-- The token was made, and is a reference to no other worker. -/
def Bound (s : Shared) (x : DbHandle × Token) : Prop :=
  x.2∈s.tokens ∧ ∀ h,x.2∈s.inner.refs h → h=x.1

/-- A reference to a worker that lives is in the pool or in a task's hand. -/
def Backed (p : Service) (x : DbHandle × Token) : Prop :=
  x.2∈p.state.inner.refs x.1 → (∃ w,p.state.inner.workers.get x.1=some w) →
    InPool p.state.warmPool x ∨ ∃ t∈p.tasks,(leasingOf t).phase.Covers x

/-- Whatever an insert overwrites is settled: its token is returned, or its worker is gone. -/
def Replaces (p : Service) : Move → Prop
  | .run _ ⟨.warm (.insert path _ _ _ _),_⟩ => ∀ old,Map.get p.state.warmPool path=some old →
      old.token∈p.state.inner.refs old.handle → p.state.inner.workers.get old.handle=none
  | _ => True

def Settling (p : Service) (l : Move) : Prop := Fresh p l ∧ Replaces p l

structure LeaseBooks (p : Service) : Prop where
  got : ∀ t∈p.tasks,∀ x∈(leasingOf t).got,Bound p.state x
  handed : ∀ x∈handed p,Bound p.state x ∧ Backed p x

theorem close_removes {cfg : RouterConfig} {s : RouterInner} (h : DbHandle) (why : Reason)
    (env : Env) :
    (InnerOp.run cfg (.closeRemove h why) env s).2.2.workers.get h=none := by
  simp only [InnerOp.run,RouterInner.closeRemove]
  split
  · exact (congrArg (fun m => Map.get m h) (RouterInner.without_workers _ _ _ _)).trans
      (Map.get_remove_self _ _)
  next hw => exact hw

theorem Bound.congr {s t : Shared} {x : DbHandle × Token} (h : Bound s x) (hi : t.inner=s.inner)
    (ht : t.tokens=s.tokens) : Bound t x := by
  rw [Bound,hi,ht]
  exact h

section Step
variable {cfg : RouterConfig} {p : Service} {i : Nat} {t : Lib.Task Op.Res Job} {op : Op}
variable {k : op.Res → Lib.Prog Op.Res Unit} {r : op.Res} {s : Shared}
variable {x : DbHandle × Token}

theorem mem_handed (hx : x∈handed p) : ∃ t∈p.tasks,∃ e∈t.log,x∈installs e := by
  obtain ⟨t,ht,hx⟩:=List.mem_flatMap.mp hx
  obtain ⟨e,he,hx⟩:=List.mem_flatMap.mp hx
  exact ⟨t,ht,e,he,hx⟩

theorem handed_resumed (ht : p.tasks[i]?=some t)
    (hx : x∈handed ((service cfg).resumed p i t op k r s)) : x∈handed p ∨ x∈installs ⟨op,r⟩ := by
  obtain ⟨u,hu,e,he,hx⟩:=mem_handed hx
  have hold {v : Lib.Task Op.Res Job} (hv : v∈p.tasks) (he : e∈v.log) : x∈handed p :=
    List.mem_flatMap.mpr ⟨v,hv,List.mem_flatMap.mpr ⟨e,he,hx⟩⟩
  rcases (service cfg).mem_resumed hu with rfl | hu | ⟨c,-,rfl⟩
  · rcases List.mem_cons.mp he with rfl | he
    · exact .inr hx
    · exact .inl (hold (List.mem_of_getElem? ht) he)
  · exact .inl (hold hu he)
  · cases he

theorem Backed.resumed (ht : p.tasks[i]?=some t) (hb : Backed p x)
    (hin : x.2∈s.inner.refs x.1 → (∃ w,s.inner.workers.get x.1=some w) →
      x.2∈p.state.inner.refs x.1 ∧ ∃ w,p.state.inner.workers.get x.1=some w)
    (hpool : InPool p.state.warmPool x → x.2∈p.state.inner.refs x.1 →
      (∃ w,p.state.inner.workers.get x.1=some w) →
      InPool s.warmPool x ∨ ((leasingOf t).phase.next ⟨op,r⟩).Covers x)
    (hphase : (leasingOf t).phase.Covers x → x.2∈s.inner.refs x.1 →
      (∃ w,s.inner.workers.get x.1=some w) → ((leasingOf t).phase.next ⟨op,r⟩).Covers x) :
    Backed ((service cfg).resumed p i t op k r s) x := by
  intro href hw
  have hself : ((leasingOf t).phase.next ⟨op,r⟩).Covers x →
      ∃ u∈((service cfg).resumed p i t op k r s).tasks,(leasingOf u).phase.Covers x := fun h =>
    ⟨_,List.mem_of_getElem? ((service cfg).resumed_self ht op k r s),h⟩
  obtain ⟨href₀,hw₀⟩:=hin href hw
  rcases hb href₀ hw₀ with h | ⟨u,hu,h⟩
  · rcases hpool h href₀ hw₀ with h | h
    · exact .inl h
    · exact .inr (hself h)
  · rcases (service cfg).resumed_other ht k r s hu with rfl | hu
    · exact .inr (hself (hphase h href hw))
    · exact .inr ⟨u,hu,h⟩

end Step

section Inner
variable {cfg : RouterConfig} {p : Service} {i : Nat} {o : InnerOp} {r : o.Res}
  {sends : List Delivery}
variable {inner : RouterInner}

theorem Bound.commit {x : DbHandle × Token} (hx : Bound p.state x)
    (hc : Change cfg p.state.inner (o.trace r sends) inner) (hf : Fresh p (.run i ⟨.inner o,r⟩)) :
    Bound (p.state.commit i (o.trace r sends) inner) x := by
  refine ⟨List.mem_append_right _ hx.1,fun h hh => ?_⟩
  rcases hc.refs_origin hh with hh | hh
  · exact hx.2 h hh
  · exact absurd hx.1 (hf.2 (h,x.2) hh)

theorem Bound.given {x : DbHandle × Token} (hreg : Registry p.state.inner) (hk : Known p.state)
    (hc : Change cfg p.state.inner (o.trace r sends) inner) (hf : Fresh p (.run i ⟨.inner o,r⟩))
    (hx : x∈o.issued r) : Bound (p.state.commit i (o.trace r sends) inner) x := by
  refine ⟨List.mem_append_left _ (List.mem_map.mpr ⟨x,hx,rfl⟩),fun h hh => ?_⟩
  rcases hc.refs_origin hh with hh | hh
  · exact absurd (hk.tokens x.2 h (hreg.referenced hh)) (hf.2 x hx)
  · exact congrArg Prod.fst (hc.issued_one hh hx)

end Inner

theorem Backed.inner {cfg : RouterConfig} {p : Service} {i : Nat} {t : Lib.Task Op.Res Job}
    {o : InnerOp} {k : o.Res → Lib.Prog Op.Res Unit} {env : Env} {r : o.Res} {s : Shared}
    {x : DbHandle × Token} (ht : p.tasks[i]?=some t) (hreg : Registry p.state.inner)
    (hx : exec cfg i (.inner o) env p.state=some (r,s)) (hf : Fresh p (.run i ⟨.inner o,r⟩))
    (hbound : Bound p.state x) (hb : Backed p x) :
    Backed ((service cfg).resumed p i t (.inner o) k r s) x := by
  have hpool:=(exec_queues cfg hx).warmPool (by rintro _ ⟨⟩)
  have hafter : s.inner=(o.run cfg env p.state.inner).2.2 := by cases hx; rfl
  obtain ⟨sends,inner,hc,rfl⟩:=exec_inner cfg hx
  have hold {h : DbHandle} (hm : (h,x.2)∈(o.trace r sends).issued) : False :=
    hf.2 (h,x.2) hm hbound.1
  refine hb.resumed ht (fun href hw => ⟨?_,?_⟩) (fun h _ _ => .inl (hpool ▸ h)) fun hcov href hw =>
    ?_
  · exact (hc.refs_origin href).resolve_right hold
  · obtain ⟨w,hw⟩:=hw
    rcases hc.worker_origin hw with h | hmade
    · exact h
    · exact (hold (hc.refs_made hmade href)).elim
  · rw [hafter] at href hw
    cases o with
    | releaseRefToken u b =>
      change (if (leasingOf t).phase.releases u then Phase.idle else _).Covers x
      split
      next hrel =>
        cases hφ : (leasingOf t).phase with
        | took lease =>
          rw [hφ] at hcov hrel
          obtain rfl : lease.token=u := of_decide_eq_true hrel
          obtain hcov : lease.token=x.2 := hcov
          exact (hreg.release_clears lease.token ⟨x.1,hcov ▸ href⟩).elim
        | idle | closing => rw [hφ] at hrel; cases hrel
      next => exact hcov
    | closeRemove h why =>
      change (if (leasingOf t).phase=.closing h then Phase.idle else _).Covers x
      split
      next hφ =>
        rw [hφ] at hcov
        obtain rfl : h=x.1 := hcov
        obtain ⟨w,hw⟩:=hw
        rw [close_removes] at hw
        cases hw
      next => exact hcov
    | _ => exact hcov

theorem Backed.warm {cfg : RouterConfig} {p : Service} {i : Nat} {t : Lib.Task Op.Res Job}
    {o : WarmOp} {k : o.Res → Lib.Prog Op.Res Unit} {env : Env} {r : o.Res} {s : Shared}
    {x : DbHandle × Token} (ht : p.tasks[i]?=some t)
    (hx : exec cfg i (.warm o) env p.state=some (r,s))
    (hallowed : leaseMonitor.allowed (leasingOf t) (.warm o))
    (hc : Replaces p (.run i ⟨.warm o,r⟩)) (hb : Backed p x) :
    Backed ((service cfg).resumed p i t (.warm o) k r s) x := by
  cases hx
  have hidle (h : (leasingOf t).phase=.idle) : ¬(leasingOf t).phase.Covers x := by
    rw [h]
    exact id
  cases o with
  | retain h =>
    refine hb.resumed ht (fun href hw => ⟨href,hw⟩) (fun hin _ _ => ?_)
      fun hcov => absurd hcov (hidle hallowed)
    obtain ⟨path,lease,hl,hh,htok⟩:=hin
    by_cases he : lease.handle=h
    · exact .inr (he.symm.trans hh)
    · exact .inl ⟨path,lease,(Map.get_keep _ _ _ _).mpr ⟨hl,decide_eq_true he⟩,hh,htok⟩
  | take path =>
    refine hb.resumed ht (fun href hw => ⟨href,hw⟩) (fun hin _ _ => ?_)
      fun hcov => absurd hcov (hidle hallowed)
    obtain ⟨path',lease,hl,hh,htok⟩:=hin
    by_cases he : path'=path
    · subst he
      right
      change (Phase.next _ ⟨.warm (.take path'),Map.get p.state.warmPool path'⟩).Covers x
      rw [hl]
      exact htok
    · refine .inl ⟨path',lease,?_,hh,htok⟩
      change Map.get (Map.remove p.state.warmPool path) path'=_
      rw [Map.get_remove,if_neg he]
      exact hl
  | insert path h u tenant cache =>
    refine hb.resumed ht (fun href hw => ⟨href,hw⟩) (fun hin href hw => .inl ?_) fun hcov _ _ =>
      hcov
    obtain ⟨path',lease,hl,hh,htok⟩:=hin
    by_cases he : path'=path
    · subst he
      rw [← hh,← htok] at href
      obtain ⟨w,hw⟩:=hw
      rw [← hh,hc lease hl href] at hw
      cases hw
    · refine ⟨path',lease,?_,hh,htok⟩
      change Map.get (Map.insert p.state.warmPool path _) path'=_
      rw [Map.get_insert,if_neg he]
      exact hl
  | full | oldest | pinned | list =>
    exact hb.resumed ht (fun href hw => ⟨href,hw⟩) (fun hin _ _ => .inl hin) fun hcov _ _ => hcov

theorem lease_books (cfg : RouterConfig) {p : Service}
    (hr : (service cfg).Reach Settling (.new cfg) p) : LeaseBooks p := by
  refine Lib.reach_pool (service cfg) leaseMonitor (fun _ => ⟨[],.idle⟩) Settling (fun _ _ => True)
    (fun job => leaseMonitor.wp_mono (Leases.body job _ ⟨rfl,List.nil_subset _⟩) fun _ _ _ =>
      trivial)
    (fun _ _ _ _ _ _ => trivial) ⟨fun _ h => (by cases h),fun _ h => (by cases h)⟩ ?_ ?_ hr
  · intro p c _ hb _ _
    refine ⟨fun t ht => ?_,fun x hx => ?_⟩
    · rcases List.mem_append.mp ht with ht | ht
      · exact hb.got t ht
      · obtain rfl:=List.mem_singleton.mp ht
        exact fun _ h => by cases h
    · rw [handed,List.flatMap_append] at hx
      rcases List.mem_append.mp hx with hx | hx
      · refine ⟨(hb.handed x hx).1,fun href hw => ?_⟩
        rcases (hb.handed x hx).2 href hw with h | ⟨u,hu,h⟩
        · exact .inl h
        · exact .inr ⟨u,List.mem_append_left _ hu,h⟩
      · cases hx
  intro p i t op k env r s hp hb hf
  have hx : exec cfg i op env p.state=some (r,s) := hf.exec
  obtain ⟨⟨hreg,hk⟩,-⟩:=registry_holds cfg (fun _ _ h => h.1) hp
  have hme:=hb.got t (List.mem_of_getElem? hf.task)
  -- what was bound stays bound, and what is given now is bound
  have hbound : (∀ x,Bound p.state x → Bound s x) ∧ ∀ x∈gotBy ⟨op,r⟩,Bound s x := by
    by_cases ho : ∃ o,op=.inner o
    · obtain ⟨o,rfl⟩:=ho
      obtain ⟨sends,inner,hc,rfl⟩:=exec_inner cfg hx
      exact ⟨fun x h => h.commit hc hf.cond.1,fun x h => .given hreg hk hc hf.cond.1 h⟩
    · have hs:=exec_outer cfg hx fun o h => ho ⟨o,h⟩
      refine ⟨fun x h => h.congr hs.inner hs.tokens,fun x h => ?_⟩
      cases op with
      | inner o => exact absurd ⟨o,rfl⟩ ho
      | _ => cases h
  refine ⟨fun u hu x hxu => ?_,fun x hxh => ?_⟩
  · rcases (service cfg).mem_resumed hu with rfl | hu | ⟨c,-,rfl⟩
    · rcases List.mem_append.mp hxu with h | h
      · exact hbound.2 x h
      · exact hbound.1 x (hme x h)
    · exact hbound.1 x (hb.got u hu x hxu)
    · cases hxu
  · rcases handed_resumed hf.task hxh with hxh | hnew
    · obtain ⟨hb₀,hb₁⟩:=hb.handed x hxh
      refine ⟨hbound.1 x hb₀,?_⟩
      cases op with
      | inner o => exact hb₁.inner hf.task hreg hx hf.cond.1 hb₀
      | warm o => exact hb₁.warm hf.task hx hf.allowed hf.cond.2
      | _ =>
        have hs:=(exec_outer cfg hx nofun).inner
        have hpool:=(exec_queues cfg hx).warmPool (by rintro _ ⟨⟩)
        exact hb₁.resumed hf.task (fun href hw => by rw [hs] at href hw; exact ⟨href,hw⟩)
          (fun hin _ _ => .inl (hpool ▸ hin)) fun hcov _ _ => hcov
    · -- the lease that is put in
      cases op with
      | warm o =>
        cases o with
        | insert path h u tenant cache =>
          obtain rfl:=List.mem_singleton.mp hnew
          refine ⟨hbound.1 _ (hme _ hf.allowed),fun _ _ => .inl ?_⟩
          cases hx
          exact ⟨path,_,Map.get_insert_self _ _ _,rfl,rfl⟩
        | _ => cases hnew
      | _ => cases hnew

/-- No task is between taking leases out of the pool and settling them. -/
def Calm (p : Service) : Prop := ∀ t∈p.tasks,(leasingOf t).phase=.idle

theorem idle_of_finished (cfg : RouterConfig) {C : Service → Move → Prop} {p : Service}
    (hr : (service cfg).Reach C (.new cfg) p) {t : Lib.Task Op.Res Job} (ht : t∈p.tasks)
    (hf : t.prog.finished=true) : (leasingOf t).phase=.idle := by
  obtain ⟨i,hi⟩:=List.mem_iff_getElem?.mp ht
  have hw:=Lib.conforms (service cfg) leaseMonitor (fun _ => ⟨[],.idle⟩) C
    (fun _ m => Leases.Has [] m) (fun job => Leases.body job _ ⟨rfl,List.nil_subset _⟩)
    (fun _ _ _ _ _ _ => trivial) hr i t hi
  cases hp : t.prog with
  | ret a =>
    rw [hp] at hw
    exact hw.idle
  | halt | call => rw [hp] at hf; cases hf

/-- What an event takes out of the pool. -/
abbrev taken (e : Lib.Event Op.Res) : Phase := Phase.idle.next e

/-- The section settles what is in hand: the lease's token is returned, or the worker of the
leases is removed. -/
def Phase.Settles : Phase → Lib.Event Op.Res → Prop
  | .took lease,⟨.inner (.releaseRefToken t _),_⟩ => t=lease.token
  | .closing h,⟨.inner (.closeRemove g _),_⟩ => g=h
  | _,_ => False

theorem Phase.next_taken {e : Lib.Event Op.Res} (h : taken e≠.idle) (φ : Phase) :
    φ.next e=taken e := by
  obtain ⟨op,r⟩:=e
  cases op with
  | warm o =>
    cases o with
    | take path =>
      cases r with
      | none => exact absurd rfl h
      | some lease => rfl
    | retain h => rfl
    | _ => exact absurd rfl h
  | inner o => cases o <;> exact absurd rfl h
  | _ => exact absurd rfl h

/-- With a lease in hand the next section settles it or leaves it in hand: no other is taken. -/
theorem Phase.settles_or_kept {m : Leasing} (hm : m.phase≠.idle) {op : Op} (r : op.Res)
    (ha : leaseMonitor.allowed m op) : m.phase.Settles ⟨op,r⟩ ∨ m.phase.next ⟨op,r⟩=m.phase := by
  cases op with
  | warm o =>
    cases o with
    | take path | retain h => exact absurd ha hm
    | _ => exact .inr rfl
  | inner o =>
    cases o with
    | releaseRefToken t b =>
      cases hφ : m.phase with
      | idle => exact absurd hφ hm
      | took lease =>
        by_cases ht : lease.token=t
        · exact .inl ht.symm
        · exact .inr (if_neg (by simpa [Phase.releases] using ht))
      | closing g => exact .inr rfl
    | closeRemove h why =>
      cases hφ : m.phase with
      | idle => exact absurd hφ hm
      | took lease => exact .inr rfl
      | closing g =>
        by_cases hg : g=h
        · exact .inl hg.symm
        · exact .inr (if_neg (by simpa using hg))
    | _ => exact .inr rfl
  | _ => exact .inr rfl

/-- What an event of a task's log took is settled later in the log, or still in hand. -/
def LeaseInHand (p : Service) : Prop := ∀ t∈p.tasks,∀ later e earlier,t.log=later++e::earlier →
  taken e≠.idle → (∃ x∈later,(taken e).Settles x) ∨ (leasingOf t).phase=taken e

theorem taken_in_hand (cfg : RouterConfig) {C : Service → Move → Prop} {p : Service}
    (hr : (service cfg).Reach C (.new cfg) p) : LeaseInHand p := by
  refine Lib.reach_pool (service cfg) leaseMonitor (fun _ => ⟨[],.idle⟩) C (fun _ _ => True)
    (fun job => leaseMonitor.wp_mono (Leases.body job _ ⟨rfl,List.nil_subset _⟩) fun _ _ _ =>
      trivial)
    (fun _ _ _ _ _ _ => trivial) (fun t (h : t∈[]) => (by cases h)) ?_ ?_ hr
  · intro p c _ hb _ _ t ht later e earlier hl
    rcases List.mem_append.mp ht with ht | ht
    · exact hb t ht later e earlier hl
    · obtain rfl:=List.mem_singleton.mp ht
      cases later <;> cases hl
  · intro p i t op k env r s _ hb hf u hu later e earlier hl he
    rcases (service cfg).mem_resumed hu with rfl | hu | ⟨c,-,rfl⟩
    · -- the newest event is the one that takes, or it follows it
      rcases List.cons_eq_append_iff.mp hl with ⟨rfl,hl⟩ | ⟨later,rfl,hl⟩
      · obtain ⟨rfl,-⟩:=List.cons.inj hl
        exact .inr (Phase.next_taken he _)
      · obtain ⟨-,hl⟩:=List.cons.inj hl
        rcases hb t (List.mem_of_getElem? hf.task) later e earlier hl he with ⟨x,hx,hs⟩ | hφ
        · exact .inl ⟨x,List.mem_cons_of_mem _ hx,hs⟩
        · rw [← hφ] at he ⊢
          rcases Phase.settles_or_kept he r hf.allowed with hs | hk
          · exact .inl ⟨_,List.mem_cons_self,hs⟩
          · exact .inr hk
    · exact hb u hu later e earlier hl he
    · cases later <;> cases hl

/-- Whatever a task that has ended took out of the pool it settled: after a lease was taken
its token was returned, and after the leases of a worker were taken the worker was removed. -/
theorem taken_settled (cfg : RouterConfig) {C : Service → Move → Prop} {p : Service}
    (hr : (service cfg).Reach C (.new cfg) p) {t : Lib.Task Op.Res Job} (ht : t∈p.tasks)
    (hf : t.prog.finished=true) {later earlier : List (Lib.Event Op.Res)} {e : Lib.Event Op.Res}
    (hl : t.log=later++e::earlier) (he : taken e≠.idle) :
    ∃ x∈later,(taken e).Settles x := by
  refine (taken_in_hand cfg hr t ht later e earlier hl he).resolve_right fun hφ => he ?_
  rw [← hφ,idle_of_finished cfg hr ht hf]

/-- In every run that overwrites settled leases only: while nobody is about to settle one,
the token of a lease whose worker lives is in the pool or has been returned. -/
theorem warm_leases_accounted (cfg : RouterConfig) {p : Service}
    (hr : (service cfg).Reach Settling (.new cfg) p) (hcalm : Calm p) {h : DbHandle} {token : Token}
    (hx : (h,token)∈handed p) {w : WorkerProcess} (hw : p.state.inner.workers.get h=some w) :
    (∃ path lease,Map.get p.state.warmPool path=some lease ∧ lease.handle=h ∧ lease.token=token) ∨
      ¬p.state.inner.Referenced token := by
  obtain ⟨hbound,hb⟩:=(lease_books cfg hr).handed _ hx
  by_cases href : token∈p.state.inner.refs h
  · rcases hb href ⟨w,hw⟩ with hin | ⟨t,ht,hcov⟩
    · exact .inl hin
    · rw [hcalm t ht] at hcov
      exact hcov.elim
  · refine .inr fun ⟨y,hy⟩ => href ?_
    obtain rfl : y=h := hbound.2 y hy
    exact hy

instance (p : Service) : Decidable (Calm p) :=
  inferInstanceAs (Decidable (∀ t∈p.tasks,(leasingOf t).phase=.idle))

/-- The pool has no lease under the path of an insert. -/
def addsOnly (p : Service) : Move → Bool
  | .run _ ⟨.warm (.insert path _ _ _ _),_⟩ => (Map.get p.state.warmPool path).isNone
  | _ => true

theorem settling_of_adds (p : Service) (l : Move) (h : (decide (Fresh p l) && addsOnly p l)=true) :
    Settling p l := by
  obtain ⟨hf,ha⟩:=Bool.and_eq_true_iff.mp h
  refine ⟨of_decide_eq_true hf,?_⟩
  unfold Replaces
  split
  next i path h t tenant cache r =>
    intro old ho
    rw [show Map.get p.state.warmPool path=none from Option.isNone_iff_eq_none.mp ha] at ho
    cases ho
  next => trivial

def twoWarm : RouterConfig := {sampleConfig with maxWarmWorkers := 2}

/-- A database is opened and then kept warm. -/
def warmOnce : List (Lib.Act Job Env) :=
  .start (.openIdb (openRequest "/a"))::steps 0 (idles 2++spawnInputs "/a" 1)++
    .start (keepWarm "/a")::steps 2 (prewarmInputs "/a" 3 1++idles 4)

/-- The pool has one place: to keep a second database warm the lease of the first is taken. -/
def warmTwo : List (Lib.Act Job Env) :=
  openTwo++.start (keepWarm "/a")::steps 4 (prewarmInputs "/a" 3 1++idles 4)++
    .start (keepWarm "/b")::steps 5 (prewarmInputs "/b" 4 2++idles 16)

theorem taken_settled_evicted : ∃ p,
    (service sampleConfig).Reach (fun _ _ => True) (.new sampleConfig) p ∧
      ∃ t∈p.tasks,t.prog.finished=true ∧ ∃ later e earlier,t.log=later++e::earlier ∧
        (taken e).releases "cli-3-2"=true ∧ ∃ x∈later,(taken e).Settles x := by
  obtain ⟨p,hp,ha⟩:=(service sampleConfig).play_free (.new sampleConfig) warmTwo
    (fun p => p.tasks.any fun t => t.prog.finished && t.log.any fun e =>
      (taken e).releases "cli-3-2")
    (by decide +kernel)
  obtain ⟨t,ht,ha⟩:=List.any_eq_true.mp ha
  obtain ⟨hf,ha⟩:=Bool.and_eq_true_iff.mp ha
  obtain ⟨e,he,hx⟩:=List.any_eq_true.mp ha
  obtain ⟨later,earlier,hl⟩:=List.append_of_mem he
  refine ⟨p,hp,t,ht,hf,later,e,earlier,hl,hx,taken_settled sampleConfig hp ht hf hl fun hφ => ?_⟩
  rw [hφ] at hx
  cases hx

theorem warm_leases_accounted_once : ∃ p,(service twoWarm).Reach Settling (.new twoWarm) p ∧
    ("0000000000000001","cli-3-1")∈handed p ∧
      ((∃ path lease,Map.get p.state.warmPool path=some lease ∧ lease.handle="0000000000000001" ∧
        lease.token="cli-3-1") ∨ ¬p.state.inner.Referenced "cli-3-1") := by
  obtain ⟨p,hp,ht⟩:=(service twoWarm).play_any Settling
    (fun p l => decide (Fresh p l) && addsOnly p l)
    settling_of_adds (.new twoWarm) warmOnce
    (fun p => Calm p ∧ ("0000000000000001","cli-3-1")∈handed p ∧
      (p.state.inner.workers.get "0000000000000001").isSome) (by decide +kernel)
  obtain ⟨hcalm,hx,hw⟩:=of_decide_eq_true ht
  obtain ⟨w,hw⟩:=Option.isSome_iff_exists.mp hw
  exact ⟨p,hp,hx,warm_leases_accounted twoWarm hp hcalm hx hw⟩

/-- The database is kept warm a second time: the first lease is overwritten, and nobody will
return its token. -/
theorem lease_overwritten : ∃ p w,(service twoWarm).Reach Fresh (.new twoWarm) p ∧ Calm p ∧
    ("0000000000000001","cli-3-1")∈handed p ∧
      p.state.inner.workers.get "0000000000000001"=some w ∧
      ¬InPool p.state.warmPool ("0000000000000001","cli-3-1") ∧
      p.state.inner.Referenced "cli-3-1" := by
  obtain ⟨p,hp,ht⟩:=(service twoWarm).play_when Fresh (.new twoWarm)
    (warmOnce++.start (keepWarm "/a")::steps 3 (prewarmInputs "/a" 4 1++idles 4))
    (fun p => Calm p ∧ ("0000000000000001","cli-3-1")∈handed p ∧
      (p.state.inner.workers.get "0000000000000001").isSome ∧
      (∀ e∈p.state.warmPool.entries,e.2.token≠"cli-3-1") ∧ p.state.inner.Referenced "cli-3-1")
    (by decide +kernel)
  obtain ⟨hcalm,hx,hw,hpool,href⟩:=of_decide_eq_true ht
  obtain ⟨w,hw⟩:=Option.isSome_iff_exists.mp hw
  refine ⟨p,w,hp,hcalm,hx,hw,?_,href⟩
  rintro ⟨path,lease,hl,-,htok⟩
  exact hpool ⟨path,lease⟩ ((Map.get_eq_some_iff _ _ _).mp hl) htok

end Router
