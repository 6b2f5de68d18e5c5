import IdaMcp.Router.Jobs

/-!
# What one operation can do

`Change` lists what a critical section of `inner` can do to `RouterInner` and
what it leaves in the history; every section of every function is one of these
(`run_change`). Every invariant of the registry is proved from this list.
-/

namespace Router
open Lib (Map Json)
variable {x : DbHandle} {i : Nat} {env : Env} {op : Op}

/-- The ways a worker's pending callers are all answered at once. -/
inductive Drained (h : DbHandle) : Cause → List DbHandle → Prop
  | stdoutClosed : Drained h (.stdoutClosed h) [h]
  | stdoutFailed : Drained h (.stdoutFailed h) [h]
  | workerClosed : Drained h (.workerClosed h) []

theorem Drained.handle {h : DbHandle} {cause : Cause} {ends : List DbHandle}
    (hd : Drained h cause ends) (hx : x∈ends) : x=h := by
  cases hd with
  | workerClosed => cases hx
  | _ => exact List.mem_singleton.mp hx

namespace RouterInner

/-- The registry without the worker `w` of handle `h`. -/
def without (h : DbHandle) (w : WorkerProcess) (pick : Nat) (s : RouterInner) : RouterInner :=
  ((s.unregister h w).dropTokens h).repoint h pick

def putWorker (h : DbHandle) (w : WorkerProcess) (s : RouterInner) : RouterInner :=
  {s with workers := s.workers.insert h w}

end RouterInner

open RouterInner in
inductive Change (cfg : RouterConfig) (s : RouterInner) : Trace → RouterInner → Prop
  | same : Change cfg s {} s
  | ticked : Change cfg s {} s.tick
  | named : Change cfg s {names := [requestId s.reqCounter]} s.tick
  | reused {key : WorkerKey} {h : DbHandle} {t : Token} : s.pathToHandle.get key=some h →
      Change cfg s {issued := [(h,t)]} (s.tick.bindToken h t)
  | issued {h : DbHandle} {t : Token} :
      Change cfg s {issued := [(h,t)],direct := [h]} (s.tick.bindToken h t)
  | registered {key : WorkerKey} {backend : WorkerBackendKind} {h : DbHandle} {t : Token}
      {instant : Instant} : s.tenantWorkers key.tenantId < cfg.maxWorkersPerTenant →
      s.workers.size < cfg.maxWorkers → s.pathToHandle.get key=none →
      Change cfg s {issued := [(h,t)],made := [h]} (s.tick.register key backend h t instant)
  | pended {h : DbHandle} {w : WorkerProcess} {id : ReqId} {c : Chan} {instant : Instant} :
      s.workers.get h=some w → s.tenantPending w.tenantId < cfg.maxPendingPerTenant →
      w.pending.size < cfg.maxPendingPerWorker →
      Change cfg s {registers := [⟨h,id,c⟩]}
        (s.putWorker h {w with pending := w.pending.insert id c,lastActive := instant})
  | answered {h : DbHandle} {w : WorkerProcess} {id : ReqId} {c : Chan} {a : Answer} :
      s.workers.get h=some w → w.pending.get id=some c →
      Change cfg s {sends := [⟨c,.line h id,a⟩]}
        (s.putWorker h {w with pending := w.pending.remove id})
  | touched {h : DbHandle} {w : WorkerProcess} {instant : Instant} : s.workers.get h=some w →
      Change cfg s {} (s.putWorker h {w with lastActive := instant})
  | removed {h : DbHandle} {w : WorkerProcess} {cause : Cause} {ends : List DbHandle}
      {message : String} {pick : Nat} : s.workers.get h=some w → Drained h cause ends →
      Change cfg s {ends := ends,removes := [h],sends := drain w cause message} (s.without h w pick)
  | gone {h : DbHandle} {cause : Cause} {ends : List DbHandle} : s.workers.get h=none →
      Drained h cause ends → Change cfg s {ends := ends,removes := [h]} s
  | orphaned {h : DbHandle} {pick : Nat} : s.workers.get h=none →
      Change cfg s {ends := [h],removes := [h]} ((s.dropTokens h).repoint h pick)
  | released {t : Token} {h : DbHandle} {ts : Finset Token} : s.tokenToHandle.get t=some h →
      s.refTokens.get h=some ts →
      Change cfg s {} {s with
        tokenToHandle := s.tokenToHandle.remove t
        refTokens := s.refTokens.insert h (ts.erase t)}
  | unbound {t : Token} {h : DbHandle} : s.tokenToHandle.get t=some h → s.refTokens.get h=none →
      Change cfg s {} {s with tokenToHandle := s.tokenToHandle.remove t}

variable (cfg : RouterConfig) (s : RouterInner)

theorem spawnLookup_change (key : WorkerKey) (b : Bool) (env : Env) :
    let r:=(InnerOp.spawnLookup key b).run cfg env s
    Change cfg s ((InnerOp.spawnLookup key b).trace r.1 r.2.1) r.2.2 := by
  dsimp only [InnerOp.run,RouterInner.spawnLookup]
  split
  · next h hk => exact .reused hk
  · exact .same

theorem spawnRegister_change (key : WorkerKey) (backend : WorkerBackendKind) (b : Bool)
    (env : Env) :
    let r:=(InnerOp.spawnRegister key backend b).run cfg env s
    Change cfg s ((InnerOp.spawnRegister key backend b).trace r.1 r.2.1) r.2.2 := by
  dsimp only [InnerOp.run,RouterInner.spawnRegister]
  split
  · exact .same
  next ht =>
  split
  · exact .same
  next hw =>
  split
  · next h hk => exact .reused hk
  next hk =>
  split
  · exact .ticked
  · exact .registered (Nat.lt_of_not_le ht) (Nat.lt_of_not_le hw) hk

theorem routeRegister_change (h : DbHandle) (id : ReqId) (c : Chan) (env : Env) :
    let r:=(InnerOp.routeRegister h id c).run cfg env s
    Change cfg s ((InnerOp.routeRegister h id c).trace r.1 r.2.1) r.2.2 := by
  dsimp only [InnerOp.run,RouterInner.routeRegister]
  split
  · exact .same
  next w hw =>
  split
  · exact .same
  next ht =>
  split
  · exact .same
  next hp =>
  split
  · exact .same
  · exact .same
  · exact .pended hw (Nat.lt_of_not_le ht) (Nat.lt_of_not_le hp)

theorem releaseRefToken_change (t : Token) (b : Bool) (env : Env) :
    let r:=(InnerOp.releaseRefToken t b).run cfg env s
    Change cfg s ((InnerOp.releaseRefToken t b).trace r.1 r.2.1) r.2.2 := by
  dsimp only [InnerOp.run,RouterInner.releaseRefToken]
  split
  · exact .same
  next h ht =>
  split
  · next ts hts => exact .released ht hts
  · next hts => exact .unbound ht hts

theorem ensureLookup_change (key : WorkerKey) (env : Env) :
    let r:=(InnerOp.ensureLookup key).run cfg env s
    Change cfg s ((InnerOp.ensureLookup key).trace r.1 r.2.1) r.2.2 := by
  dsimp only [InnerOp.run,RouterInner.ensureLookup]
  split
  · next h hk =>
    split
    · next w hw => exact .touched hw
    · exact .same
  · exact .same

theorem readerLine_change (h : DbHandle) (resp : RpcResponse) (env : Env) :
    let r:=(InnerOp.readerLine h resp).run cfg env s
    Change cfg s ((InnerOp.readerLine h resp).trace r.1 r.2.1) r.2.2 := by
  dsimp only [InnerOp.run,RouterInner.readerLine]
  split
  · next w hw =>
    split
    · next c hc => exact .answered hw hc
    · exact .same
  · exact .same

/-- Every section of every function is one of the changes. -/
theorem run_change (o : InnerOp) (env : Env) :
    let r:=o.run cfg env s
    Change cfg s (o.trace r.1 r.2.1) r.2.2 := by
  cases o with
  | spawnLookup key b => exact spawnLookup_change cfg s key b env
  | spawnRegister key backend b => exact spawnRegister_change cfg s key backend b env
  | routeRegister h id c => exact routeRegister_change cfg s h id c env
  | releaseRefToken t b => exact releaseRefToken_change cfg s t b env
  | ensureLookup key => exact ensureLookup_change cfg s key env
  | readerLine h resp => exact readerLine_change cfg s h resp env
  | newReqId => exact .named
  | issueRef h => exact .issued
  | closeRemove h why =>
    dsimp only [InnerOp.run,RouterInner.closeRemove]
    split
    · next w hw => exact .removed hw .workerClosed
    · next hw => exact .gone hw .workerClosed
  | readerEof h =>
    dsimp only [InnerOp.run,RouterInner.readerEof]
    split
    · next w hw => exact .removed hw .stdoutClosed
    · next hw => exact .gone hw .stdoutClosed
  | readerError h e =>
    dsimp only [InnerOp.run,RouterInner.readerError]
    split
    · next w hw => exact .removed hw .stdoutFailed
    · next hw => exact .orphaned hw
  | evictCandidate | routeTarget | pathLookup | hasPath | backendOf | expired | allHandles |
    activeHandle | workerCount | exePath | status => exact .same

/-- The part of the shared state that only sections of `inner` change. -/
structure SameCore (s t : Shared) : Prop where
  inner : t.inner=s.inner
  sent : t.sent=s.sent
  handles : t.handles=s.handles
  tokens : t.tokens=s.tokens
  registered : t.registered=s.registered
  ended : t.ended=s.ended
  named : t.named=s.named

theorem exec_inner {o : InnerOp} {r : o.Res} {s t : Shared}
    (h : exec cfg i (.inner o) env s=some (r,t)) :
    ∃ sends inner, Change cfg s.inner (o.trace r sends) inner ∧
      t=s.commit i (o.trace r sends) inner := by
  cases h
  exact ⟨_,_,run_change cfg s.inner o env,rfl⟩

theorem exec_receive {c : Chan} {r : Received} {s t : Shared}
    (h : exec cfg i (.receive c) env s=some (r,t)) : t=s ∧ match r with
      | .answer _ => c∈s.sent.map Delivery.chan
      | .dropped => s.senderAlive c=false
      | .timedOut => s.senderAlive c=true := by
  simp only [exec] at h
  split at h
  · next d hd =>
    cases h
    have hc:=List.find?_some hd
    exact ⟨rfl,List.mem_map.mpr ⟨d,List.mem_of_find?_eq_some hd,of_decide_eq_true hc⟩⟩
  split at h
  · next ha =>
    split at h
    · cases h; exact ⟨rfl,ha⟩
    · cases h
  · next ha => cases h; exact ⟨rfl,Bool.eq_false_iff.mpr ha⟩

/-- An operation that is no section of `inner` leaves the core as it is. -/
theorem exec_outer {r : op.Res} {s t : Shared} (h : exec cfg i op env s=some (r,t))
    (ho : ∀ o, op≠.inner o) : SameCore s t := by
  cases op with
  | inner o => exact absurd rfl (ho o)
  | lock x | acquireSpawn =>
    simp only [exec] at h
    split at h
    · cases h; exact ⟨rfl,rfl,rfl,rfl,rfl,rfl,rfl⟩
    · cases h
  | tick x =>
    simp only [exec] at h
    split at h
    · cases h
    · cases h; exact ⟨rfl,rfl,rfl,rfl,rfl,rfl,rfl⟩
  | receive c =>
    obtain ⟨rfl,-⟩:=exec_receive cfg h
    exact ⟨rfl,rfl,rfl,rfl,rfl,rfl,rfl⟩
  | unlock | releaseSpawn | channel | warm | probe | prewarm | route | world | spawn | tasks |
    submit | newHandle =>
    cases h
    exact ⟨rfl,rfl,rfl,rfl,rfl,rfl,rfl⟩

/-- The data under each of the other mutexes, which only its own sections change. -/
structure SameQueues (op : Op) (s t : Shared) : Prop where
  warmPool : (∀ o, op≠.warm o) → t.warmPool=s.warmPool
  prewarmQueue : (∀ o, op≠.prewarm o) → t.prewarmQueue=s.prewarmQueue
  routeQueue : (∀ o, op≠.route o) → t.routeQueue=s.routeQueue

theorem exec_queues {r : op.Res} {s t : Shared}
    (h : exec cfg i op env s=some (r,t)) : SameQueues op s t := by
  cases op with
  | lock x | acquireSpawn =>
    simp only [exec] at h
    split at h <;> cases h
    exact ⟨fun _ => rfl,fun _ => rfl,fun _ => rfl⟩
  | tick x =>
    simp only [exec] at h
    split at h <;> cases h
    exact ⟨fun _ => rfl,fun _ => rfl,fun _ => rfl⟩
  | receive c =>
    obtain ⟨rfl,-⟩:=exec_receive cfg h
    exact ⟨fun _ => rfl,fun _ => rfl,fun _ => rfl⟩
  | warm o => cases h; exact ⟨fun ho => absurd rfl (ho o),fun _ => rfl,fun _ => rfl⟩
  | prewarm o => cases h; exact ⟨fun _ => rfl,fun ho => absurd rfl (ho o),fun _ => rfl⟩
  | route o => cases h; exact ⟨fun _ => rfl,fun _ => rfl,fun ho => absurd rfl (ho o)⟩
  | inner | unlock | releaseSpawn | channel | probe | world | spawn | tasks | submit | newHandle =>
    cases h
    exact ⟨fun _ => rfl,fun _ => rfl,fun _ => rfl⟩

theorem exec_channels {r : op.Res} {s t : Shared} (h : exec cfg i op env s=some (r,t))
    (ho : ∀ id, op≠.channel id) : t.channels=s.channels ∧ t.nextChan=s.nextChan := by
  cases op with
  | channel id => exact absurd rfl (ho id)
  | lock x | acquireSpawn =>
    simp only [exec] at h
    split at h
    · cases h; exact ⟨rfl,rfl⟩
    · cases h
  | tick x =>
    simp only [exec] at h
    split at h
    · cases h
    · cases h; exact ⟨rfl,rfl⟩
  | receive c =>
    obtain ⟨rfl,-⟩:=exec_receive cfg h
    exact ⟨rfl,rfl⟩
  | unlock | releaseSpawn | inner | warm | probe | prewarm | route | world | spawn | tasks |
    submit | newHandle =>
    cases h
    exact ⟨rfl,rfl⟩

/-- A property of `RouterInner` alone that every change keeps holds all along. -/
theorem inner_invariant {C : Service → Move → Prop} {G : RouterInner → Prop} (h0 : G .new)
    (hstep : ∀ s tr t, G s → Change cfg s tr t → G t) {p : Service}
    (hr : (service cfg).Reach C (.new cfg) p) : G p.state.inner := by
  refine Lib.reach_state (service cfg) C (G := fun s => G s.inner) h0 ?_ hr
  intro p i op env r t hg hx _
  by_cases ho : ∃ o, op=.inner o
  · obtain ⟨o,rfl⟩:=ho
    obtain ⟨sends,inner,hc,rfl⟩:=exec_inner cfg hx
    exact hstep _ _ _ hg hc
  · have hs:=exec_outer cfg hx fun o he => ho ⟨o,he⟩
    rw [hs.inner]
    exact hg

/-- A worker is reused where its path is mapped to it. -/
theorem RouterInner.spawnRegister_reused {cfg : RouterConfig} {s : RouterInner} {key : WorkerKey}
    {backend : WorkerBackendKind} {now tokenNow pid : Nat} {instant : Instant}
    {spawnError : Option String} {h : DbHandle} {t : Token}
    (hr : (s.spawnRegister cfg key backend now tokenNow pid instant spawnError).1=.reused h t) :
    s.pathToHandle.get key=some h := by
  unfold RouterInner.spawnRegister at hr
  split at hr
  · cases hr
  split at hr
  · cases hr
  split at hr
  · next hk => cases hr; exact hk
  · split at hr <;> cases hr

namespace RouterInner
variable (s : RouterInner) (h : DbHandle) (w : WorkerProcess) (pick : Nat)

@[simp] theorem dropTokens_workers : (s.dropTokens h).workers=s.workers := by
  unfold dropTokens; split <;> rfl
@[simp] theorem dropTokens_pathToHandle : (s.dropTokens h).pathToHandle=s.pathToHandle := by
  unfold dropTokens; split <;> rfl
@[simp] theorem dropTokens_active : (s.dropTokens h).active=s.active := by
  unfold dropTokens; split <;> rfl
@[simp] theorem dropTokens_reqCounter : (s.dropTokens h).reqCounter=s.reqCounter := by
  unfold dropTokens; split <;> rfl

@[simp] theorem dropTokens_refTokens_self : (s.dropTokens h).refTokens.get h=none := by
  unfold dropTokens
  split
  · exact Map.get_remove_self _ _
  · next hn => exact hn

@[simp] theorem repoint_workers : (s.repoint h pick).workers=s.workers := by
  unfold repoint; split <;> rfl
@[simp] theorem repoint_pathToHandle : (s.repoint h pick).pathToHandle=s.pathToHandle := by
  unfold repoint; split <;> rfl
@[simp] theorem repoint_tokenToHandle : (s.repoint h pick).tokenToHandle=s.tokenToHandle := by
  unfold repoint; split <;> rfl
@[simp] theorem repoint_refTokens : (s.repoint h pick).refTokens=s.refTokens := by
  unfold repoint; split <;> rfl
@[simp] theorem repoint_reqCounter : (s.repoint h pick).reqCounter=s.reqCounter := by
  unfold repoint; split <;> rfl

@[simp] theorem without_workers : (s.without h w pick).workers=s.workers.remove h := by
  simp [without,unregister]
@[simp] theorem without_reqCounter : (s.without h w pick).reqCounter=s.reqCounter := by
  simp [without,unregister]
@[simp] theorem without_refTokens :
    (s.without h w pick).refTokens=(s.dropTokens h).refTokens := by
  simp only [without,repoint_refTokens,dropTokens,unregister]
  split <;> rfl
@[simp] theorem without_tokenToHandle :
    (s.without h w pick).tokenToHandle=(s.dropTokens h).tokenToHandle := by
  simp only [without,repoint_tokenToHandle,dropTokens,unregister]
  split <;> rfl

theorem refs_bindToken (t : Token) (x : DbHandle) :
    (s.tick.bindToken h t).refs x=if x=h then insert t (s.refs h) else s.refs x := by
  simp only [refs,tick,bindToken,Map.get_insert]
  split <;> rfl

theorem refs_dropTokens (x : DbHandle) :
    (s.dropTokens h).refs x=if x=h then ∅ else s.refs x := by
  unfold dropTokens
  split
  · simp only [refs,Map.get_remove]
    split <;> rfl
  · next hn =>
    split
    · next hx => rw [refs,hx,hn]; rfl
    · rfl

theorem refs_without (x : DbHandle) :
    (s.without h w pick).refs x=if x=h then ∅ else s.refs x := by
  rw [← refs_dropTokens,refs,without_refTokens,refs]

end RouterInner

namespace Change
variable {cfg : RouterConfig} {s t : RouterInner} {tr : Trace}

variable (hc : Change cfg s tr t)
include hc

/-- The counter never goes back, and an id is made from the value it had. -/
theorem counter :
    (tr.names=[] ∧ s.reqCounter ≤ t.reqCounter) ∨
      (tr.names=[requestId s.reqCounter] ∧ t.reqCounter=s.reqCounter+1) := by
  cases hc with
  | named => exact .inr ⟨rfl,rfl⟩
  | ticked | reused | issued | registered => exact .inl ⟨rfl,Nat.le_succ _⟩
  | orphaned | removed => exact .inl ⟨rfl,by simp⟩
  | same | pended | answered | touched | gone | released | unbound => exact .inl ⟨rfl,Nat.le_refl _⟩

theorem registers_one : tr.registers=[] ∨ ∃ g, tr.registers=[g] := by
  cases hc with
  | pended => exact .inr ⟨_,rfl⟩
  | _ => exact .inl rfl

theorem pending_origin {v : WorkerProcess} {id : ReqId} {c : Chan} (hv : t.workers.get x=some v)
    (hp : v.pending.get id=some c) :
    (∃ u, s.workers.get x=some u ∧ u.pending.get id=some c) ∨ ⟨x,id,c⟩∈tr.registers := by
  cases hc with
  | same | ticked | named | reused | issued | released | unbound | gone => exact .inl ⟨v,hv,hp⟩
  | orphaned => exact .inl ⟨v,by simpa using hv,hp⟩
  | registered =>
    simp only [RouterInner.register,RouterInner.tick,Map.get_insert] at hv
    split at hv
    · cases hv
      exact absurd hp (by simp)
    · exact .inl ⟨v,hv,hp⟩
  | @pended h w i a instant hw _ _ =>
    simp only [RouterInner.putWorker,Map.get_insert] at hv
    split at hv
    · next hx =>
      subst hx
      cases hv
      simp only [Map.get_insert] at hp
      split at hp
      · next hi => cases hp; subst hi; exact .inr (List.mem_singleton_self _)
      · exact .inl ⟨w,hw,hp⟩
    · exact .inl ⟨v,hv,hp⟩
  | @answered h w i a _ hw _ =>
    simp only [RouterInner.putWorker,Map.get_insert] at hv
    split at hv
    · next hx =>
      subst hx
      cases hv
      simp only [Map.get_remove] at hp
      split at hp
      · cases hp
      · exact .inl ⟨w,hw,hp⟩
    · exact .inl ⟨v,hv,hp⟩
  | @touched h w instant hw =>
    simp only [RouterInner.putWorker,Map.get_insert] at hv
    split at hv
    · next hx => subst hx; cases hv; exact .inl ⟨w,hw,hp⟩
    · exact .inl ⟨v,hv,hp⟩
  | removed =>
    rw [RouterInner.without_workers,Map.get_remove] at hv
    split at hv
    · cases hv
    · exact .inl ⟨v,hv,hp⟩

theorem worker_origin {v : WorkerProcess}
    (hv : t.workers.get x=some v) : (∃ u, s.workers.get x=some u) ∨ x∈tr.made := by
  cases hc with
  | same | ticked | named | reused | issued | released | unbound | gone => exact .inl ⟨v,hv⟩
  | orphaned => exact .inl ⟨v,by simpa using hv⟩
  | registered =>
    simp only [RouterInner.register,RouterInner.tick,Map.get_insert] at hv
    split at hv
    · next hx => exact .inr (hx ▸ List.mem_singleton_self _)
    · exact .inl ⟨v,hv⟩
  | pended hw | answered hw | touched hw =>
    simp only [RouterInner.putWorker,Map.get_insert] at hv
    split at hv
    · next hx => exact .inl ⟨_,hx ▸ hw⟩
    · exact .inl ⟨v,hv⟩
  | removed =>
    rw [RouterInner.without_workers,Map.get_remove] at hv
    split at hv
    · cases hv
    · exact .inl ⟨v,hv⟩

theorem refs_origin {u : Token} (hu : u∈t.refs x) : u∈s.refs x ∨ (x,u)∈tr.issued := by
  cases hc with
  | same | ticked | named | gone | pended | answered | touched | unbound => exact .inl hu
  | reused | issued =>
    rw [RouterInner.refs_bindToken] at hu
    split at hu
    · next hx =>
      rcases Finset.mem_insert.mp hu with rfl | hu
      · exact .inr (hx ▸ List.mem_singleton_self _)
      · exact .inl (hx ▸ hu)
    · exact .inl hu
  | registered =>
    simp only [RouterInner.refs,RouterInner.register,RouterInner.tick,Map.get_insert] at hu
    split at hu
    · next hx =>
      rw [Finset.mem_singleton.mp hu,hx]
      exact .inr (List.mem_singleton_self _)
    · exact .inl hu
  | removed =>
    rw [RouterInner.refs_without] at hu
    split at hu
    · cases hu
    · exact .inl hu
  | orphaned =>
    rw [show RouterInner.refs _ x=RouterInner.refs _ x from
      congrArg (fun m => (Map.get m x).getD ∅) (RouterInner.repoint_refTokens _ _ _),
      RouterInner.refs_dropTokens] at hu
    split at hu
    · cases hu
    · exact .inl hu
  | @released k h ts _ hts =>
    simp only [RouterInner.refs,Map.get_insert] at hu ⊢
    split at hu
    · next hx =>
      rw [hx,hts]
      exact .inl (Finset.mem_of_mem_erase hu)
    · exact .inl hu

theorem refs_made {u : Token} (hx : x∈tr.made) (hu : u∈t.refs x) : (x,u)∈tr.issued := by
  cases hc with
  | registered =>
    obtain rfl:=List.mem_singleton.mp hx
    rw [RouterInner.refs,RouterInner.register,Map.get_insert_self] at hu
    rw [Finset.mem_singleton.mp hu]
    exact List.mem_singleton_self _
  | _ => cases hx

theorem issued_one {x y : DbHandle × Token} (hx : x∈tr.issued) (hy : y∈tr.issued) : x=y := by
  cases hc with
  | reused | issued | registered => rw [List.mem_singleton.mp hx,List.mem_singleton.mp hy]
  | _ => cases hx

theorem made_there : ∀ h∈tr.made, ∃ w, t.workers.get h=some w := by
  intro h hh
  cases hc with
  | registered =>
    rw [List.mem_singleton.mp hh]
    exact ⟨_,Map.get_insert_self _ _ _⟩
  | _ => cases hh

theorem ends_gone : ∀ h∈tr.ends, t.workers.get h=none := by
  intro x hx
  cases hc with
  | gone hw hd => rw [hd.handle hx]; exact hw
  | orphaned hw => rw [List.mem_singleton.mp hx]; simpa using hw
  | removed hw hd => rw [RouterInner.without_workers,Map.get_remove,if_pos (hd.handle hx)]
  | _ => cases hx

theorem worker_stays {u : WorkerProcess}
    (hu : s.workers.get x=some u) : (∃ v, t.workers.get x=some v) ∨ x∈tr.removes := by
  cases hc with
  | same | ticked | named | reused | issued | released | unbound | gone => exact .inl ⟨u,hu⟩
  | orphaned => exact .inl ⟨u,by simpa using hu⟩
  | registered =>
    simp only [RouterInner.register,RouterInner.tick,Map.get_insert]
    split
    · exact .inl ⟨_,rfl⟩
    · exact .inl ⟨u,hu⟩
  | pended | answered | touched =>
    simp only [RouterInner.putWorker,Map.get_insert]
    split
    · exact .inl ⟨_,rfl⟩
    · exact .inl ⟨u,hu⟩
  | removed =>
    rw [RouterInner.without_workers,Map.get_remove]
    split
    · next hx => exact .inr (hx ▸ List.mem_singleton_self _)
    · exact .inl ⟨u,hu⟩

end Change

end Router
