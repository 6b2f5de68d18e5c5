import IdaMcp.Router.Closing
import IdaMcp.Router.Names
import IdaMcp.Router.Spawning

/-!
# A call of `ensure_worker_with_ref_idb` that fails

The call closes the worker it has tried to open, whether it started that worker
or was handed one that another call had started. It spares the references of
other calls as long as none is given out while a call is opening the worker, or
has picked it for eviction.
-/

namespace Router
open Lib (Map Monitor Prog Json)
open Lib.Monitor (keeps_pure keeps_halt keeps_bind keeps_perform)
variable {op : Op} {h : DbHandle} {u : Token} {e : Lib.Event Op.Res}

/-- The references that `ensure_worker_with_ref_idb` returns are the ones of
`issue_ref_for_handle`. -/
def isCli (t : Token) : Bool := ['c','l','i','-'].isPrefixOf t.toList

theorem isCli_refToken (now pid nonce : Nat) : isCli (refToken now pid nonce)=false := by
  by_contra h
  obtain ⟨rest,hr⟩:=List.isPrefixOf_iff_prefix.mp (Bool.not_eq_false _ ▸ h)
  rw [refToken_toList] at hr
  change ['c','l','i']++ '-'::rest=_ at hr
  obtain ⟨hn,-⟩:=Lib.split_unique (by decide) (dash_not_mem now) hr
  have hm : 'l'∉Nat.toDigits 16 now := Lib.not_mem_toDigits (by decide) now
  rw [← hn] at hm
  exact hm (by decide)

/-! ### What a task has its hands on -/

structure Stance where
  /-- The worker it has got from its spawn and is opening. -/
  opening : Option DbHandle
  /-- The worker it has picked for eviction. -/
  evicting : Option DbHandle
  /-- The first reference to the worker, which it gives back. -/
  initial : Option Token

namespace Stance

def idle : Stance := ⟨none,none,none⟩

/-- The reference that a spawn on behalf of `ensure_worker_with_ref_idb` brings. -/
def brought : Lib.Event Op.Res → Option (DbHandle × Token)
  | ⟨.inner (.spawnLookup _ true),r⟩ => r
  | ⟨.inner (.spawnRegister _ _ true),r⟩ => match r with
    | .reused h t | .fresh h t => some (h,t)
    | .refused _ => none
  | _ => none

def next (m : Stance) (e : Lib.Event Op.Res) : Stance :=
  match brought e with
  | some (h,t) => ⟨some h,m.evicting,some t⟩
  | none => match e with
    | ⟨.inner .evictCandidate,r⟩ => ⟨m.opening,r,m.initial⟩
    | ⟨.inner (.closeRemove _ _),_⟩ => ⟨none,none,m.initial⟩
    | ⟨.inner (.releaseRefToken _ _),_⟩ => ⟨m.opening,m.evicting,none⟩
    | ⟨.inner (.issueRef _),_⟩ => ⟨none,none,m.initial⟩
    | _ => m

def On (m : Stance) (h : DbHandle) : Prop := m.opening=some h ∨ m.evicting=some h

instance (m : Stance) (h : DbHandle) : Decidable (m.On h) :=
  inferInstanceAs (Decidable (m.opening=some h ∨ m.evicting=some h))

end Stance

/-- Within `ensure_worker_with_ref_idb`, a worker is closed that the task has its hands on,
and the reference given back is the one it was brought. -/
def openMonitor : Monitor Op.Res Stance where
  next := Stance.next
  allowed m op := match op with
    | .inner (.closeRemove h _) => m.On h
    | .inner (.releaseRefToken t _) => m.initial=some t
    | .inner (.readerEof _) | .inner (.readerError _ _) => False
    | _ => True
  good _ _ := True

namespace Opening
variable {I : Stance → Prop}

/-- Operations that change nobody's stance. -/
def Plain : Op → Prop
  | .inner (.spawnLookup _ _) | .inner (.spawnRegister _ _ _) | .inner .evictCandidate |
    .inner (.closeRemove _ _) | .inner (.releaseRefToken _ _) | .inner (.issueRef _) |
    .inner (.readerEof _) | .inner (.readerError _ _) => False
  | _ => True

theorem keeps_plain (h : Plain op) : openMonitor.Keeps I (act op) := by
  refine keeps_perform fun m hm => ?_
  cases op with
  | inner o => cases o with
    | spawnLookup | spawnRegister | evictCandidate | closeRemove | releaseRefToken | issueRef |
      readerEof | readerError => exact h.elim
    | _ => exact ⟨trivial,fun _ _ => hm⟩
  | _ => exact ⟨trivial,fun _ _ => hm⟩

theorem keeps_lock {α : Type} {x : Mutex} {body : Run α} (hb : openMonitor.Keeps I body) :
    openMonitor.Keeps I (withLock x body) :=
  keeps_bind (keeps_plain trivial) fun _ => keeps_bind hb fun _ =>
    keeps_bind (keeps_plain trivial) fun _ => keeps_pure _

theorem keeps_world (o : WorldOp) : openMonitor.Keeps I (world o) := keeps_plain trivial

theorem keeps_canonical (path : Path) : openMonitor.Keeps I (canonicalPath path) :=
  keeps_bind (keeps_world _) fun _ => keeps_bind (keeps_world _) fun _ => keeps_pure _

theorem keeps_probe : openMonitor.Keeps I probeWorkerBackend := by
  refine keeps_bind (keeps_lock (keeps_plain trivial)) fun r => ?_
  cases r with
  | some cached => exact keeps_pure _
  | none =>
    refine keeps_bind (keeps_world _) fun r => ?_
    cases r with
    | error e => exact keeps_pure _
    | ok probe => exact keeps_bind (keeps_lock (keeps_plain trivial)) fun _ => keeps_pure _

theorem keeps_request (h : Option DbHandle) (method : String) (params : Json) :
    openMonitor.Keeps I (routeRequest h method params) := by
  refine keeps_bind (keeps_lock (keeps_plain trivial)) fun r => ?_
  cases r with
  | error e => exact keeps_pure _
  | ok target =>
    refine keeps_bind (keeps_lock (keeps_plain trivial)) fun id =>
      keeps_bind (keeps_plain trivial) fun chan =>
      keeps_bind (keeps_lock (keeps_plain trivial)) fun r => ?_
    cases r with
    | error e => exact keeps_pure _
    | ok _ =>
      refine keeps_bind (keeps_plain trivial) fun r => ?_
      rcases r with (_ | _) | _ | _ <;> exact keeps_pure _

theorem close_wp {why : Reason} {m : Stance} (hm : m.On h) :
    openMonitor.wp (closeWorker h why) (fun _ m' => m'=⟨none,none,m.initial⟩) m := by
  simp only [closeWorker,withLock,Monitor.wp_bind,Monitor.wp_perform,Monitor.wp_pure]
  exact ⟨trivial,fun _ _ => ⟨trivial,fun _ _ => ⟨trivial,fun _ _ => ⟨trivial,fun _ _ =>
    ⟨hm,fun _ _ => ⟨trivial,fun _ _ => rfl⟩⟩⟩⟩⟩⟩

theorem evictLoop_idle (n : Nat) : openMonitor.Keeps (fun m => m=.idle) (evictLoop n) := by
  induction n with
  | zero => exact keeps_halt
  | succ n ih =>
    rintro m rfl
    refine wp_section trivial trivial fun r => ⟨trivial,?_⟩
    cases r with
    | none => rfl
    | some h => exact openMonitor.wp_seq (close_wp (.inr rfl)) fun _ m hm => ih m hm

/-- The stance of a task whose spawn has ended with `res`. -/
def Spawned (res : Except String (DbHandle × Option Token)) (m : Stance) : Prop :=
  match res with
  | .error _ => m=.idle
  | .ok (h,token) => m=⟨some h,none,token⟩

theorem spawnFresh_brings (key : WorkerKey) :
    openMonitor.wp (spawnFresh key true) Spawned .idle := by
  refine openMonitor.wp_seq (keeps_probe (I := fun m => m=.idle) _ rfl) fun r m hm => ?_
  subst hm
  cases r with
  | error e => rfl
  | ok probe =>
    simp only
    cases probe.backend with
    | none => rfl
    | some backend =>
      rw [Monitor.wp_bind]
      refine ⟨trivial,fun n _ => openMonitor.wp_seq (evictLoop_idle n _ rfl) fun _ m hm => ?_⟩
      subst hm
      refine wp_section trivial trivial fun r => ⟨trivial,?_⟩
      cases r <;> rfl

theorem spawnWorker_brings (path : Path) (tenantId : Option String) :
    openMonitor.wp (spawnWorker path tenantId true) Spawned .idle := by
  refine openMonitor.wp_seq (keeps_canonical (I := fun m => m=.idle) path _ rfl) fun _ m hm => ?_
  subst hm
  refine wp_section trivial trivial fun r => ⟨trivial,?_⟩
  cases r with
  | some ht => rfl
  | none =>
    rw [Monitor.wp_bind]
    refine ⟨trivial,fun _ _ => openMonitor.wp_seq (spawnFresh_brings _) fun res m hm => ?_⟩
    rw [Monitor.wp_bind]
    exact ⟨trivial,fun _ _ => hm⟩

theorem issueFor_wp (h : DbHandle) (m : Stance) :
    openMonitor.wp (issueFor h) (fun _ _ => True) m := by
  simp only [issueFor,issueRefForHandle,locked,withLock,Monitor.wp_bind,Monitor.wp_perform,
    Monitor.wp_pure]
  exact ⟨trivial,fun _ _ => ⟨trivial,fun _ _ => ⟨trivial,fun _ _ => trivial⟩⟩⟩

theorem openFresh_wp (h : DbHandle) (canonical canonicalOpen : Path) (idbOutput : Option Path)
    {m : Stance} (hm : m.opening=some h) :
    openMonitor.wp (openFresh h canonical canonicalOpen idbOutput) (fun _ _ => True) m := by
  have hend (I : Stance → Prop) : openMonitor.Keeps I (world (.isSbpfElf canonical) >>= fun b =>
      if b=true then detectAndRenameSbpfEntry h >>= fun _ => pure (.ok ())
      else pure (.ok ()) : Run (Except ToolError Unit)) := by
    refine keeps_bind (keeps_world _) fun b => ?_
    split
    · exact keeps_bind (keeps_detectAndRename keeps_request _) fun _ => keeps_pure _
    · exact keeps_pure _
  refine openMonitor.wp_seq (keeps_request (I := fun m => m.opening=some h) _ _ _ m hm) ?_
  intro r m hm
  cases r with
  | ok v =>
    cases idbOutput with
    | none => exact hend (fun _ => True) m trivial
    | some idb =>
      exact openMonitor.wp_seq (keeps_world (I := fun _ => True) _ m trivial) fun _ m hm =>
        hend (fun _ => True) m hm
  | error e => exact openMonitor.wp_seq (close_wp (.inl hm)) fun _ _ _ => trivial

theorem ensure_wp (path : Path) (idb : Option Path) (tenantId : Option String) :
    openMonitor.wp (ensureWorkerWithRefIdb path idb tenantId) (fun _ _ => True) .idle := by
  refine openMonitor.wp_seq (keeps_world (I := fun m => m=.idle) _ _ rfl) fun resolved m hm => ?_
  refine openMonitor.wp_seq (keeps_canonical (I := fun m => m=.idle) _ _ hm) fun canonical m hm =>
    ?_
  refine openMonitor.wp_seq
    (keeps_canonical (I := fun m => m=.idle) _ _ hm) fun canonicalOpen m hm => ?_
  refine openMonitor.wp_seq ((keeps_lock (keeps_plain trivial) :
    openMonitor.Keeps (fun m => m=.idle) (locked (.ensureLookup _))) _ hm) fun r m hm => ?_
  subst hm
  cases r with
  | some h => exact issueFor_wp h _
  | none =>
    refine openMonitor.wp_seq (spawnWorker_brings _ _) fun res m hm => ?_
    cases res with
    | error e => trivial
    | ok x =>
      obtain ⟨h,token⟩:=x
      obtain rfl : m=⟨some h,none,token⟩ := hm
      have hopen : ∀ m : Stance,m.opening=some h → openMonitor.wp
          (openAndIssue h canonical canonicalOpen (idb.orElse fun _ => resolved.idbOutputPath))
          (fun _ _ => True) m := fun m hm =>
        openMonitor.wp_seq (openFresh_wp h _ _ _ hm) fun r m _ => by
          cases r with
          | error e => trivial
          | ok _ => exact issueFor_wp h m
      cases token with
      | none => exact hopen _ rfl
      | some t =>
        simp only [releaseRefToken,locked,withLock,Monitor.wp_bind,Monitor.wp_perform,
          Monitor.wp_pure]
        exact ⟨trivial,fun _ _ => ⟨rfl,fun _ _ => ⟨trivial,fun _ _ => hopen _ rfl⟩⟩⟩

end Opening

/-! ### Runs -/

def stanceOf (u : Lib.Task Op.Res Job) : Stance := openMonitor.track (fun _ => .idle) u

/-- The workers for which the step issues a reference of its own. -/
def directBy : Lib.Event Op.Res → List DbHandle
  | ⟨.inner o,_⟩ => o.direct
  | _ => []

/-- The worker that a spawn for `ensure_worker_with_ref_idb` finds instead of starting one. -/
def foundFor : Lib.Event Op.Res → List DbHandle
  | ⟨.inner (.spawnLookup _ true),r⟩ => r.toList.map Prod.fst
  | ⟨.inner (.spawnRegister _ _ true),r⟩ => match r with
    | .reused h _ => [h]
    | _ => []
  | _ => []

/-- No reference is issued for a worker that another task is opening or evicting, and the
worker that a call is about to open a second time has no such reference. -/
def Unshared (p : Service) : Move → Prop
  | .run i e => (∀ h∈directBy e,∀ u∈p.tasks.eraseIdx i,¬(stanceOf u).On h) ∧
      ∀ h∈foundFor e,∀ t∈p.state.inner.refs h,isCli t=false
  | .start _ => True

instance (p : Service) : (l : Move) → Decidable (Unshared p l)
  | .run i e => inferInstanceAs (Decidable ((∀ h∈directBy e,∀ u∈p.tasks.eraseIdx i,
      ¬(stanceOf u).On h) ∧ ∀ h∈foundFor e,∀ t∈p.state.inner.refs h,isCli t=false))
  | .start _ => inferInstanceAs (Decidable True)

def Sparing (p : Service) (l : Move) : Prop := Fresh p l ∧ Unshared p l

instance (p : Service) (l : Move) : Decidable (Sparing p l) :=
  inferInstanceAs (Decidable (Fresh p l ∧ Unshared p l))

section Step
variable {cfg : RouterConfig} {i : Nat} {env : Env} {s t : Shared}

theorem exec_refs {r : op.Res} (hx : exec cfg i op env s=some (r,t))
    (hu : u∈t.inner.refs h) : u∈s.inner.refs h ∨ (h,u)∈issuedBy (.run i ⟨op,r⟩) := by
  by_cases ho : ∃ o,op=.inner o
  · obtain ⟨o,rfl⟩:=ho
    obtain ⟨sends,inner,hc,rfl⟩:=exec_inner cfg hx
    exact hc.refs_origin hu
  · rw [(exec_outer cfg hx fun o he => ho ⟨o,he⟩).inner] at hu
    exact .inl hu

theorem issued_cli {r : op.Res} (hx : exec cfg i op env s=some (r,t))
    (hm : (h,u)∈issuedBy (.run i ⟨op,r⟩)) (hc : isCli u=true) : op=.inner (.issueRef h) := by
  cases op with
  | inner o =>
    obtain ⟨y,hy,hn,he⟩:=(run_stamps cfg o env s.inner).2 (h,u) (by cases hx; exact hm)
    obtain ⟨maker,now,counter⟩:=y
    cases maker with
    | handle => exact absurd rfl hn
    | reuse | close =>
      obtain rfl : refToken now env.pid counter=u := he
      rw [isCli_refToken] at hc
      cases hc
    | cli =>
      cases o with
      | issueRef x =>
        cases List.mem_singleton.mp hm
        rfl
      | spawnLookup key b =>
        simp only [InnerOp.stamps] at hy
        split at hy
        · cases List.mem_singleton.mp hy
        · cases hy
      | spawnRegister key backend b =>
        simp only [InnerOp.stamps] at hy
        split at hy
        · cases hy
        split at hy
        · cases List.mem_singleton.mp hy
        rcases List.mem_cons.mp hy with hy | hy
        · cases hy
        split at hy
        · cases hy
        · cases List.mem_singleton.mp hy
      | _ => cases hm
  | _ => cases hm

theorem dropTokens_token {s : RouterInner} {x : DbHandle} (hu : s.tokenToHandle.get u=some h)
    (hn : u∉s.refs x) : (s.dropTokens x).tokenToHandle.get u=some h := by
  unfold RouterInner.dropTokens
  split
  · next ts hts =>
    refine (Map.get_keep _ _ _ _).mpr ⟨hu,decide_eq_true fun hm => hn ?_⟩
    rw [RouterInner.refs,hts]
    exact hm
  · exact hu

theorem token_stays {o : InnerOp} {r : o.Res} (hx : exec cfg i (.inner o) env s=some (r,t))
    (hu : s.inner.tokenToHandle.get u=some h) (hi : ∀ x∈o.issued r,x.2≠u)
    (hrel : ∀ b,o≠.releaseRefToken u b)
    (hrem : ∀ y∈o.removes,u∉s.inner.refs y) : t.inner.tokenToHandle.get u=some h := by
  have hbind : ∀ (s : RouterInner) (x : DbHandle) (v : Token),s.tokenToHandle.get u=some h → v≠u →
      (s.tokenToHandle.insert v x).get u=some h := fun s x v hs hv => by
    rw [Map.get_insert,if_neg (Ne.symm hv)]
    exact hs
  have hgone : ∀ (x : DbHandle) (w : WorkerProcess) (pick : Nat),u∉s.inner.refs x →
      (s.inner.without x w pick).tokenToHandle.get u=some h := fun x w pick hn => by
    rw [RouterInner.without_tokenToHandle]
    exact dropTokens_token hu hn
  cases hx
  cases o with
  | spawnLookup key b =>
    change (s.inner.spawnLookup key env.now env.pid).2.tokenToHandle.get u=some h
    cases hk : s.inner.pathToHandle.get key with
    | none => simpa only [RouterInner.spawnLookup,hk] using hu
    | some x =>
      simp only [InnerOp.run,InnerOp.issued,RouterInner.spawnLookup,hk] at hi ⊢
      exact hbind _ _ _ hu (hi _ (List.mem_singleton_self _))
  | spawnRegister key backend b =>
    change (RouterInner.spawnRegister ..).2.tokenToHandle.get u=some h
    simp only [InnerOp.run,InnerOp.issued] at hi
    unfold RouterInner.spawnRegister at hi ⊢
    by_cases ht : cfg.maxWorkersPerTenant ≤ s.inner.tenantWorkers key.tenantId
    · simpa only [if_pos ht] using hu
    by_cases hw : cfg.maxWorkers ≤ s.inner.workers.size
    · simpa only [if_neg ht,if_pos hw] using hu
    simp only [if_neg ht,if_neg hw] at hi ⊢
    cases hk : s.inner.pathToHandle.get key with
    | some x =>
      simp only [hk] at hi ⊢
      exact hbind _ _ _ hu (hi _ (List.mem_singleton_self _))
    | none =>
      simp only [hk] at hi ⊢
      cases he : env.spawnError with
      | some e => exact hu
      | none =>
        simp only [he] at hi
        exact hbind _ _ _ hu (hi _ (List.mem_singleton_self _))
  | issueRef x => exact hbind _ _ _ hu (hi _ (List.mem_singleton_self _))
  | releaseRefToken v b =>
    have hv : u≠v := fun he => hrel b (by rw [he])
    change (s.inner.releaseRefToken v).2.tokenToHandle.get u=some h
    unfold RouterInner.releaseRefToken
    split
    · exact hu
    · dsimp only
      split <;> exact (Map.get_remove _ _ _).trans ((if_neg hv).trans hu)
  | closeRemove x why =>
    change (s.inner.closeRemove x env.pick).2.tokenToHandle.get u=some h
    unfold RouterInner.closeRemove
    split
    · exact hgone x _ _ (hrem x (List.mem_singleton_self _))
    · exact hu
  | readerEof x =>
    change (s.inner.readerEof x env.pick).2.tokenToHandle.get u=some h
    unfold RouterInner.readerEof
    split
    · exact hgone x _ _ (hrem x (List.mem_singleton_self _))
    · exact hu
  | readerError x e =>
    change (s.inner.readerError x e env.pick).2.tokenToHandle.get u=some h
    unfold RouterInner.readerError
    split
    · exact hgone x _ _ (hrem x (List.mem_singleton_self _))
    · dsimp only
      rw [RouterInner.repoint_tokenToHandle]
      exact dropTokens_token hu (hrem x (List.mem_singleton_self _))
  | routeRegister x id c =>
    change (s.inner.routeRegister cfg x id c env.written env.instant).2.tokenToHandle.get u=some h
    unfold RouterInner.routeRegister
    split
    · exact hu
    split
    · exact hu
    split
    · exact hu
    split <;> exact hu
  | ensureLookup key =>
    change (s.inner.ensureLookup key env.instant).2.tokenToHandle.get u=some h
    unfold RouterInner.ensureLookup
    split
    · dsimp only
      split <;> exact hu
    · exact hu
  | readerLine x resp =>
    change (s.inner.readerLine x resp).2.tokenToHandle.get u=some h
    unfold RouterInner.readerLine
    split
    · split <;> exact hu
    · exact hu
  | _ => exact hu

theorem brought_cases
    (hb : Stance.brought e=some (h,u)) : (h,u)∈issuedBy (.run i e) ∧ directBy e=[] ∧
      (h∈foundFor e ∨ h∈madeBy (.run i e)) := by
  obtain ⟨op,r⟩:=e
  cases op with
  | inner o => cases o with
    | spawnLookup key b =>
      cases b with
      | false => cases hb
      | true =>
        obtain rfl : r=some (h,u) := hb
        exact ⟨List.mem_singleton_self _,rfl,.inl (List.mem_singleton_self _)⟩
    | spawnRegister key backend b =>
      cases b with
      | false => cases hb
      | true =>
        cases r with
        | refused => cases hb
        | reused =>
          cases hb
          exact ⟨List.mem_singleton_self _,rfl,.inl (List.mem_singleton_self _)⟩
        | fresh =>
          cases hb
          exact ⟨List.mem_singleton_self _,rfl,.inr (List.mem_singleton_self _)⟩
    | _ => cases hb
  | _ => cases hb

theorem issued_plain {r : op.Res} (hx : exec cfg i op env s=some (r,t))
    (hm : (h,u)∈issuedBy (.run i ⟨op,r⟩)) (hd : directBy ⟨op,r⟩=[]) : isCli u=false := by
  by_contra hc
  obtain rfl:=issued_cli hx hm (Bool.not_eq_false _ ▸ hc)
  cases hd

end Step

namespace Stance

/-- Everything that `m` has its hands on, `n` has. -/
def Below (m n : Stance) : Prop :=
  (∀ h,m.opening=some h → n.opening=some h) ∧ ∀ h,m.evicting=some h → n.evicting=some h

theorem Below.on {m n : Stance} (hb : m.Below n) (hm : m.On h) : n.On h :=
  hm.imp (hb.1 h) (hb.2 h)

theorem Below.next {m n : Stance} (hb : m.Below n) (e : Lib.Event Op.Res) :
    (m.next e).Below (n.next e) := by
  unfold Stance.next
  split
  · exact ⟨fun _ h => h,hb.2⟩
  · split
    · exact ⟨hb.1,fun _ h => h⟩
    · exact ⟨nofun,nofun⟩
    · exact hb
    · exact ⟨nofun,nofun⟩
    · exact hb

theorem direct_of_on {m : Stance} (hn : (m.next e).On h) : directBy e=[] := by
  obtain ⟨op,r⟩:=e
  cases op with
  | inner o => cases o with
    | issueRef x => rcases hn with hn | hn <;> cases hn
    | _ => rfl
  | _ => rfl

theorem on_origin {m : Stance} (hn : (m.next e).On h) :
    m.On h ∨ (∃ u,brought e=some (h,u)) ∨ e=⟨.inner .evictCandidate,some h⟩ := by
  unfold Stance.next at hn
  split at hn
  · next x u hb =>
    rcases hn with hn | hn
    · obtain rfl : x=h := Option.some.inj hn
      exact .inr (.inl ⟨u,hb⟩)
    · exact .inl (.inr hn)
  · split at hn
    · next r _ =>
      rcases hn with hn | hn
      · exact .inl (.inl hn)
      · obtain rfl : r=some h := hn
        exact .inr (.inr rfl)
    · rcases hn with hn | hn <;> cases hn
    · exact .inl hn
    · rcases hn with hn | hn <;> cases hn
    · exact .inl hn

theorem initial_origin {m : Stance}
    (hn : (m.next e).initial=some u) : m.initial=some u ∨ ∃ h,brought e=some (h,u) := by
  unfold Stance.next at hn
  split at hn
  · next x v hb =>
    obtain rfl : v=u := Option.some.inj hn
    exact .inr ⟨x,hb⟩
  · split at hn
    · exact .inl hn
    · exact .inl hn
    · cases hn
    · exact .inl hn
    · exact .inl hn

end Stance

/-- What the task `i` relies on while it is within the call. -/
structure Holding (i : Nat) (p : Service) (m : Stance) : Prop where
  task : ∃ u,p.tasks[i]?=some u ∧ m.Below (stanceOf u)
  clear : ∀ h,m.On h → ∀ t∈p.state.inner.refs h,isCli t=false
  initial : ∀ t,m.initial=some t → isCli t=false

namespace Holding
variable {cfg : RouterConfig} {i : Nat} {p q : Service} {m : Stance}

theorem other (hm : Holding i p m) {l : Move} (hs : (service cfg).Step p l q) (hc : Sparing p l)
    (hl : ∀ e,l≠.run i e) : Holding i q m := by
  obtain ⟨u,hu,hb⟩:=hm.task
  refine ⟨⟨u,hs.task_stays hu hl,hb⟩,fun h ho v hv => ?_,hm.initial⟩
  cases hs with
  | start => exact hm.clear h ho v hv
  | @run j t op k env r s ht hk hx =>
    by_contra hcli
    rcases exec_refs hx hv with hv | hi
    · exact hcli (hm.clear h ho v hv)
    · obtain rfl:=issued_cli hx hi (Bool.not_eq_false _ ▸ hcli)
      have hj : i≠j := fun he => hl _ (by rw [he])
      have hmem : u∈p.tasks.eraseIdx j := List.mem_eraseIdx_iff_getElem?.mpr ⟨i,hj,hu⟩
      exact hc.2.1 h (List.mem_singleton_self _) u hmem (hb.on ho)

theorem own (hm : Holding i p m) {t : Lib.Task Op.Res Job} (f : op.Res → Run Unit) {env : Env}
    {r : op.Res} {s : Shared} (ht : p.tasks[i]?=some t) (hx : exec cfg i op env p.state=some (r,s))
    (hc : Sparing p (.run i ⟨op,r⟩)) :
    Holding i ((service cfg).resumed p i t op f r s) (m.next ⟨op,r⟩) := by
  obtain ⟨u,hu,hb⟩:=hm.task
  rw [ht] at hu
  cases hu
  refine ⟨⟨_,(service cfg).resumed_self ht op f r s,hb.next ⟨op,r⟩⟩,fun h ho v hv => ?_,fun v hv =>
    ?_⟩
  · have hd:=Stance.direct_of_on ho
    have hnew : (∀ w∈p.state.inner.refs h,isCli w=false) → isCli v=false :=
      fun hold => (exec_refs hx hv).elim (hold v) fun hi => issued_plain hx hi hd
    rcases Stance.on_origin ho with ho | ⟨w,hw⟩ | he
    · exact hnew (hm.clear h ho)
    · obtain ⟨-,-,hf | hmade⟩:=brought_cases (i := i) hw
      · exact hnew (hc.2.2 h hf)
      · -- a worker just made has the reference it was made with
        cases op with
        | inner o =>
          obtain ⟨sends,inner,hch,rfl⟩:=exec_inner cfg hx
          exact issued_plain hx (hch.refs_made hmade hv) hd
        | _ => cases hmade
    · cases he
      have hpick : p.state.inner.evictCandidate cfg env.pick=some h :=
        congrArg Prod.fst (Option.some.inj hx)
      refine hnew fun w hw => ?_
      rw [(Unused.of_evictCandidate hpick).1] at hw
      cases hw
  · rcases Stance.initial_origin hv with hv | ⟨h,hb⟩
    · exact hm.initial v hv
    · obtain ⟨hi,hd,-⟩:=brought_cases (i := i) hb
      exact issued_plain hx hi hd

end Holding

/-- No section of the call takes a worker from a reference that another call has returned,
nor makes that reference invalid. -/
theorem ensure_spares (cfg : RouterConfig) {p q : Service} {i : Nat} {t : Lib.Task Op.Res Job}
    {k : Except ToolError (DbHandle × Token) → Run Unit} {path : Path} {idb : Option Path}
    {tenantId : Option String} {ms : List Section} {res : Except ToolError (DbHandle × Token)}
    (hr : (service cfg).Reach Sparing (.new cfg) p) (ht : p.tasks[i]?=some t)
    (hx : (service cfg).Executes Sparing i k
      (ensureWorkerWithRefIdb path idb tenantId) p ms res q) :
    ∀ x∈ms,∀ u h w,isCli u=true → x.before.inner.tokenToHandle.get u=some h →
      x.before.inner.workers.get h=some w →
      x.after.inner.tokenToHandle.get u=some h ∧ ∃ v,x.after.inner.workers.get h=some v := by
  have h0 : Holding i p .idle := by
    refine ⟨⟨t,ht,nofun,nofun⟩,fun h ho => ?_,nofun⟩
    rcases ho with ho | ho <;> cases ho
  refine (hx.rule openMonitor (Φ := Holding i) hr (Opening.ensure_wp path idb tenantId) h0
    (fun _ _ _ _ _ => trivial) (fun _ _ _ _ _ hm hs hc hl => hm.other hs hc hl) ?_).1
  intro p t op f env r s m hp hm ht hx hc ha
  refine ⟨?_,hm.own f ht hx hc⟩
  obtain ⟨hreg,hknown⟩:=(registry_holds cfg (fun _ _ h => h.1) hp).1
  intro u h w hcli hu hw
  dsimp only at hu hw ⊢
  by_cases ho : ∃ o,op=.inner o
  · obtain ⟨o,rfl⟩:=ho
    have hremoves : ∀ y∈o.removes,u∉p.state.inner.refs y := by
      intro y hy hmem
      have hcl : m.On y := by
        cases o with
        | closeRemove x why => rw [List.mem_singleton.mp hy]; exact ha
        | readerEof | readerError => exact ha.elim
        | _ => cases hy
      rw [hm.clear y hcl u hmem] at hcli
      cases hcli
    refine ⟨token_stays hx hu
      (fun x hx' he => hc.1.2 x hx' (he ▸ hknown.tokens u h hu)) ?_ hremoves,?_⟩
    · rintro b rfl
      rw [hm.initial u ha] at hcli
      cases hcli
    · obtain ⟨sends,inner,hch,rfl⟩:=exec_inner cfg hx
      refine (hch.worker_stays hw).resolve_right fun hrem => hremoves h hrem ?_
      obtain ⟨ts,hts,hut⟩:=(hreg.tokens u h).mp hu
      rw [RouterInner.refs,hts]
      exact hut
  · have hs:=(exec_outer cfg hx fun o he => ho ⟨o,he⟩).inner
    rw [hs]
    exact ⟨hu,w,hw⟩

/-! ### Two calls for one path -/

/-- The rest of a CLI request after `ensure_worker_with_ref`. -/
def afterEnsure (method : String) (params : Json) : Except ToolError (DbHandle × Token) → Run Unit
  | .error e => answerCli (.error (-32000,e.text))
  | .ok (handle,token) => do
    let result ← routeRequest (some handle) method params
    act (.spawn (.releaseRef token))
    answerCli (cliResult result)

theorem cli_body (tenant : String) (path : Path) : Job.body (cliOf tenant path)=
    (Prog.ret ()).bind fun _ : Unit => (ensureWorkerWithRefIdb path none (some tenant)).bind
      (afterEnsure "list_functions"
        (.ofFields [("path",.str path),("tenant_id",.str tenant)])) := by
  have hpath : fieldStr (.ofFields [("path",.str path),("tenant_id",.str tenant)]) "path"=
    some path := by
    rw [fieldStr,Json.get?_ofFields]
    rfl
  have htenant : fieldStr (.ofFields [("path",.str path),("tenant_id",.str tenant)]) "tenant_id"=
      some tenant := by
    rw [fieldStr,Json.get?_ofFields]
    rfl
  have hname : Tools.primaryNameFor "list_functions"="list_functions" := by decide +kernel
  simp only [Job.body,cliOf,dispatchCliRequest,hname,hpath,htenant,String.reduceEq,ite_false,
    cliRequest]
  rfl

theorem play_ensure {C : Service → Move → Prop} [∀ p l,Decidable (C p l)]
    (hC : ∀ p job,C p (.start job)) (as : List (Lib.Act Job Env)) (tenant : String) (path : Path)
    (rest : List (Lib.Act Job Env))
    (test : List Section → Except ToolError (DbHandle × Token) → Bool)
    (h : ((service sampleConfig).play (fun p l => decide (C p l)) as ⟨.new sampleConfig,[]⟩).any
      (fun p =>
      ((service sampleConfig).follow p.tasks.length (fun _ : Unit =>
        (ensureWorkerWithRefIdb path none (some tenant)).bind (afterEnsure "list_functions"
          (.ofFields [("path",.str path),("tenant_id",.str tenant)])))
        (fun p l => decide (C p l)) [] (.ret ())
        ⟨p.state,p.tasks++[(service sampleConfig).newTask (cliOf tenant path)]⟩).any fun x =>
      ((service sampleConfig).follow p.tasks.length (afterEnsure "list_functions"
          (.ofFields [("path",.str path),("tenant_id",.str tenant)]))
            (fun p l => decide (C p l)) rest
        (ensureWorkerWithRefIdb path none (some tenant)) x.2.2).any fun y => test y.1 y.2.1)=true) :
    ∃ p i t k ms res q,(service sampleConfig).Reach C (.new sampleConfig) p ∧ p.tasks[i]?=some t ∧
      (service sampleConfig).Executes C i k
        (ensureWorkerWithRefIdb path none (some tenant)) p ms res q ∧
      test ms res=true := by
  obtain ⟨p,i,t,x,ms,res,q,hr,ht,hx,hy⟩:=Lib.Machine.play_call (K := service sampleConfig) (C := C)
    (fun _ _ h => of_decide_eq_true h) (.new sampleConfig) as (cliOf tenant path) rfl
    (fun p => hC p _) (cli_body tenant path) [] rest (fun _ ms res => test ms res) h
  exact ⟨p,i,t,_,ms,res,q,hr,ht,hx,hy⟩

/-- The lookups of a CLI request for `path`. -/
def lookupInputs (path : Path) : List Env :=
  {}::{path := path}::{canonical := some path}::{path := path}::{canonical := some path}::idles 3

/-- Task `i` opens `/a` in a fresh worker, whose reader is the task after it, and returns
its reference. -/
def openOk (i : Nat) : List (Lib.Act Job Env) :=
  steps i (lookupInputs "/a"++spawnInputs "/a" 1++idles 13)++
    steps (i+1) ({rounds := 5}::{line := .response ⟨"r1",some .null,none⟩}::idles 3)++
    steps i (idles 3++{now := 3}::idles 1)

def Section.losesCli (x : Section) : Bool :=
  x.before.inner.tokenToHandle.keysOf.any fun u =>
    isCli u && (x.after.inner.tokenToHandle.get u).isNone

theorem losesCli_token {x : Section} (hx : x.losesCli=true) :
    ∃ u h,isCli u=true ∧ x.before.inner.tokenToHandle.get u=some h ∧
      x.after.inner.tokenToHandle.get u=none := by
  obtain ⟨u,hm,hn⟩:=List.any_eq_true.mp hx
  obtain ⟨hc,hn⟩:=Bool.and_eq_true_iff.mp hn
  obtain ⟨h,hh⟩:=(Map.mem_keysOf _ u).mp hm
  exact ⟨u,h,hc,hh,Option.isNone_iff_eq_none.mp hn⟩

/-- A request opens `/a` and returns its reference; another fails to open `/b`. -/
theorem ensure_spares_one : ∃ p i t k res q,∃ ms : List Section,
    (service sampleConfig).Reach Sparing (.new sampleConfig) p ∧ p.tasks[i]?=some t ∧
      (service sampleConfig).Executes Sparing i k
        (ensureWorkerWithRefIdb "/b" none (some "x")) p ms res q ∧
      (∃ x∈ms,x.takesAny=true ∧ (x.before.inner.tokenToHandle.keysOf.any isCli)=true) ∧
      ∀ x∈ms,∀ u h w,isCli u=true → x.before.inner.tokenToHandle.get u=some h →
        x.before.inner.workers.get h=some w →
        x.after.inner.tokenToHandle.get u=some h ∧ ∃ v,x.after.inner.workers.get h=some v := by
  obtain ⟨p,i,t,k,ms,res,q,hr,ht,hx,hy⟩:=play_ensure (C := Sparing)
    (fun _ _ => ⟨⟨nofun,nofun⟩,trivial⟩) (.start (cliOf "x" "/a")::openOk 0) "x" "/b"
    (steps 2 (lookupInputs "/b"++respawnInputs "/b" 8++idles 11++{written := .pipeClosed}::idles 7))
    (fun ms _ => ms.any fun x => x.takesAny && x.before.inner.tokenToHandle.keysOf.any isCli)
    (by decide +kernel)
  obtain ⟨x,hm,hb⟩:=List.any_eq_true.mp hy
  exact ⟨p,i,t,k,res,q,ms,hr,ht,hx,⟨x,hm,Bool.and_eq_true_iff.mp hb⟩,
    ensure_spares sampleConfig hr ht hx⟩

/-- Two requests look the path up, the first opens it and returns its reference; the other is
handed the same worker, is told that the database is open, and closes it. -/
theorem ensure_takes : ∃ p i t k e q,∃ ms : List Section,
    (service sampleConfig).Reach Fresh (.new sampleConfig) p ∧ p.tasks[i]?=some t ∧
      (service sampleConfig).Executes Fresh i k (ensureWorkerWithRefIdb "/a" none (some "x")) p ms
        (.error e) q ∧
      ∃ x∈ms,∃ u h,isCli u=true ∧ x.before.inner.tokenToHandle.get u=some h ∧
        x.after.inner.tokenToHandle.get u=none := by
  obtain ⟨p,i,t,k,ms,res,q,hr,ht,hx,hy⟩:=play_ensure (C := Fresh) (fun _ _ => ⟨nofun,nofun⟩)
    [] "x" "/a"
    (steps 0 (lookupInputs "/a")++.start (cliOf "x" "/a")::openOk 1++
      steps 0 ({path := "/a"}::{canonical := some "/a"}::idles 1++{now := 5}::idles 14)++
      steps 2 ({line := .response ⟨"r4",none,some "Database already open"⟩}::idles 3)++
      steps 0 (idles 7))
    (fun ms res => res.toOption.isNone && ms.any Section.losesCli) (by decide +kernel)
  obtain ⟨he,hm⟩:=Bool.and_eq_true_iff.mp hy
  obtain ⟨e,rfl⟩:=error_of_none he
  obtain ⟨x,hx',hk⟩:=List.any_eq_true.mp hm
  exact ⟨p,i,t,k,e,q,ms,hr,ht,hx,x,hx',losesCli_token hk⟩

end Router
