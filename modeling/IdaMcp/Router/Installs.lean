import IdaMcp.Lib.Hands
import IdaMcp.Router.Frame
import IdaMcp.Router.Changes

/-!
# The size of the warm pool

`install_warm_lease` tests the size of the pool in one section and inserts in
another. An installer that has found room and not yet inserted has a place in
hand; the pool stays within its bound as long as there is a place for each.
-/

namespace Router
open Lib (Map Json Monitor)
open Lib.Monitor (keeps_pure keeps_halt keeps_bind keeps_perform)

/-- The section in which an installer finds room: the pool is not full, or it has
nothing to give up. -/
def findsRoom : Lib.Event Op.Res → Bool
  | ⟨.warm .full,full⟩ => !full
  | ⟨.warm .oldest,path⟩ => path.isNone
  | _ => false

/-- Whether the task has found room and not yet used it. -/
def roomMonitor : Monitor Op.Res Bool where
  next m e := match e with
    | ⟨.warm (.insert _ _ _ _ _),_⟩ => false
    | e => findsRoom e || m
  allowed m op := match op with
    | .warm (.insert _ _ _ _ _) => m=true
    | _ => True
  good _ _ := True

namespace Installs

abbrev Out (m : Bool) : Prop := m=false

theorem keeps_op {op : Op} (h : ∀ o,op≠.warm o) : roomMonitor.Keeps Out (act op) := by
  refine keeps_perform fun m hm => ⟨?_,fun r _ => ?_⟩
  · cases op with
    | warm o => exact absurd rfl (h o)
    | _ => trivial
  · subst hm
    cases op with
    | warm o => exact absurd rfl (h o)
    | _ => rfl

theorem keeps_plain (op : Op) (_ : op.followed=false) (h : op.staged=false) :
    roomMonitor.Keeps Out (act op) := by
  by_cases ho : ∃ o,op=.warm o
  · obtain ⟨o,rfl⟩:=ho
    cases o <;> first
      | exact keeps_perform fun m hm => ⟨trivial,fun _ _ => hm⟩
      | cases h
  · exact keeps_op fun o he => ho ⟨o,he⟩

theorem keeps_retain (h : DbHandle) : roomMonitor.Keeps Out (act (.warm (.retain h))) :=
  keeps_perform fun _ hm => ⟨trivial,fun _ _ => hm⟩

theorem keeps_take (path : Path) : roomMonitor.Keeps Out (act (.warm (.take path))) :=
  keeps_perform fun _ hm => ⟨trivial,fun _ _ => hm⟩

theorem keeps_inner (o : InnerOp) : roomMonitor.Keeps Out (act (.inner o)) := keeps_op nofun

theorem keeps_close (h : DbHandle) (why : Reason) : roomMonitor.Keeps Out (closeWorker h why) :=
  Unstaged.closeWorker keeps_plain (keeps_retain h) (keeps_inner _)

theorem keeps_lease (path : Path) : roomMonitor.Keeps Out (releaseWarmLease path) :=
  Unstaged.releaseWarmLease keeps_plain keeps_take
    (fun _ => Unstaged.withLock keeps_plain (keeps_inner _)) (fun h => keeps_close h _) path

theorem makeRoom_finds (n : Nat) : roomMonitor.wp (makeRoom n) (fun _ m => m=true) false := by
  induction n with
  | zero => trivial
  | succ n ih =>
    refine wp_section trivial trivial fun full => ⟨trivial,?_⟩
    cases full with
    | false => rfl
    | true =>
      refine wp_section trivial trivial fun r => ⟨trivial,?_⟩
      cases r with
      | none => rfl
      | some path =>
        rw [Monitor.wp_bind]
        exact roomMonitor.wp_mono (keeps_lease path false rfl) fun _ m hm => hm ▸ ih

theorem keeps_install (path : Path) (handle : DbHandle) (token : Token) (tenantId : String)
    (cache : Option Path) :
    roomMonitor.Keeps Out (installWarmLease path handle token tenantId cache) := by
  rintro m rfl
  unfold installWarmLease
  rw [Monitor.wp_bind]
  refine ⟨trivial,fun n _ => ?_⟩
  refine roomMonitor.wp_seq (makeRoom_finds n) fun _ m hm => ?_
  subst hm
  simp only [withLock,Monitor.wp_bind,Monitor.wp_perform,Monitor.wp_pure]
  exact ⟨trivial,fun _ _ => ⟨rfl,fun _ _ => ⟨trivial,fun _ _ => rfl⟩⟩⟩

theorem refs : Refs roomMonitor Out :=
  Unstaged.refs keeps_plain
    (Unstaged.enqueueTask keeps_plain fun op h => keeps_op fun o ho => by subst ho; cases h)
    (Unstaged.routeRequest keeps_plain (fun o _ => keeps_inner o) (fun _ => keeps_op nofun)
      fun _ => keeps_op nofun)
    (fun o _ _ _ => keeps_inner o) keeps_close
    (keeps_drivePrewarm (Unstaged.withLock keeps_plain (keeps_op nofun)) fun _ => keeps_op nofun)

theorem core : Core roomMonitor Out := ⟨refs,refs.prewarm keeps_install⟩

theorem body (job : Job) : roomMonitor.Keeps Out job.body :=
  core.body job (fun _ _ _ => Unstaged.withLock keeps_plain (keeps_op nofun))
    (fun _ _ _ _ => keeps_op nofun) fun h _ =>
    core.reader h (Unstaged.withLock keeps_plain (keeps_inner _))
      (fun _ => Unstaged.withLock keeps_plain (keeps_inner _))
      fun _ => Unstaged.withLock keeps_plain (keeps_inner _)

end Installs

/-- The installers that have found room and not yet inserted. -/
def placesInHand (p : Service) : Multiset Unit :=
  Lib.hands roomMonitor (fun _ => false) (fun m => if m then {()} else 0) p.tasks

/-- Whoever finds room finds it beside all those who found it before. -/
def RoomForAll (cfg : RouterConfig) (p : Service) : Move → Prop
  | .run _ e => findsRoom e=true →
      Map.size p.state.warmPool+(placesInHand p).card < cfg.maxWarmWorkers
  | .start _ => True

instance (cfg : RouterConfig) (p : Service) : (l : Move) → Decidable (RoomForAll cfg p l)
  | .run _ e => inferInstanceAs (Decidable (findsRoom e=true →
      Map.size p.state.warmPool+(placesInHand p).card < cfg.maxWarmWorkers))
  | .start _ => inferInstanceAs (Decidable True)

theorem size_warmRun (cfg : RouterConfig) (o : WarmOp) (env : Env) (pool : WarmPool)
    (ho : ∀ path h t tenant cache,o≠.insert path h t tenant cache) :
    Map.size (o.run cfg env pool).2 ≤ Map.size pool := by
  cases o with
  | insert path h t tenant cache => exact absurd rfl (ho path h t tenant cache)
  | retain h => exact List.length_filter_le ..
  | take path =>
    have hle:=Map.sum_remove_le pool path fun _ => 1
    rwa [← Map.size_eq_sum,← Map.size_eq_sum] at hle
  | full | oldest | pinned | list => exact Nat.le_refl _

theorem warm_pool_places (cfg : RouterConfig) {p : Service}
    (hr : (service cfg).Reach (RoomForAll cfg) (.new cfg) p) :
    Map.size p.state.warmPool+(placesInHand p).card ≤ cfg.maxWarmWorkers := by
  refine Lib.reach_hands roomMonitor (fun _ => false)
    (fun m => if m then ({()} : Multiset Unit) else 0)
    (service cfg) (RoomForAll cfg) (fun _ m => m=false)
    (Ψ := fun s hs => Map.size s.warmPool+hs.card ≤ cfg.maxWarmWorkers)
    (fun job => Installs.body job false rfl) (fun _ _ _ _ _ _ => trivial) (Nat.zero_le _)
    (fun _ _ => rfl) ?_ hr
  intro p i t op env r s rest _ hf hall hb
  have hx : exec cfg i op env p.state=some (r,s) := hf.exec
  have hc : findsRoom ⟨op,r⟩=true → Map.size p.state.warmPool+(placesInHand p).card <
    cfg.maxWarmWorkers := hf.cond
  have hforks : (((service cfg).forks op r).map fun _ =>
    if false then ({()} : Multiset Unit) else 0).sum=0 :=
    List.sum_eq_zero fun x hx => by obtain ⟨_,-,rfl⟩:=List.mem_map.mp hx; rfl
  change Map.size s.warmPool+Multiset.card (_+rest+_) ≤ _
  rw [hforks,add_zero]
  rw [Multiset.card_add] at hb ⊢
  by_cases ho : ∃ o,op=.warm o
  · obtain ⟨o,rfl⟩:=ho
    by_cases hi : ∃ path h t tenant cache,o=.insert path h t tenant cache
    · -- the place in hand becomes a place in the pool
      obtain ⟨path,h,u,tenant,cache,rfl⟩:=hi
      have hm : roomMonitor.track (fun _ => false) t=true := hf.allowed
      cases hx
      have hle:=Map.sum_insert_le p.state.warmPool path
        ⟨h,u,path,cache,tenant,env.instant,env.instant⟩ fun _ => 1
      rw [← Map.size_eq_sum,← Map.size_eq_sum] at hle
      rw [hm] at hb
      change _+(1+_) ≤ _ at hb
      change Map.size (Map.insert p.state.warmPool path _)+(0+Multiset.card rest) ≤ _
      omega
    · have hsize : Map.size s.warmPool ≤ Map.size p.state.warmPool := by
        cases hx
        exact size_warmRun cfg o env _ fun path h t tenant cache he => hi ⟨path,h,t,tenant,cache,he⟩
      have hnext : roomMonitor.next (roomMonitor.track (fun _ => false) t) ⟨.warm o,r⟩=
          (findsRoom ⟨.warm o,r⟩ || roomMonitor.track (fun _ => false) t) := by
        cases o with
        | insert path h u tenant cache => exact absurd ⟨path,h,u,tenant,cache,rfl⟩ hi
        | _ => rfl
      rw [hnext]
      cases hfound : findsRoom ⟨.warm o,r⟩ with
      | false => exact Nat.le_trans (Nat.add_le_add_right hsize _) hb
      | true =>
        have hroom:=hc hfound
        rw [placesInHand,hall,Multiset.card_add] at hroom
        change _+(1+_) ≤ _
        omega
  · have hnext : roomMonitor.next (roomMonitor.track (fun _ => false) t) ⟨op,r⟩=
        roomMonitor.track (fun _ => false) t := by
      cases op with
      | warm o => exact absurd ⟨o,rfl⟩ ho
      | _ => rfl
    rw [hnext,(exec_queues cfg hx).warmPool fun o h => ho ⟨o,h⟩]
    exact hb

/-- In every run that finds room for all, the pool stays within its bound. -/
theorem warm_pool_bound (cfg : RouterConfig) {p : Service}
    (hr : (service cfg).Reach (RoomForAll cfg) (.new cfg) p) :
    Map.size p.state.warmPool ≤ cfg.maxWarmWorkers :=
  Nat.le_trans (Nat.le_add_right _ _) (warm_pool_places cfg hr)

/-- The inputs of a prewarm request for a path that a worker has, up to the first test of the
pool's size. -/
def prewarmInputs (path : Path) (now rounds : Nat) : List Env :=
  {path := path}::{holds := true}::{canonical := some path}::idles 5++
  {path := path}::{canonical := some path}::{path := path}::{canonical := some path}::idles 4++
  {now := now}::idles 12++{written := .pipeClosed}::idles 2++{rounds := rounds}::idles 3

def keepWarm (path : Path) : Job :=
  .cli "prewarm" (.ofFields [("path",.str path),("keep_warm",.bool true)])

theorem warm_pool_bound_one : ∃ p,
    (service sampleConfig).Reach (RoomForAll sampleConfig) (.new sampleConfig) p ∧
      0 < Map.size p.state.warmPool ∧ Map.size p.state.warmPool ≤ sampleConfig.maxWarmWorkers := by
  obtain ⟨p,hp,ht⟩:=(service sampleConfig).play_when (RoomForAll sampleConfig) (.new sampleConfig)
    (openTwo++.start (keepWarm "/a")::steps 4 (prewarmInputs "/a" 3 1++idles 3))
    (fun p => 0 < Map.size p.state.warmPool) (by decide +kernel)
  exact ⟨p,hp,of_decide_eq_true ht,warm_pool_bound sampleConfig hp⟩

/-- Two installers test the size of the empty pool one after the other, then both insert. -/
theorem warm_pool_overfull : ∃ p,
    (service sampleConfig).Reach (fun _ _ => True) (.new sampleConfig) p ∧
      Map.size p.state.warmPool=2 ∧ sampleConfig.maxWarmWorkers=1 := by
  obtain ⟨p,hp,ht⟩:=(service sampleConfig).play_free (.new sampleConfig)
    (openTwo++
      .start (keepWarm "/a")::steps 4 (prewarmInputs "/a" 3 1)++
      .start (keepWarm "/b")::steps 5 (prewarmInputs "/b" 4 1)++steps 4 (idles 3)++
        steps 5 (idles 3))
    (fun p => Map.size p.state.warmPool=2) (by decide +kernel)
  exact ⟨p,hp,of_decide_eq_true ht,rfl⟩

end Router
