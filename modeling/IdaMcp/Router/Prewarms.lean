import IdaMcp.Lib.Hands
import IdaMcp.Router.Frame
import IdaMcp.Router.Scheduling

/-!
# The limits of the prewarm queue

A started prewarm is in the hand of the driver that took it from the queue, and
then of the task that runs it, until that task gives its slot back. So the
counter of a tenant string is the number of active prewarms under that string.
Tenants are told apart by `normalize_tenant` only when the prewarm runs.
-/

namespace Router
open Lib (Map Json Monitor)
open Lib.Monitor (keeps_pure keeps_halt keeps_bind keeps_perform)

theorem tenantCount_countUp (m : Map String Nat) (tenant x : String) :
    tenantCount (countUp m tenant) x=tenantCount m x+if x=tenant then 1 else 0 := by
  unfold tenantCount countUp
  rw [Map.get_insert]
  split
  next h => rw [h]; rfl
  next => rfl

theorem tenantCount_countDown (m : Map String Nat) (tenant x : String) :
    tenantCount (countDown m tenant) x=tenantCount m x-if x=tenant then 1 else 0 := by
  unfold countDown
  cases hm : m.get tenant with
  | none =>
    dsimp only
    split
    next h => rw [h,tenantCount,hm]; rfl
    next => rfl
  | some n =>
    dsimp only
    by_cases h : x=tenant
    · subst h
      rw [if_pos rfl]
      split
      next h0 => rw [tenantCount,tenantCount,Map.get_remove_self,hm]; exact h0.symm
      next => rw [tenantCount,tenantCount,Map.get_insert_self,hm]; rfl
    · rw [if_neg h]
      split
      · rw [tenantCount,Map.get_remove,if_neg h]; rfl
      · rw [tenantCount,Map.get_insert,if_neg h]; rfl

/-- The active prewarms that run for a tenant. -/
def PrewarmQueueState.activeFor (q : PrewarmQueueState) (tenant : String) : Nat :=
  q.active.sum fun a => if normalizeTenant (some a.tenantId)=tenant then 1 else 0

def prewarmMonitor : Monitor Op.Res (List QueuedPrewarmTask) where
  next m e := match e with
    | ⟨.prewarm .next,some t⟩ => t::m
    | ⟨.spawn (.prewarmTask _),_⟩ | ⟨.prewarm (.finish _ _ _),_⟩ => m.tail
    | _ => m
  allowed m op := match op with
    | .spawn (.prewarmTask t) => m.head?=some t
    | .prewarm (.finish id tenant _) => ∃ t,m.head?=some t ∧ t.taskId=id ∧ t.tenantId=tenant
    | _ => True
  good _ _ := True

namespace Prewarms

def start : Job → List QueuedPrewarmTask
  | .prewarmTask t => [t]
  | _ => []

/-- The operations that move a prewarm. -/
def Moves : Op → Prop
  | .prewarm .next | .prewarm (.finish _ _ _) | .spawn (.prewarmTask _) => True
  | _ => False

variable (l : List QueuedPrewarmTask)

/-- The hand is what it was. -/
abbrev Same (m : List QueuedPrewarmTask) : Prop := m=l

theorem keeps_op {op : Op} (h : ¬Moves op) : prewarmMonitor.Keeps (Same l) (act op) := by
  refine keeps_perform fun m hm => ⟨?_,fun r _ => ?_⟩
  · cases op with
    | prewarm o => cases o <;> first | trivial | exact absurd trivial h
    | spawn job => cases job <;> first | trivial | exact absurd trivial h
    | _ => trivial
  · subst hm
    cases op with
    | prewarm o => cases o <;> first | rfl | exact absurd trivial h
    | spawn job => cases job <;> first | rfl | exact absurd trivial h
    | _ => rfl

theorem keeps_plain (op : Op) (_ : op.followed=false) (h : op.staged=false) :
    prewarmMonitor.Keeps (Same l) (act op) :=
  keeps_op l fun hm => by
    cases op with
    | prewarm o => cases o <;> first | exact hm | cases h
    | spawn job => cases job <;> first | exact hm | cases h
    | _ => exact hm

theorem keeps_inner (o : InnerOp) : prewarmMonitor.Keeps (Same l) (act (.inner o)) := keeps_op l id

theorem keeps_drive (n : Nat) : prewarmMonitor.Keeps (Same l) (drivePrewarmQueue n) := by
  induction n with
  | zero => exact keeps_halt
  | succ n ih =>
    rintro m rfl
    refine wp_section trivial trivial fun r => ⟨trivial,?_⟩
    rcases r with _ | t
    · rfl
    · rw [Monitor.wp_bind]
      exact ⟨rfl,fun _ _ => ih _ rfl⟩

theorem core : Core prewarmMonitor (Same l) := by
  have hreq:=Unstaged.routeRequest (keeps_plain l) (fun o _ => keeps_inner l o)
    (fun _ => keeps_op l id) fun _ => keeps_op l id
  have henq:=Unstaged.enqueueTask (keeps_plain l) fun op h => keeps_op l (by
    cases op <;> first | exact id | cases h)
  have hclose (h : DbHandle) (why : Reason) : prewarmMonitor.Keeps (Same l) (closeWorker h why) :=
    Unstaged.closeWorker (keeps_plain l) (keeps_op l id) (keeps_inner l _)
  have refs:=Unstaged.refs (keeps_plain l) henq hreq (fun o _ _ _ => keeps_inner l o) hclose
    (keeps_drive l)
  have hwarm (o : WarmOp) : prewarmMonitor.Keeps (Same l) (withLock .warmPool (act (.warm o))) :=
    Unstaged.withLock (keeps_plain l) (keeps_op l id)
  exact ⟨refs,refs.prewarm fun path handle token tenantId cache => refs.installWarmLease
    (hwarm _) (hwarm _) (Unstaged.releaseWarmLease (keeps_plain l) (fun _ => keeps_op l id)
      (fun _ => Unstaged.withLock (keeps_plain l) (keeps_inner l _)) fun h => hclose h _)
    path handle token tenantId cache (hwarm _)⟩

theorem body (job : Job) : prewarmMonitor.wp job.body (fun _ m => m=[]) (start job) := by
  have hother (hj : ∀ t,job≠.prewarmTask t) : prewarmMonitor.Keeps (Same []) job.body :=
    (core []).body job (fun t h => absurd h (hj t)) (fun _ _ _ _ => keeps_op [] id) fun h _ =>
      (core []).reader h (Unstaged.withLock (keeps_plain []) (keeps_inner [] _))
        (fun _ => Unstaged.withLock (keeps_plain []) (keeps_inner [] _))
        fun _ => Unstaged.withLock (keeps_plain []) (keeps_inner [] _)
  cases job with
  | prewarmTask t =>
    refine prewarmMonitor.wp_seq ((core [t]).prewarmPath _ _ _ _ rfl) fun r m hm => ?_
    subst hm
    simp only [withLock,Monitor.wp_bind,Monitor.wp_perform,Monitor.wp_pure]
    exact ⟨trivial,fun _ _ => ⟨⟨t,rfl,rfl,rfl⟩,fun _ _ => ⟨trivial,fun _ _ => rfl⟩⟩⟩
  | _ => exact hother (fun _ h => by cases h) _ rfl

end Prewarms

def prewarmId (n : Nat) : TaskId := "prewarm-"++toString n

theorem prewarmId_injective {m n : Nat} (h : prewarmId m=prewarmId n) : m=n := by
  have hl:=congrArg String.toList h
  simp only [prewarmId,String.toList_append,Nat.toString_eq_repr,Nat.toList_repr] at hl
  have hd:=congrArg (fun ds => Nat.ofDigitChars 10 ds 0) (List.append_cancel_left hl)
  simpa only [Nat.ofDigitChars_toDigits (b := 10) (by decide) (by decide)] using hd

def PrewarmQueueState.ids (q : PrewarmQueueState) : List TaskId :=
  q.queued.map (fun t => t.taskId)++q.active.keysOf

theorem PrewarmQueueState.enqueue_cases (cfg : RouterConfig) (path : Path) (priority : Nat)
    (keepWarm : Bool) (tenantId : String) (instant : Instant) (q : PrewarmQueueState) :
    (q.enqueue cfg path priority keepWarm tenantId instant).2=q ∨
      ∃ queued task,q.queued.length < cfg.maxQueuedPrewarms ∧ List.Perm queued (q.queued++[task]) ∧
        task.taskId=prewarmId q.nextTaskId ∧
        (q.enqueue cfg path priority keepWarm tenantId instant).2=
          {q with queued:=queued,nextTaskId:=q.nextTaskId+1} := by
  unfold PrewarmQueueState.enqueue
  split
  · exact .inl rfl
  next hroom =>
    exact .inr ⟨_,⟨prewarmId q.nextTaskId,path,tenantId,priority,keepWarm,instant⟩,
      Nat.lt_of_not_le hroom,List.perm_insertionSort ..,rfl,rfl⟩

/-- The queue `q` while the tasks have the prewarms `hs` in hand. -/
structure PrewarmBooks (cfg : RouterConfig) (q : PrewarmQueueState)
    (hs : Multiset QueuedPrewarmTask) :
    Prop where
  queued : q.queued.length ≤ cfg.maxQueuedPrewarms
  active : q.active.size ≤ cfg.maxActivePrewarms
  named : ∀ id∈q.ids,∃ n < q.nextTaskId,id=prewarmId n
  distinct : q.ids.Nodup
  held : ∀ t∈hs,∃ a,q.active.get t.taskId=some a ∧ a.tenantId=t.tenantId
  apart : (hs.map fun t => t.taskId).Nodup
  counted : ∀ x,tenantCount q.tenantActive x=q.active.sum fun a => if a.tenantId=x then 1 else 0
  within : ∀ x,tenantCount q.tenantActive x ≤ cfg.maxPrewarmsPerTenant

namespace PrewarmBooks
variable {cfg : RouterConfig} {q : PrewarmQueueState} {hs : Multiset QueuedPrewarmTask}

theorem new : PrewarmBooks cfg .new 0 where
  queued := Nat.zero_le _
  active := Nat.zero_le _
  named _ h := by cases h
  distinct := List.nodup_nil
  held _ h := absurd h (Multiset.notMem_zero _)
  apart := Multiset.nodup_zero
  counted _ := rfl
  within _ := Nat.zero_le _

theorem enqueue (hb : PrewarmBooks cfg q hs) (path : Path) (priority : Nat) (keepWarm : Bool)
    (tenantId : String) (instant : Instant) :
    PrewarmBooks cfg (q.enqueue cfg path priority keepWarm tenantId instant).2 hs := by
  rcases q.enqueue_cases cfg path priority keepWarm tenantId instant with
    he | ⟨queued,task,hroom,hperm,hid,he⟩ <;> rw [he]
  · exact hb
  have hids : (queued.map (fun t => t.taskId)++q.active.keysOf).Perm
      (prewarmId q.nextTaskId::q.ids) := by
    refine ((hperm.map fun t => t.taskId).append_right _).trans ?_
    rw [List.map_append,List.append_assoc,List.map_singleton,hid]
    exact List.perm_middle
  refine ⟨?_,hb.active,fun id hid => ?_,?_,hb.held,hb.apart,hb.counted,hb.within⟩
  · have hlen:=hperm.length_eq
    rw [List.length_append,List.length_singleton] at hlen
    dsimp only
    omega
  · rcases List.mem_cons.mp (hids.mem_iff.mp hid) with rfl | hid
    · exact ⟨_,Nat.lt_succ_self _,rfl⟩
    · obtain ⟨n,hn,he⟩:=hb.named id hid
      exact ⟨n,Nat.lt_succ_of_lt hn,he⟩
  · refine hids.nodup_iff.mpr (List.nodup_cons.mpr ⟨fun hid => ?_,hb.distinct⟩)
    obtain ⟨n,hn,he⟩:=hb.named _ hid
    exact absurd (prewarmId_injective he) (Nat.ne_of_gt hn)

theorem next (hb : PrewarmBooks cfg q hs) (instant : Instant) :
    PrewarmBooks cfg (q.next cfg instant).2 ((q.next cfg instant).1.elim 0 ({·})+hs) := by
  rcases q.next_cases cfg instant with ⟨he,-⟩ | ⟨i,t,hfull,hi,ht,he⟩
  · rw [he]
    change PrewarmBooks cfg q (0+hs)
    rwa [zero_add]
  rw [he]
  change PrewarmBooks cfg _ ({t}+hs)
  have hmem:=List.mem_of_getElem? ht
  have hlt:=(List.getElem?_eq_some_iff.mp ht).1
  have hperm : (t.taskId::(q.queued.eraseIdx i).map fun t => t.taskId).Perm
      (q.queued.map fun t => t.taskId) := by
    have hp:=(List.getElem_cons_eraseIdx_perm hlt).map fun t => t.taskId
    rwa [(List.getElem?_eq_some_iff.mp ht).2] at hp
  have hids : (t.taskId::((q.queued.eraseIdx i).map (fun t => t.taskId)++
    q.active.keysOf)).Perm q.ids :=
    hperm.append_right _
  have hnodup:=hids.nodup_iff.mpr hb.distinct
  have hnew : t.taskId∉q.active.keysOf := fun h =>
    (List.nodup_cons.mp hnodup).1 (List.mem_append_right _ h)
  have hnone : q.active.get t.taskId=none := by
    cases hg : q.active.get t.taskId with
    | none => rfl
    | some a => exact absurd ((q.active.mem_keysOf _).mpr ⟨a,hg⟩) hnew
  have hafter : ((q.queued.eraseIdx i).map (fun t => t.taskId)++
      (q.active.insert t.taskId
        ⟨t.taskId,t.path,t.tenantId,t.priority,t.keepWarm,instant⟩).keysOf).Perm
        q.ids := by
    rw [Map.keysOf_insert hnew]
    exact List.perm_middle.trans hids
  refine ⟨?_,?_,fun id hid => hb.named id (hafter.mem_iff.mp hid),hafter.nodup_iff.mpr hb.distinct,
    fun u hu => ?_,?_,fun x => ?_,fun x => ?_⟩
  · exact (List.length_eraseIdx_le ..).trans hb.queued
  · have hle:=q.active.sum_insert_le t.taskId
      ⟨t.taskId,t.path,t.tenantId,t.priority,t.keepWarm,instant⟩
      fun _ => 1
    rw [← Map.size_eq_sum,← Map.size_eq_sum] at hle
    dsimp only
    omega
  · rcases Multiset.mem_add.mp hu with hu | hu
    · obtain rfl:=Multiset.mem_singleton.mp hu
      exact ⟨_,Map.get_insert_self _ _ _,rfl⟩
    · obtain ⟨a,ha,htenant⟩:=hb.held u hu
      refine ⟨a,?_,htenant⟩
      rw [Map.get_insert,if_neg fun h => ?_]
      · exact ha
      · rw [h,hnone] at ha; cases ha
  · rw [Multiset.map_add,Multiset.map_singleton,Multiset.singleton_add,Multiset.nodup_cons]
    refine ⟨fun h => ?_,hb.apart⟩
    obtain ⟨u,hu,hid⟩:=Multiset.mem_map.mp h
    obtain ⟨a,ha,-⟩:=hb.held u hu
    rw [hid,hnone] at ha
    cases ha
  · rw [tenantCount_countUp,hb.counted,Map.sum_insert,Map.remove_of_get_none hnone,Nat.add_comm]
    simp only [eq_comm]
  · rw [tenantCount_countUp]
    split
    next hx =>
      obtain ⟨_,helig,_⟩:=List.findIdx?_eq_some_iff_getElem.mp hi
      rw [(List.getElem?_eq_some_iff.mp ht).2] at helig
      subst hx
      exact of_decide_eq_true helig
    next => exact hb.within x

theorem finish {t : QueuedPrewarmTask} (hb : PrewarmBooks cfg q ({t}+hs)) (summary : Json) :
    PrewarmBooks cfg (q.finish t.taskId t.tenantId summary) hs := by
  obtain ⟨a,ha,htenant⟩:=hb.held t (Multiset.mem_add.mpr (.inl (Multiset.mem_singleton_self t)))
  have hapart:=hb.apart
  rw [Multiset.map_add,Multiset.map_singleton,Multiset.singleton_add,Multiset.nodup_cons] at hapart
  have hsub : (q.queued.map (fun t => t.taskId)++
    (q.active.remove t.taskId).keysOf).Sublist q.ids := by
    rw [Map.keysOf_remove]
    exact List.Sublist.append_left List.erase_sublist _
  have hcount : ∀ x,tenantCount (countDown q.tenantActive t.tenantId) x=
      (q.active.remove t.taskId).sum fun a => if a.tenantId=x then 1 else 0 := by
    intro x
    have hsum:=hb.counted x
    rw [Map.sum_of_get ha,htenant] at hsum
    rw [tenantCount_countDown,hsum,Nat.add_comm]
    simp only [eq_comm]
    exact (Nat.add_sub_cancel ..).symm
  refine ⟨hb.queued,?_,fun id hid => hb.named id (hsub.subset hid),hb.distinct.sublist hsub,
    fun u hu => ?_,hapart.2,hcount,fun x => ?_⟩
  · have hle:=q.active.sum_remove_le t.taskId fun _ => 1
    rw [← Map.size_eq_sum,← Map.size_eq_sum] at hle
    exact hle.trans hb.active
  · obtain ⟨b,hbu,hb'⟩:=hb.held u (Multiset.mem_add.mpr (.inr hu))
    refine ⟨b,?_,hb'⟩
    rw [PrewarmQueueState.finish,Map.get_remove,if_neg fun h => ?_]
    · exact hbu
    · exact hapart.1 (Multiset.mem_map.mpr ⟨u,hu,h⟩)
  · refine Nat.le_trans ?_ (hb.within x)
    change tenantCount (countDown q.tenantActive t.tenantId) x ≤ _
    rw [tenantCount_countDown]
    exact Nat.sub_le _ _

end PrewarmBooks

def prewarmHands (p : Service) : Multiset QueuedPrewarmTask :=
  Lib.hands prewarmMonitor Prewarms.start (fun m => (m : Multiset QueuedPrewarmTask)) p.tasks

theorem prewarm_books (cfg : RouterConfig) {C : Service → Move → Prop} {p : Service}
    (hr : (service cfg).Reach C (.new cfg) p) :
    PrewarmBooks cfg p.state.prewarmQueue (prewarmHands p) := by
  refine Lib.reach_hands prewarmMonitor Prewarms.start (fun m => (m : Multiset QueuedPrewarmTask))
    (service cfg) C (fun _ m => m=[]) (Ψ := fun s hs => PrewarmBooks cfg s.prewarmQueue hs)
    Prewarms.body (fun _ _ _ _ _ _ => trivial) .new ?_ ?_ hr
  · intro job hj
    cases job <;> first | rfl | cases hj
  intro p i t op env r s rest _ hf _ hb
  have hx : exec cfg i op env p.state=some (r,s) := hf.exec
  have hforks : ∀ jobs : List DbHandle,((jobs.map Job.reader).map fun c =>
      (Prewarms.start c : Multiset QueuedPrewarmTask)).sum=0 := by
    intro jobs
    rw [List.map_map]
    exact List.sum_eq_zero fun x hx => by obtain ⟨_,-,rfl⟩:=List.mem_map.mp hx; rfl
  -- a step that moves no prewarm and is no section of the queue
  have hsame (hq : s.prewarmQueue=p.state.prewarmQueue) (jobs : List DbHandle) : PrewarmBooks cfg
      s.prewarmQueue (((prewarmMonitor.track Prewarms.start t : List _) : Multiset _)+rest+
        ((jobs.map Job.reader).map fun c =>
          (Prewarms.start c : Multiset QueuedPrewarmTask)).sum) := by
    rw [hforks,add_zero,hq]
    exact hb
  cases op with
  | prewarm o =>
    cases hx
    cases o with
    | enqueue path priority keepWarm tenantId =>
      change PrewarmBooks cfg _ (_+rest+0)
      rw [add_zero]
      exact hb.enqueue path priority keepWarm tenantId env.instant
    | next =>
      have hn:=hb.next env.instant
      generalize hres : (p.state.prewarmQueue.next cfg env.instant).1=res at hn
      change PrewarmBooks cfg _ (((prewarmMonitor.next _ ⟨.prewarm .next,
        (p.state.prewarmQueue.next cfg env.instant).1⟩ : List _) : Multiset _)+rest+0)
      rw [hres,add_zero]
      cases res with
      | none => rwa [Option.elim_none,zero_add] at hn
      | some u =>
        rw [Option.elim_some,← add_assoc] at hn
        exact hn
    | finish id tenant summary =>
      obtain ⟨u,hu,rfl,rfl⟩:=hf.allowed
      obtain ⟨l,hl⟩ : ∃ l,prewarmMonitor.track Prewarms.start t=u::l := by
        cases hm : prewarmMonitor.track Prewarms.start t with
        | nil => rw [hm] at hu; cases hu
        | cons x l => rw [hm] at hu; cases hu; exact ⟨l,rfl⟩
      rw [hl,← Multiset.cons_coe,← Multiset.singleton_add,add_assoc] at hb
      change PrewarmBooks cfg _ (((prewarmMonitor.track Prewarms.start t).tail : Multiset _)+rest+0)
      rw [hl,add_zero]
      exact hb.finish summary
    | list => exact hsame rfl []
  | spawn job =>
    have hq:=(exec_queues cfg hx).prewarmQueue (by rintro _ ⟨⟩)
    cases job with
    | prewarmTask u =>
      have hu : (prewarmMonitor.track Prewarms.start t).head?=some u := hf.allowed
      cases hm : prewarmMonitor.track Prewarms.start t with
      | nil => rw [hm] at hu; cases hu
      | cons x l =>
        rw [hm] at hu hb
        cases hu
        change PrewarmBooks cfg s.prewarmQueue (((u::l).tail : Multiset _)+rest+({u}+0))
        rw [hq,add_zero,List.tail_cons,add_right_comm]
        rw [← Multiset.cons_coe,← Multiset.singleton_add,
          add_comm ({u} : Multiset QueuedPrewarmTask)] at hb
        exact hb
    | _ => exact hsame hq []
  | inner o => exact hsame ((exec_queues cfg hx).prewarmQueue (by rintro _ ⟨⟩)) _
  | _ => exact hsame ((exec_queues cfg hx).prewarmQueue (by rintro _ ⟨⟩)) []

/-- Whatever is started is spelled like the active prewarms of the same tenant. -/
def Spelled (p : Service) : Move → Prop
  | .run _ ⟨.prewarm .next,some t⟩ => ∀ id a,p.state.prewarmQueue.active.get id=some a →
      normalizeTenant (some a.tenantId)=normalizeTenant (some t.tenantId) → a.tenantId=t.tenantId
  | _ => True

/-- Active prewarms of one tenant have one spelling of it. -/
def OneSpelling (m : Map TaskId ActivePrewarmTask) : Prop :=
  ∀ id a jd b,m.get id=some a → m.get jd=some b →
    normalizeTenant (some a.tenantId)=normalizeTenant (some b.tenantId) → a.tenantId=b.tenantId

theorem OneSpelling.insert {m : Map TaskId ActivePrewarmTask} (hm : OneSpelling m) {x : TaskId}
    {c : ActivePrewarmTask} (hc : ∀ id a,m.get id=some a →
      normalizeTenant (some a.tenantId)=normalizeTenant (some c.tenantId) → a.tenantId=c.tenantId) :
    OneSpelling (m.insert x c) := by
  intro id a jd b ha hb hn
  rw [Map.get_insert] at ha hb
  split at ha <;> split at hb
  · cases ha; cases hb; rfl
  · cases ha; exact (hc jd b hb hn.symm).symm
  · cases hb; exact hc id a ha hn
  · exact hm id a jd b ha hb hn

theorem OneSpelling.remove {m : Map TaskId ActivePrewarmTask} (hm : OneSpelling m) (x : TaskId) :
    OneSpelling (m.remove x) := by
  have hold {id : TaskId} {a : ActivePrewarmTask} (h : (m.remove x).get id=some a) :
      m.get id=some a := by
    rw [Map.get_remove] at h
    split at h
    · cases h
    · exact h
  exact fun id a jd b ha hb => hm id a jd b (hold ha) (hold hb)

theorem one_spelling (cfg : RouterConfig) {p : Service}
    (hr : (service cfg).Reach Spelled (.new cfg) p) : OneSpelling p.state.prewarmQueue.active := by
  refine Lib.reach_state (service cfg) Spelled
    (G := fun s : Shared => OneSpelling s.prewarmQueue.active)
    (fun _ _ _ _ h => by cases h) ?_ hr
  intro p i op env r s hg hx hc
  replace hx : exec cfg i op env p.state=some (r,s) := hx
  by_cases ho : ∃ o,op=.prewarm o
  · obtain ⟨o,rfl⟩:=ho
    cases hx
    cases o with
    | enqueue path priority keepWarm tenantId =>
      change OneSpelling
        (p.state.prewarmQueue.enqueue cfg path priority keepWarm tenantId _).2.active
      rcases p.state.prewarmQueue.enqueue_cases cfg path priority keepWarm tenantId env.instant with
        he | ⟨queued,task,-,-,-,he⟩ <;> rw [he] <;> exact hg
    | next =>
      change OneSpelling (p.state.prewarmQueue.next cfg env.instant).2.active
      rcases p.state.prewarmQueue.next_cases cfg env.instant with ⟨he,-⟩ | ⟨j,t,-,-,-,he⟩
      · rw [he]
        exact hg
      · have hc : Spelled p
          (.run i ⟨.prewarm .next,(p.state.prewarmQueue.next cfg env.instant).1⟩) := hc
        rw [he] at hc ⊢
        exact hg.insert hc
    | finish id tenant summary => exact hg.remove id
    | list => exact hg
  · rw [(exec_queues cfg hx).prewarmQueue fun o h => ho ⟨o,h⟩]
    exact hg

theorem OneSpelling.activeFor_le {q : PrewarmQueueState} {bound : Nat} (h : OneSpelling q.active)
    (hw : ∀ x,(q.active.sum fun a => if a.tenantId=x then 1 else 0) ≤ bound) (tenant : String) :
    q.activeFor tenant ≤ bound := by
  by_cases hex : ∃ id a,q.active.get id=some a ∧ normalizeTenant (some a.tenantId)=tenant
  · obtain ⟨id,a,ha,rfl⟩:=hex
    refine Nat.le_trans (q.active.sum_le_sum fun jd b hb => ?_) (hw a.tenantId)
    split
    next hn => rw [if_pos (h jd b id a hb ha hn)]
    next => exact Nat.zero_le _
  · have hzero : q.activeFor tenant ≤ q.active.sum fun _ => 0 :=
      q.active.sum_le_sum fun id a ha => by
        rw [if_neg fun hn => hex ⟨id,a,ha,hn⟩]
    refine hzero.trans (Nat.le_trans (q.active.sum_le_sum fun _ _ _ => Nat.zero_le _) (hw tenant))

/-- The two limits on the queue hold in every run; the one on tenants in every run that
spells a tenant in one way as long as a prewarm of it is active. -/
theorem prewarm_limits (cfg : RouterConfig) :
    (∀ p,(service cfg).Reach (fun _ _ => True) (.new cfg) p →
      p.state.prewarmQueue.queued.length ≤ cfg.maxQueuedPrewarms ∧
        p.state.prewarmQueue.active.size ≤ cfg.maxActivePrewarms) ∧
      ∀ p,(service cfg).Reach Spelled (.new cfg) p →
        ∀ tenant,p.state.prewarmQueue.activeFor tenant ≤ cfg.maxPrewarmsPerTenant := by
  refine ⟨fun p hr => ?_,fun p hr tenant => ?_⟩
  · have hb:=prewarm_books cfg hr
    exact ⟨hb.queued,hb.active⟩
  · have hb:=prewarm_books cfg hr
    refine (one_spelling cfg hr).activeFor_le (fun x => ?_) tenant
    rw [← hb.counted]
    exact hb.within x

def prewarmParams (tenantId : String) : Json :=
  .ofFields [("path",.str "/a"),("tenant_id",.str tenantId),("queue",.bool true)]

/-- The steps of a queued prewarm request: the section that enqueues it, and a drive that
starts one prewarm and finds no other. -/
def enqueueSteps (i : Nat) : List (Lib.Act Job Env) :=
  steps i (idles 3++{rounds := 2}::idles 7)

def twoPrewarms : RouterConfig := {sampleConfig with maxActivePrewarms := 2}

theorem prewarm_limits_started : ∃ p,(service twoPrewarms).Reach Spelled (.new twoPrewarms) p ∧
    p.state.prewarmQueue.activeFor "a"=1 ∧
      ∀ tenant,p.state.prewarmQueue.activeFor tenant ≤ twoPrewarms.maxPrewarmsPerTenant := by
  have hok : ∀ (p : Service) (l : Move),
      decide (p.state.prewarmQueue.active.size=0)=true → Spelled p l := by
    intro p l h
    unfold Spelled
    split
    · intro id a ha
      rw [(Map.size_eq_zero_iff _).mp (of_decide_eq_true h)] at ha
      cases ha
    · trivial
  obtain ⟨p,hp,ht⟩:=(service twoPrewarms).play_any Spelled _ hok (.new twoPrewarms)
    (.start (.cli "prewarm" (prewarmParams " a"))::(enqueueSteps 0).take 6)
    (fun p => p.state.prewarmQueue.activeFor "a"=1) (by decide +kernel)
  exact ⟨p,hp,of_decide_eq_true ht,(prewarm_limits twoPrewarms).2 p hp⟩

/-- Two spellings of one tenant: both prewarms are active, and the limit is one. -/
theorem tenant_limit_passed : ∃ p,
    (service twoPrewarms).Reach (fun _ _ => True) (.new twoPrewarms) p ∧
      p.state.prewarmQueue.activeFor "a"=2 ∧ twoPrewarms.maxPrewarmsPerTenant=1 := by
  obtain ⟨p,hp,ht⟩:=(service twoPrewarms).play_free (.new twoPrewarms)
    (.start (.cli "prewarm" (prewarmParams "a"))::enqueueSteps 0++
      .start (.cli "prewarm" (prewarmParams " a"))::enqueueSteps 2)
    (fun p => p.state.prewarmQueue.activeFor "a"=2) (by decide +kernel)
  exact ⟨p,hp,of_decide_eq_true ht,rfl⟩

end Router
