import IdaMcp.Router.Delivery
import IdaMcp.Router.Registry

/-!
# Somebody is there to answer

Every worker in the registry has a reader task that has not ended, and every
registered request that was not answered is still in its worker's map. Both
rest on fresh handles: a handle given out twice could meet the reader of the
first worker, or overwrite its map.
-/

namespace Router
open Lib (Map Json Monitor Holds Fired)
open Lib.Monitor (keeps_pure keeps_bind keeps_perform)
variable {op : Op} {h : DbHandle} {i : Nat} {o : InnerOp} {env : Env}

def Job.readerOf : Job → Option DbHandle
  | .reader h => some h
  | _ => none

structure Reading where
  own : Option DbHandle
  /-- The task has seen the end of stdout. -/
  ended : Bool
  /-- What the task has read, and from which worker. -/
  lines : List (DbHandle × WorkerLine)

variable {m : Reading}

def readerMonitor : Monitor Op.Res Reading where
  next m e := match e with
    | ⟨.world (.readLine h),line⟩ => {m with lines := (h,line)::m.lines}
    | ⟨.inner (.readerEof _),_⟩ | ⟨.inner (.readerError _ _),_⟩ => {m with ended := true}
    | _ => m
  allowed m op := match op with
    | .inner (.readerLine h r) => m.own=some h ∧ (h,.response r)∈m.lines
    | .inner (.readerEof h) => m.own=some h ∧ (h,.closed)∈m.lines
    | .inner (.readerError h e) => m.own=some h ∧ (h,.failed e)∈m.lines
    | .spawn job => job.readerOf=none
    | _ => True
  good _ _ := True

namespace Readers

def start (job : Job) : Reading := ⟨job.readerOf,false,[]⟩

theorem next_own (m : Reading) (e : Lib.Event Op.Res) : (readerMonitor.next m e).own=m.own := by
  dsimp only [readerMonitor]
  split <;> rfl

variable (x : Option DbHandle)

abbrev Own (m : Reading) : Prop := m.own=x

theorem keeps_op (h : ∀ m, readerMonitor.allowed m op) : readerMonitor.Keeps (Own x) (act op) :=
  keeps_perform fun m hm => ⟨h m,fun r _ => by rw [Own,next_own]; exact hm⟩

theorem keeps_plain (op : Op) (h : op.followed=false) : readerMonitor.Keeps (Own x) (act op) := by
  cases op with
  | inner o => cases o <;> first | exact keeps_op x fun _ => trivial | exact Bool.noConfusion h
  | spawn job => cases job <;> first | exact keeps_op x fun _ => rfl | exact Bool.noConfusion h
  | _ => exact keeps_op x fun _ => trivial

theorem core : Core readerMonitor (Own x) := by
  refine core_of_ops (keeps_plain x) (keeps_enqueueOf (keeps_plain x) fun op h => keeps_op x (by
    cases op <;> first | exact fun _ => trivial | cases h)) ?_ ?_ fun _ _ _ _ _ =>
      keeps_op x fun _ => trivial
  · refine keeps_requestOf (keeps_plain x) (fun o ho => keeps_op x ?_)
      (fun _ => keeps_op x fun _ => trivial) fun _ => keeps_op x fun _ => trivial
    cases o <;> first | exact fun _ => trivial | cases ho
  · intro o _ ho
    cases o <;> first | exact keeps_op x fun _ => trivial | cases ho

theorem readerLoop_ends (h : DbHandle) (n : Nat) (m : Reading) (hm : m.own=some h) :
    readerMonitor.wp (readerLoop h n) (fun _ m => m.ended=true) m := by
  induction n generalizing m with
  | zero => trivial
  | succ n ih =>
    rw [readerLoop,world,Monitor.wp_bind,act,Monitor.wp_perform]
    refine ⟨trivial,fun line _ => ?_⟩
    cases line with
    | closed | failed =>
      exact wp_section trivial ⟨hm,List.mem_cons_self⟩ fun _ => ⟨trivial,rfl⟩
    | other => exact ih _ hm
    | response r =>
      exact wp_section trivial ⟨hm,List.mem_cons_self⟩ fun _ => ⟨trivial,ih _ hm⟩

theorem lines_logged {t : Lib.Task Op.Res Job} {line : WorkerLine}
    (hm : (h,line)∈(readerMonitor.track start t).lines) : ⟨.world (.readLine h),line⟩∈t.log := by
  obtain ⟨job,prog,log⟩:=t
  change (h,line)∈(log.foldr (fun e m => readerMonitor.next m e) (start job)).lines at hm
  induction log with
  | nil => cases hm
  | cons e log ih =>
    rw [List.foldr_cons] at hm
    obtain ⟨op,r⟩:=e
    dsimp only [readerMonitor] at hm
    split at hm
    · next heq =>
      rcases List.mem_cons.mp hm with hx | hm
      · cases hx
        exact heq ▸ List.mem_cons_self
      · exact List.mem_cons_of_mem _ (ih hm)
    all_goals exact List.mem_cons_of_mem _ (ih hm)

theorem track_own (t : Lib.Task Op.Res Job) :
    (readerMonitor.track start t).own=t.call.readerOf := by
  obtain ⟨job,prog,log⟩:=t
  change (log.foldr (fun e m => readerMonitor.next m e) (start job)).own=_
  induction log with
  | nil => rfl
  | cons e log ih => rw [List.foldr_cons,next_own,ih]

def Done (job : Job) (m : Reading) : Prop := job.readerOf≠none → m.ended=true

theorem body (job : Job) : readerMonitor.wp job.body (fun _ m => Done job m) (start job) := by
  by_cases hj : ∃ h, job=.reader h
  · obtain ⟨h,rfl⟩:=hj
    refine readerMonitor.wp_seq ((core (some h)).world _ _ rfl) fun n m hm => ?_
    exact readerMonitor.wp_mono (readerLoop_ends h n m hm) fun _ _ he _ => he
  · have hn : job.readerOf=none := by
      cases job with
      | reader h => exact absurd ⟨h,rfl⟩ hj
      | _ => rfl
    refine readerMonitor.wp_mono
      ((core none).body job (fun task _ => keeps_finish (keeps_plain none) task)
      (fun _ _ _ _ => keeps_op none fun _ => rfl) ?_ _ hn) fun _ _ _ he => absurd hn he
    rintro h rfl
    exact absurd ⟨h,rfl⟩ hj

end Readers

/-- The request stands in the map of its worker. -/
def Registration.Open (g : Registration) (s : RouterInner) : Prop :=
  ∃ w, s.workers.get g.handle=some w ∧ w.pending.get g.id=some g.chan

namespace Change
variable {cfg : RouterConfig} {s t : RouterInner} {tr : Trace}

theorem opens (hc : Change cfg s tr t) : ∀ g∈tr.registers, g.Open t := by
  intro g hg
  cases hc with
  | pended =>
    obtain rfl:=List.mem_singleton.mp hg
    exact ⟨_,Map.get_insert_self _ _ _,Map.get_insert_self _ _ _⟩
  | _ => cases hg

theorem open_put {w v : WorkerProcess} {g : Registration} (ho : g.Open s)
    (hw : s.workers.get h=some w)
    (hv : ∀ c, g.handle=h → w.pending.get g.id=some c → v.pending.get g.id=some c) :
    g.Open (s.putWorker h v) := by
  obtain ⟨u,hu,hp⟩:=ho
  by_cases hx : g.handle=h
  · rw [hx,hw] at hu
    cases hu
    exact ⟨v,by simp [RouterInner.putWorker,hx],hv _ hx hp⟩
  · exact ⟨u,by simp [RouterInner.putWorker,Map.get_insert,hx,hu],hp⟩

theorem open_or_sent (hc : Change cfg s tr t) {g : Registration} (ho : g.Open s)
    (hmade : ∀ h∈tr.made, s.workers.get h=none) (hreg : ∀ k∈tr.registers, k.id≠g.id) :
    g.chan∈tr.sends.map Delivery.chan ∨ g.Open t := by
  cases hc with
  | same | ticked | named | reused | issued | released | unbound | gone => exact .inr ho
  | orphaned => exact .inr (by simpa [Registration.Open] using ho)
  | registered =>
    obtain ⟨w,hw,hp⟩:=ho
    refine .inr ⟨w,?_,hp⟩
    simp only [RouterInner.register,RouterInner.tick,Map.get_insert]
    rw [if_neg]
    · exact hw
    · intro hx
      rw [hx,hmade _ (List.mem_singleton_self _)] at hw
      cases hw
  | pended hw =>
    refine .inr (open_put ho hw fun c _ hp => ?_)
    rw [Map.get_insert,if_neg fun he => hreg _ (List.mem_singleton_self _) he.symm]
    exact hp
  | touched hw => exact .inr (open_put ho hw fun _ _ hp => hp)
  | @answered h w id c a hw hc =>
    by_cases hx : g.handle=h ∧ g.id=id
    · obtain ⟨v,hv,hp⟩:=ho
      rw [hx.1,hw] at hv
      cases hv
      rw [hx.2,hc] at hp
      exact .inl (by simpa using (Option.some.inj hp).symm)
    · refine .inr (open_put ho hw fun c hh hp => ?_)
      rw [Map.get_remove,if_neg fun he => hx ⟨hh,he⟩]
      exact hp
  | @removed h w cause ends message pick hw hd =>
    obtain ⟨v,hv,hp⟩:=ho
    by_cases hx : g.handle=h
    · rw [hx,hw] at hv
      cases hv
      refine .inl (List.mem_map.mpr ⟨⟨g.chan,cause,_⟩,List.mem_map.mpr ⟨⟨g.id,g.chan⟩,?_,rfl⟩,rfl⟩)
      exact (Map.get_eq_some_iff _ _ _).mp hp
    · exact .inr ⟨v,by rw [RouterInner.without_workers,Map.get_remove,if_neg hx]; exact hv,hp⟩

end Change

section Runs
variable (cfg : RouterConfig) {C : Service → Move → Prop} {p : Service}

theorem workers_known (hr : (service cfg).Reach C (.new cfg) p) :
    ∀ h w, p.state.inner.workers.get h=some w → h∈p.state.handles := by
  refine Lib.reach_state (service cfg) C
    (G := fun s => ∀ h w, s.inner.workers.get h=some w → h∈s.handles)
      (fun _ _ h => (by cases h)) ?_ hr
  intro p i op env r s hk hx _ h w hw
  by_cases ho : ∃ o, op=.inner o
  · obtain ⟨o,rfl⟩:=ho
    obtain ⟨sends,inner,hc,rfl⟩:=exec_inner cfg hx
    rcases hc.worker_origin hw with ⟨v,hv⟩ | hm
    · exact List.mem_append_right _ (hk h v hv)
    · exact List.mem_append_left _ hm
  · have hs:=exec_outer cfg hx fun o he => ho ⟨o,he⟩
    rw [hs.inner] at hw
    rw [hs.handles]
    exact hk h w hw

theorem fresh_unused (hr : (service cfg).Reach C (.new cfg) p) {r : o.Res}
    (hf : FreshHandles p (.run i ⟨.inner o,r⟩)) :
      ∀ h∈o.made r, p.state.inner.workers.get h=none := by
  intro h hh
  cases hw : p.state.inner.workers.get h with
  | none => rfl
  | some w => exact absurd (workers_known cfg hr h w hw) (hf h hh)

theorem requests_settled (hC : ∀ p l, C p l → FreshHandles p l)
    (hr : (service cfg).Reach C (.new cfg) p) :
    ∀ g∈p.state.registered, g.chan∈p.state.sent.map Delivery.chan ∨ g.Open p.state.inner := by
  refine (Lib.reach_holds (service cfg) requestMonitor (fun _ => Calls.none) C
    (fun _ m => m.stage=.idle) (G := fun s => ∀ g∈s.registered,
      g.chan∈s.sent.map Delivery.chan ∨ g.Open s.inner) (Φ := fun _ _ _ _ => True)
    (fun c => Requests.body c _ rfl) (fun _ _ _ _ _ _ => trivial) (fun _ h => (by cases h))
    (fun _ _ _ _ _ _ => trivial) ?_ (fun _ _ _ _ _ _ _ _ _ _ _ _ _ _ => trivial)
    (fun _ _ _ _ _ _ _ _ _ _ _ _ _ _ => trivial) hr).1
  intro p i t op env r s hp hi hf
  refine ⟨fun g hg => ?_,trivial⟩
  by_cases ho : ∃ o, op=.inner o
  · obtain ⟨o,rfl⟩:=ho
    obtain ⟨sends,inner,hc,rfl⟩:=exec_inner cfg hf.exec
    rcases List.mem_append.mp hg with hg | hg
    · exact .inr (hc.opens g hg)
    simp only [Shared.commit,List.map_append,List.mem_append]
    rcases hi.1 g hg with hs | ho
    · exact .inl (.inr hs)
    -- the id being registered was not registered before
    have hreg : ∀ k∈o.registers r, k.id≠g.id := by
      intro k hk he
      have hw:=registers_own hf.allowed r k hk
      have hn:=((ledger_holds cfg hp).2 i t hf.task).unregistered k.id (by rw [hw]; rfl)
      exact hn (List.mem_map.mpr ⟨g,hg,he.symm⟩)
    rcases hc.open_or_sent ho (fresh_unused cfg hp (hC _ _ hf.cond)) hreg with hs | ho
    · exact .inl (.inl hs)
    · exact .inr ho
  · have hs:=exec_outer cfg hf.exec fun o he => ho ⟨o,he⟩
    rw [hs.registered] at hg
    rw [hs.sent,hs.inner]
    exact hi.1 g hg

/-- Where stdout has ended there is no worker any more. -/
def Ended (s : Shared) : Prop := ∀ h∈s.ended, s.inner.workers.get h=none ∧ h∈s.handles

/-- What is known of a task that reads from `h`. -/
structure Reads (s : Shared) (job : Job) (m : Reading) : Prop where
  own : m.own=job.readerOf
  known : ∀ h, job.readerOf=some h → h∈s.handles
  ended : m.ended=true → ∀ h, job.readerOf=some h → h∈s.ended

theorem Reads.mono {s t : Shared} {job : Job} (hr : Reads s job m) (hh : s.handles ⊆ t.handles)
    (he : s.ended ⊆ t.ended) : Reads t job m :=
  ⟨hr.own,fun h hj => hh (hr.known h hj),fun hm h hj => he (hr.ended hm h hj)⟩

theorem exec_histories {r : op.Res} {s t : Shared}
    (hx : exec cfg i op env s=some (r,t)) : s.handles ⊆ t.handles ∧ s.ended ⊆ t.ended := by
  by_cases ho : ∃ o, op=.inner o
  · obtain ⟨o,rfl⟩:=ho
    obtain ⟨sends,inner,-,rfl⟩:=exec_inner cfg hx
    exact ⟨List.subset_append_right _ _,List.subset_append_right _ _⟩
  · have hs:=exec_outer cfg hx fun o he => ho ⟨o,he⟩
    rw [hs.handles,hs.ended]
    exact ⟨List.Subset.refl _,List.Subset.refl _⟩

theorem Reads.fork {r : op.Res} {s t : Shared} {job : Job} (ha : readerMonitor.allowed m op)
    (hx : exec cfg i op env s=some (r,t))
    (hj : job∈forks op r) : Reads t job (Readers.start job) := by
  refine ⟨rfl,fun h hh => ?_,fun he => (by cases he)⟩
  cases op with
  | inner o =>
    obtain ⟨sends,inner,-,rfl⟩:=exec_inner cfg hx
    obtain ⟨x,hx,rfl⟩:=List.mem_map.mp hj
    cases hh
    exact List.mem_append_left _ hx
  | spawn child =>
    obtain rfl:=List.mem_singleton.mp hj
    rw [show job.readerOf=none from ha] at hh
    cases hh
  | _ => cases hj

theorem ends_own (ha : readerMonitor.allowed m (.inner o)) : ∀ h∈o.ends, m.own=some h := by
  intro h hh
  cases o with
  | readerEof | readerError => rw [List.mem_singleton.mp hh]; exact ha.1
  | _ => cases hh

theorem next_ended {r : op.Res} (h : (readerMonitor.next m ⟨op,r⟩).ended=true) :
    m.ended=true ∨ ∃ o h, op=.inner o ∧ o.ends=[h] := by
  cases op with
  | inner o => cases o with
    | readerEof x | readerError x => exact .inr ⟨_,x,rfl,rfl⟩
    | _ => exact .inl h
  | world o => cases o <;> exact .inl h
  | _ => exact .inl h

theorem readers_hold (hC : ∀ p l, C p l → FreshHandles p l)
    (hr : (service cfg).Reach C (.new cfg) p) :
    Holds readerMonitor Readers.start Ended (fun s _ job m => Reads s job m) p := by
  refine Lib.reach_holds (service cfg) readerMonitor Readers.start C Readers.Done Readers.body
    (fun _ _ _ _ _ _ => trivial) (fun _ h => (by cases h)) ?_ ?_ ?_ ?_ hr
  · intro p job _ _ he _
    refine ⟨rfl,fun h hh => ?_,fun he => (by cases he)⟩
    cases job with
    | reader x => exact Bool.noConfusion (show false=true from he)
    | _ => cases hh
  · intro p i t op env r s hp hi hf
    have hme:=hi.2 i t hf.task
    have hmono:=hme.mono (exec_histories cfg hf.exec).1 (exec_histories cfg hf.exec).2
    by_cases ho : ∃ o, op=.inner o
    · obtain ⟨o,rfl⟩:=ho
      obtain ⟨sends,inner,hc,rfl⟩:=exec_inner cfg hf.exec
      refine ⟨fun h hh => ?_,by rw [Readers.next_own]; exact hme.own,hmono.known,fun he h hj => ?_⟩
      · rcases List.mem_append.mp hh with hh | hh
        · have hown:=hme.own ▸ ends_own hf.allowed h hh
          exact ⟨hc.ends_gone h hh,hmono.known h hown⟩
        · obtain ⟨hnone,hknown⟩:=hi.1 h hh
          refine ⟨?_,List.mem_append_right _ hknown⟩
          cases hw : inner.workers.get h with
          | none => exact hw
          | some w =>
            rcases hc.worker_origin hw with ⟨v,hv⟩ | hm
            · rw [hnone] at hv
              cases hv
            · exact absurd hknown (hC _ _ hf.cond h hm)
      · rcases next_ended he with he | ⟨o',x,hoo,hx⟩
        · exact hmono.ended he h hj
        · cases hoo
          have hown:=ends_own hf.allowed x (by rw [hx]; exact List.mem_singleton_self _)
          rw [hme.own,hj] at hown
          cases hown
          exact List.mem_append_left _ (by
            change h∈o.ends
            rw [hx]
            exact List.mem_singleton_self _)
    · have hs:=exec_outer cfg hf.exec fun o he => ho ⟨o,he⟩
      refine ⟨?_,by rw [Readers.next_own]; exact hme.own,hmono.known,fun he h hj => ?_⟩
      · intro h hh
        rw [hs.ended] at hh
        rw [hs.inner,hs.handles]
        exact hi.1 h hh
      · rcases next_ended he with he | ⟨o,x,rfl,-⟩
        · exact hmono.ended he h hj
        · exact absurd ⟨o,rfl⟩ ho
  · intro p i t op env r s j u _ hi hf _ hu
    exact (hi.2 j u hu).mono (exec_histories cfg hf.exec).1 (exec_histories cfg hf.exec).2
  · intro p i t op env r s job j _ _ hf hj _
    exact Reads.fork cfg hf.allowed hf.exec hj

theorem readers_exist (hr : (service cfg).Reach C (.new cfg) p) :
    ∀ h∈p.state.handles, ∃ t∈p.tasks, t.call=.reader h := by
  induction hr with
  | init => intro h hh; cases hh
  | @step p q l hp hs hc ih =>
    intro h hh
    cases l with
    | start job =>
      cases hs with
      | start he =>
        obtain ⟨t,ht,hj⟩:=ih h hh
        exact ⟨t,List.mem_append_left _ ht,hj⟩
    | run i e =>
      have hold:=fun hm => hs.call_stays (ih h hm)
      have hnew:=fun hm => hs.fork_starts (c := .reader h) hm
      cases hs with
      | @run i t op k env r s ht hk hx =>
        by_cases ho : ∃ o, op=.inner o
        · obtain ⟨o,rfl⟩:=ho
          obtain ⟨sends,inner,-,rfl⟩:=exec_inner cfg hx
          rcases List.mem_append.mp hh with hm | hm
          · exact hnew (List.mem_map.mpr ⟨h,hm,rfl⟩)
          · exact hold hm
        · change h∈s.handles at hh
          rw [(exec_outer cfg hx fun o he => ho ⟨o,he⟩).handles] at hh
          exact hold hh

end Runs

/-- What a delivery goes back to in the tasks' histories: a line that the reader of the worker has
read, the end of what it can read, or a close. -/
def Delivery.Source (tasks : List (Lib.Task Op.Res Job)) (d : Delivery) : Prop :=
  match d.cause with
  | .line h id => ∃ t∈tasks, t.call=.reader h ∧
      ∃ r : RpcResponse, ⟨.world (.readLine h),.response r⟩∈t.log ∧ r.id=id ∧ d.answer=r.answer
  | .stdoutClosed h => ∃ t∈tasks, t.call=.reader h ∧ ⟨.world (.readLine h),.closed⟩∈t.log ∧
      d.answer=.error ("Worker "++h++" exited unexpectedly")
  | .stdoutFailed h => ∃ t∈tasks, t.call=.reader h ∧
      ∃ e, ⟨.world (.readLine h),.failed e⟩∈t.log ∧
        d.answer=.error ("Worker "++h++" I/O error: "++e)
  | .workerClosed h => ∃ t∈tasks, (∃ reason, ⟨.inner (.closeRemove h reason),()⟩∈t.log) ∧
      d.answer=.error ("Worker "++h++" closed")

theorem Delivery.Source.mono {ts us : List (Lib.Task Op.Res Job)} {d : Delivery}
    (hd : d.Source ts) (h : ∀ t∈ts, ∃ u∈us, u.call=t.call ∧ t.log ⊆ u.log) : d.Source us := by
  obtain ⟨chan,cause,answer⟩:=d
  cases cause with
  | line x id =>
    obtain ⟨t,ht,hc,r,hl,hr⟩:=hd
    obtain ⟨u,hu,huc,hul⟩:=h t ht
    exact ⟨u,hu,huc.trans hc,r,hul hl,hr⟩
  | stdoutClosed x =>
    obtain ⟨t,ht,hc,hl,hr⟩:=hd
    obtain ⟨u,hu,huc,hul⟩:=h t ht
    exact ⟨u,hu,huc.trans hc,hul hl,hr⟩
  | stdoutFailed x =>
    obtain ⟨t,ht,hc,e,hl,hr⟩:=hd
    obtain ⟨u,hu,huc,hul⟩:=h t ht
    exact ⟨u,hu,huc.trans hc,e,hul hl,hr⟩
  | workerClosed x =>
    obtain ⟨t,ht,⟨reason,hl⟩,hr⟩:=hd
    obtain ⟨u,hu,-,hul⟩:=h t ht
    exact ⟨u,hu,⟨reason,hul hl⟩,hr⟩

theorem source_of_run {cfg : RouterConfig} {s : RouterInner} {d : Delivery}
    (hd : d∈(o.run cfg env s).2.1) {t u : Lib.Task Op.Res Job}
    (ha : readerMonitor.allowed (readerMonitor.track Readers.start t) (.inner o))
    (hu : u.call=t.call ∧ t.log ⊆ u.log) (ho : ∃ r, ⟨.inner o,r⟩∈u.log)
    {ts : List (Lib.Task Op.Res Job)} (hm : u∈ts) : d.Source ts := by
  have hcall : ∀ h, (readerMonitor.track Readers.start t).own=some h → u.call=.reader h := by
    intro h hh
    rw [Readers.track_own,← hu.1] at hh
    cases hj : u.call with
    | reader x => rw [hj] at hh; cases hh; rfl
    | _ => rw [hj] at hh; cases hh
  cases o with
  | readerLine h r =>
    obtain ⟨hown,hl⟩:=ha
    simp only [InnerOp.run,RouterInner.readerLine] at hd
    split at hd
    · split at hd
      · obtain rfl:=List.mem_singleton.mp hd
        exact ⟨u,hm,hcall h hown,r,hu.2 (Readers.lines_logged hl),rfl,rfl⟩
      · cases hd
    · cases hd
  | readerEof h =>
    obtain ⟨hown,hl⟩:=ha
    simp only [InnerOp.run,RouterInner.readerEof] at hd
    split at hd
    · obtain ⟨e,-,rfl⟩:=List.mem_map.mp hd
      exact ⟨u,hm,hcall h hown,hu.2 (Readers.lines_logged hl),rfl⟩
    · cases hd
  | readerError h error =>
    obtain ⟨hown,hl⟩:=ha
    simp only [InnerOp.run,RouterInner.readerError] at hd
    split at hd
    · obtain ⟨e,-,rfl⟩:=List.mem_map.mp hd
      exact ⟨u,hm,hcall h hown,error,hu.2 (Readers.lines_logged hl),rfl⟩
    · cases hd
  | closeRemove h reason =>
    obtain ⟨r,ho⟩:=ho
    simp only [InnerOp.run,RouterInner.closeRemove] at hd
    split at hd
    · obtain ⟨e,-,rfl⟩:=List.mem_map.mp hd
      exact ⟨u,hm,⟨reason,ho⟩,rfl⟩
    · cases hd
  | _ => cases hd

theorem sources_exist (cfg : RouterConfig) {C : Service → Move → Prop} {p : Service}
    (hr : (service cfg).Reach C (.new cfg) p) : ∀ d∈p.state.sent, d.Source p.tasks := by
  refine Lib.reach_pool (service cfg) readerMonitor Readers.start C Readers.Done
    (Ψ := fun p => ∀ d∈p.state.sent, d.Source p.tasks) Readers.body (fun _ _ _ _ _ _ => trivial)
    (fun _ h => (by cases h)) ?_ ?_ hr
  · intro p c _ ih _ _ d hd
    exact (ih d hd).mono fun t ht => ⟨t,List.mem_append_left _ ht,rfl,List.Subset.refl _⟩
  · intro p i t op k env r s _ ih hf d hd
    have hself:=List.mem_of_getElem? ((service cfg).resumed_self hf.task op k r s)
    have hmono : ∀ u∈p.tasks, ∃ v∈((service cfg).resumed p i t op k r s).tasks,
        v.call=u.call ∧ u.log ⊆ v.log := by
      intro u hu
      rcases (service cfg).resumed_other hf.task k r s hu with rfl | hu
      · exact ⟨_,hself,rfl,List.subset_cons_self _ _⟩
      · exact ⟨u,hu,rfl,List.Subset.refl _⟩
    by_cases ho : ∃ o, op=.inner o
    · obtain ⟨o,rfl⟩:=ho
      have hx:=hf.exec
      cases hx
      rcases List.mem_append.mp hd with hd | hd
      · refine source_of_run hd hf.allowed ?_ ?_ hself
        · exact ⟨rfl,List.subset_cons_self _ _⟩
        · exact ⟨_,List.mem_cons_self⟩
      · exact (ih d hd).mono hmono
    · change d∈s.sent at hd
      rw [(exec_outer cfg hf.exec fun o he => ho ⟨o,he⟩).sent] at hd
      exact (ih d hd).mono hmono

/-- How requests and answers match up in a state. -/
structure Delivered (p : Service) : Prop where
  -- a caller that waits has a request of its own
  caller : ∀ (i : Nat) t h id c, p.tasks[i]?=some t →
    (requestMonitor.track (fun _ => Calls.none) t).stage=.waiting h id c →
    ⟨h,id,c⟩∈p.state.registered
  once : (p.state.sent.map Delivery.chan).Nodup
  -- an answer goes to the one request of its channel, and comes from that request's worker
  cause : ∀ d∈p.state.sent, ∃ g∈p.state.registered, g.chan=d.chan ∧ d.cause.Answers g ∧
    ∀ k∈p.state.registered, k.chan=d.chan → k=g
  -- the answer is what that worker's reader has read, or tells why nothing more will be read
  source : ∀ d∈p.state.sent, d.Source p.tasks
  settled : ∀ g∈p.state.registered,
    Xor (g.chan∈p.state.sent.map Delivery.chan) (g.Open p.state.inner)
  pending : ∀ h w id c, p.state.inner.workers.get h=some w → w.pending.get id=some c →
    ⟨h,id,c⟩∈p.state.registered ∧ h∉p.state.ended ∧
    ∃ t∈p.tasks, t.call=.reader h ∧ t.prog.finished=false

theorem reader_finished (cfg : RouterConfig) {C : Service → Move → Prop} {p : Service}
    (hC : ∀ p l, C p l → FreshHandles p l) (hr : (service cfg).Reach C (.new cfg) p)
    {t : Lib.Task Op.Res Job} (ht : t∈p.tasks) (hj : t.call=.reader h)
    (hf : t.prog.finished=true) : h∈p.state.ended := by
  obtain ⟨i,hi⟩:=List.mem_iff_getElem?.mp ht
  have hw:=Lib.conforms (service cfg) readerMonitor Readers.start C Readers.Done Readers.body
    (fun _ _ _ _ _ _ => trivial) hr i t hi
  have hd : Readers.Done t.call (readerMonitor.track Readers.start t) := by
    cases hp : t.prog with
    | ret a => rw [hp] at hw; exact hw
    | halt | call => rw [hp] at hf; cases hf
  have hown : t.call.readerOf=some h := by rw [hj]; rfl
  exact ((readers_hold cfg hC hr).2 i t hi).ended (hd (by rw [hown]; exact Option.some_ne_none _))
    h hown

/-- With fresh handles every registered request is answered at most once, by its own
worker's line or drain, and until then its worker is there and is being read. -/
theorem response_delivery (cfg : RouterConfig) {p : Service}
    (hr : (service cfg).Reach FreshHandles (.new cfg) p) : Delivered p := by
  have hl:=ledger_holds cfg hr
  have hC : ∀ p l, FreshHandles p l → FreshHandles p l := fun _ _ h => h
  refine ⟨fun i t h id c ht hw => (hl.2 i t ht).waiting h id c hw,hl.1.books.once,?_,
    sources_exist cfg hr,?_,?_⟩
  · intro d hd
    obtain ⟨g,hg,hc,ha⟩:=hl.1.books.caused d hd
    exact ⟨g,hg,hc,ha,fun k hk hkc => hl.1.oneEach k hk g hg (hkc.trans hc.symm)⟩
  · intro g hg
    have hnot : g.Open p.state.inner → g.chan∉p.state.sent.map Delivery.chan := by
      rintro ⟨w,hw,hp⟩
      exact hl.1.books.waiting _ w _ _ hw hp
    rcases requests_settled cfg hC hr g hg with hs | ho
    · exact .inl ⟨hs,fun ho => hnot ho hs⟩
    · exact .inr ⟨ho,hnot ho⟩
  · intro h w id c hw hp
    have hend : h∉p.state.ended := by
      intro he
      rw [((readers_hold cfg hC hr).1 h he).1] at hw
      cases hw
    obtain ⟨t,ht,hj⟩:=readers_exist cfg hr h (workers_known cfg hr h w hw)
    refine ⟨hl.1.books.pending h w id c hw hp,hend,t,ht,hj,?_⟩
    cases hf : t.prog.finished with
    | false => rfl
    | true => exact absurd (reader_finished cfg hC hr ht hj hf) hend

/-- A run in which one request is answered by its line and the worker then ends. -/
theorem response_delivery_answered :
    ∃ p, (service sampleConfig).Reach FreshHandles (.new sampleConfig) p ∧
      p.state.sent.map Delivery.cause=[.line "0000000000000001" "r1"] ∧ Delivered p := by
  obtain ⟨p,hp,ht⟩:=(service sampleConfig).play_when FreshHandles (.new sampleConfig)
    (.start (.openIdb (openRequest "/a"))::steps 0 (idles 2++spawnInputs "/a" 1++idles 10)++
      steps 1 ({rounds := 2}::{line := .response ⟨"r1",some (.obj []),none⟩}::idles 3++
        {line := .closed}::idles 3))
    (fun p => p.state.sent.map Delivery.cause=[.line "0000000000000001" "r1"]) (by decide)
  exact ⟨p,hp,of_decide_eq_true ht,response_delivery sampleConfig hp⟩

end Router
