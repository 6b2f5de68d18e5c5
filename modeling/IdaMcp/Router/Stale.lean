import IdaMcp.Router.Delivery

/-!
# Entries of requests whose callers are gone

A caller that gives up after its timeout does not take its entry out of the
worker's map. Every other way to return leaves no entry behind.
-/

namespace Router
open Lib (Map Monitor Holds Fired)
variable {c : Chan} {h : DbHandle} {p : Service}

/-- No caller waits under this id. -/
def RouterInner.Unpended (s : RouterInner) (id : ReqId) : Prop :=
  ∀ h w, s.workers.get h=some w → w.pending.get id=none

theorem Change.unpended {cfg : RouterConfig} {s t : RouterInner} {tr : Trace} {id : ReqId}
    (hc : Change cfg s tr t) (hu : s.Unpended id) (hr : ∀ g∈tr.registers, g.id≠id) :
    t.Unpended id := by
  intro h w hw
  cases hp : w.pending.get id with
  | none => rfl
  | some c =>
    rcases hc.pending_origin hw hp with ⟨v,hv,hvp⟩ | hg
    · rw [hu h v hv] at hvp
      cases hvp
    · exact absurd rfl (hr _ hg)

theorem senderAlive_iff {s : Shared} : s.senderAlive c=true ↔
    ∃ h w id, s.inner.workers.get h=some w ∧ w.pending.get id=some c := by
  simp only [Shared.senderAlive,List.any_eq_true,decide_eq_true_eq]
  constructor
  · rintro ⟨e,he,x,hx,rfl⟩
    exact ⟨e.1,e.2,x.1,(Map.get_eq_some_iff _ _ _).mpr he,(Map.get_eq_some_iff _ _ _).mpr hx⟩
  · rintro ⟨h,w,id,hw,hp⟩
    exact ⟨⟨h,w⟩,(Map.get_eq_some_iff _ _ _).mp hw,⟨id,c⟩,(Map.get_eq_some_iff _ _ _).mp hp,rfl⟩

namespace Ledger
variable {s : Shared} {id : ReqId}

theorem unpended_unregistered (hl : Ledger s) (hn : id∉s.registered.map Registration.id) :
    s.inner.Unpended id := by
  intro h w hw
  cases hp : w.pending.get id with
  | none => rfl
  | some c => exact absurd (List.mem_map.mpr ⟨_,hl.books.pending h w id c hw hp,rfl⟩) hn

theorem pending_chan (hl : Ledger s) {x : DbHandle} {w : WorkerProcess} {d : Chan}
    (hg : ⟨h,id,c⟩∈s.registered) (hw : s.inner.workers.get x=some w)
    (hp : w.pending.get id=some d) : d=c := by
  have he:=hl.registered_unique (hl.books.pending x w id d hw hp) hg rfl
  cases he
  rfl

theorem unpended_received (hl : Ledger s) (hg : ⟨h,id,c⟩∈s.registered)
    (hd : c∈s.sent.map Delivery.chan ∨ s.senderAlive c=false) : s.inner.Unpended id := by
  intro x w hw
  cases hp : w.pending.get id with
  | none => rfl
  | some d =>
    obtain rfl:=hl.pending_chan hg hw hp
    rcases hd with hd | hd
    · exact absurd hd (hl.books.waiting x w id d hw hp)
    · rw [senderAlive_iff.mpr ⟨x,w,id,hw,hp⟩] at hd
      cases hd

theorem still_pending (hl : Ledger s) (hg : ⟨h,id,c⟩∈s.registered)
    (hd : s.senderAlive c=true) : ¬s.inner.Unpended id := by
  obtain ⟨x,w,k,hw,hp⟩:=senderAlive_iff.mp hd
  have he:=hl.oneEach _ (hl.books.pending x w k c hw hp) _ hg rfl
  cases he
  intro hu
  rw [hu _ w hw] at hp
  cases hp

end Ledger

/-- The step is not a caller that gives up. -/
def InTime (_ : Service) (l : Move) : Prop := match l with
  | .run _ ⟨.receive _,.timedOut⟩ => False
  | _ => True

instance (p : Service) (l : Move) : Decidable (InTime p l) := by
  unfold InTime
  split <;> infer_instance

/-- The ids of the calls of task `t` that have returned. -/
def returnedOf (t : Lib.Task Op.Res Job) : List ReqId :=
  (requestMonitor.track (fun _ => Calls.none) t).returned

/-- No request of a call that has returned is still in a worker's map. -/
def NoStale (p : Service) : Prop :=
  ∀ (i : Nat) t, p.tasks[i]?=some t → ∀ id∈returnedOf t, p.state.inner.Unpended id

section Step
variable {cfg : RouterConfig} {i : Nat} {env : Env} {s t : Shared} {m : Calls}

theorem unpended_inner {o : InnerOp} {r : o.Res} (hl : Ledger s) (hp : Placed s i m)
    (hu : ∀ id∈m.returned, s.inner.Unpended id) (ha : requestMonitor.allowed m (.inner o))
    (hx : exec cfg i (.inner o) env s=some (r,t)) :
    ∀ id∈(requestMonitor.next m ⟨.inner o,r⟩).returned, t.inner.Unpended id := by
  obtain ⟨sends,inner,hc,rfl⟩:=exec_inner cfg hx
  -- the id that a section registers is that of a call still under way
  have hold : ∀ id∈m.returned, inner.Unpended id := by
    intro id hid
    refine hc.unpended (hu id hid) fun g hg he => ?_
    have hw:=registers_own ha r g hg
    exact (hp.current g.id (by rw [hw]; rfl)).2 (he ▸ hid)
  cases o with
  | routeRegister h id c =>
    cases r with
    | ok _ => exact hold
    | error e =>
      intro x hx
      rcases List.mem_cons.mp hx with rfl | hx
      · have hw : m.stage=.wired x c := ha
        have hn:=hl.unpended_unregistered (hp.unregistered x (by rw [hw]; rfl))
        exact hc.unpended hn fun _ h => (by cases h)
      · exact hold x hx
  | _ => exact hold

theorem unpended_receive {r : Received} (hl : Ledger s) (hp : Placed s i m)
    (hu : ∀ id∈m.returned, s.inner.Unpended id) (ha : requestMonitor.allowed m (.receive c))
    (hx : exec cfg i (.receive c) env s=some (r,t)) (hr : r≠.timedOut) :
    ∀ id∈(requestMonitor.next m ⟨.receive c,r⟩).returned, t.inner.Unpended id := by
  obtain ⟨rfl,hd⟩:=exec_receive cfg hx
  obtain ⟨h,id,hw⟩:=ha
  have hn : requestMonitor.next m ⟨.receive c,r⟩=⟨.idle,id::m.returned⟩ := by
    simp only [requestMonitor,hw]
  rw [hn]
  intro x hx
  rcases List.mem_cons.mp hx with rfl | hx
  · refine hl.unpended_received (hp.waiting h x c hw) ?_
    cases r with
    | answer a => exact .inl hd
    | dropped => exact .inr hd
    | timedOut => exact absurd rfl hr
  · exact hu x hx

end Step

theorem noStale_holds (cfg : RouterConfig) (hr : (service cfg).Reach InTime (.new cfg) p) :
    Holds requestMonitor (fun _ => Calls.none) (fun _ => True)
      (fun s _ _ m => ∀ id∈m.returned, s.inner.Unpended id) p := by
  refine Lib.reach_holds (service cfg) requestMonitor (fun _ => Calls.none) InTime
    (fun _ m => m.stage=.idle) (fun c => Requests.body c _ rfl) (fun _ _ _ _ _ _ => trivial)
    trivial (fun _ _ _ _ _ _ _ h => (by cases h)) ?_ ?_
    (fun _ _ _ _ _ _ _ _ _ _ _ _ _ _ _ h => (by cases h)) hr
  · intro p i t op env r s hp hi hf
    have hl:=ledger_holds cfg hp
    have hme:=hi.2 i t hf.task
    have hx : exec cfg i op env p.state=some (r,s) := hf.exec
    refine ⟨trivial,?_⟩
    cases op with
    | inner o => exact unpended_inner hl.1 (hl.2 i t hf.task) hme hf.allowed hf.exec
    | receive c =>
      have hr : r≠.timedOut := by
        rintro rfl
        exact hf.cond
      exact unpended_receive hl.1 (hl.2 i t hf.task) hme hf.allowed hx hr
    | _ =>
      rw [(exec_outer cfg hx fun _ h => (by cases h)).inner]
      exact hme
  · intro p i t op env r s j u hp hi hf hji hu id hid
    have hl:=ledger_holds cfg hp
    have hyou:=hi.2 j u hu id hid
    by_cases ho : ∃ o, op=.inner o
    · obtain ⟨o,rfl⟩:=ho
      obtain ⟨sends,inner,hc,rfl⟩:=exec_inner cfg hf.exec
      refine hc.unpended hyou fun g hg he => ?_
      -- the two ids belong to different tasks
      have hw:=registers_own hf.allowed r g hg
      have h1:=((hl.2 i t hf.task).current g.id (by rw [hw]; rfl)).1
      have h2:=(hl.2 j u hu).returned id hid
      rw [he] at h1
      exact hji (hl.1.owner_unique h2 h1)
    · rw [(exec_outer cfg hf.exec fun o he => ho ⟨o,he⟩).inner]
      exact hyou

theorem timeout_leaves_entry (cfg : RouterConfig) {C : Service → Move → Prop} {q : Service}
    {l : Move} (hr : (service cfg).Reach C (.new cfg) p) (hs : (service cfg).Step p l q)
    (hl : ¬InTime p l) : ¬NoStale q := by
  cases hs with
  | start => exact absurd trivial hl
  | @run i t op k env r s ht hk hx =>
    cases op with
    | receive c =>
      obtain rfl : r=.timedOut := by
        cases r with
        | timedOut => rfl
        | _ => exact absurd trivial hl
      have hw:=Lib.conforms (service cfg) requestMonitor (fun _ => Calls.none) C
        (fun _ m => m.stage=.idle) (fun c => Requests.body c _ rfl) (fun _ _ _ _ _ _ => trivial)
        hr i t ht
      rw [hk,Monitor.wp_call] at hw
      obtain ⟨h,id,hw⟩:=hw.1
      have hx : exec cfg i (.receive c) env p.state=some (.timedOut,s) := hx
      obtain ⟨rfl,hd⟩:=exec_receive cfg hx
      have hb:=ledger_holds cfg hr
      have hn : requestMonitor.next (requestMonitor.track (fun _ => Calls.none) t)
          ⟨.receive c,.timedOut⟩=⟨.idle,id::returnedOf t⟩ := by
        simp only [requestMonitor] at hw ⊢
        rw [hw]
        rfl
      have hret : id∈returnedOf ⟨t.call,k .timedOut,⟨.receive c,.timedOut⟩::t.log⟩ := by
        change id∈(requestMonitor.next (requestMonitor.track (fun _ => Calls.none) t)
          ⟨.receive c,.timedOut⟩).returned
        rw [hn]
        exact List.mem_cons_self
      intro hno
      exact hb.1.still_pending ((hb.2 i t ht).waiting h id c hw) hd
        (hno i _ ((service cfg).resumed_self ht (.receive c) k .timedOut _) id hret)
    | _ => exact absurd trivial hl

/-- The map is free of stale entries exactly in the runs in which no caller gives up. -/
theorem no_stale_pending (cfg : RouterConfig) :
    (∀ p, (service cfg).Reach InTime (.new cfg) p → NoStale p) ∧
      ∀ p l q, (service cfg).Reach InTime (.new cfg) p → (service cfg).Step p l q →
        ¬InTime p l → ¬NoStale q :=
  ⟨fun _ hr => (noStale_holds cfg hr).2,fun _ _ _ => timeout_leaves_entry cfg⟩

/-- A run whose request was answered by the worker. -/
theorem no_stale_pending_answered :
    ∃ p, (service sampleConfig).Reach InTime (.new sampleConfig) p ∧
      (p.tasks[0]?.any fun t => returnedOf t=["r1"]) ∧ NoStale p := by
  obtain ⟨p,hp,ht⟩:=(service sampleConfig).play_when InTime (.new sampleConfig)
    (.start (.openIdb (openRequest "/a"))::steps 0 (idles 2++spawnInputs "/a" 1++idles 10)++
      steps 1 ({rounds := 1}::{line := .response ⟨"r1",some (.obj []),none⟩}::idles 3)++
      steps 0 (idles 1))
    (fun p => p.tasks[0]?.any fun t => returnedOf t=["r1"]) (by decide)
  exact ⟨p,hp,ht,(no_stale_pending sampleConfig).1 p hp⟩

theorem not_noStale {i : Nat} {id : ReqId} (ht : (p.tasks[i]?.any fun t => id∈returnedOf t)=true)
    (hw : ((p.state.inner.workers.get h).any fun w => (w.pending.get id).isSome)=true) :
    ¬NoStale p := by
  obtain ⟨t,ht,hid⟩:=(Option.any_eq_true _ _).mp ht
  obtain ⟨w,hw,hp⟩:=(Option.any_eq_true _ _).mp hw
  intro hno
  rw [hno i t ht id (of_decide_eq_true hid) h w hw] at hp
  cases hp

/-- The open request times out: the call has returned, and its entry is still there. -/
theorem timed_out_request_pending :
    ∃ p, (service sampleConfig).Reach (fun _ _ => True) (.new sampleConfig) p ∧
      p.state.inner.tenantPending "default"=1 ∧ ¬NoStale p := by
  obtain ⟨p,hp,ht⟩:=(service sampleConfig).play_free (.new sampleConfig)
    (.start (.openIdb (openRequest "/a"))::steps 0 (idles 2++spawnInputs "/a" 1++idles 10++
      [{timeUp := true}]))
    (fun p => (p.tasks[0]?.any fun t => "r1"∈returnedOf t) &&
      ((p.state.inner.workers.get "0000000000000001").any fun w => (w.pending.get "r1").isSome) &&
      p.state.inner.tenantPending "default"=1) (by decide)
  simp only [Bool.and_eq_true] at ht
  exact ⟨p,hp,of_decide_eq_true ht.2,not_noStale ht.1.1 ht.1.2⟩

end Router
