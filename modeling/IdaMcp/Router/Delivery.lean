import IdaMcp.Router.Books
import IdaMcp.Router.Requests

/-!
# Every request is answered by its own worker, once

Ids come from the counter and channels are made one for each id, so no two
requests share either; a task registers the id and the channel of its own call.
-/

namespace Router
open Lib (Map Monitor Holds Fired)
variable {id : ReqId} {o : InnerOp} {op : Op}

/-- The ids, channels and registrations of all requests so far. -/
structure Ledger (s : Shared) : Prop where
  named : ∀ x∈s.named, ∃ k, k < s.inner.reqCounter ∧ x.1=requestId k
  namedOnce : (s.named.map Prod.fst).Nodup
  channel : ∀ x∈s.channels, x.1 < s.nextChan
  channelOnce : (s.channels.map Prod.fst).Nodup
  wired : ∀ g∈s.registered, (g.chan,g.id)∈s.channels
  registeredNamed : ∀ g∈s.registered, ∃ i, (g.id,i)∈s.named
  registeredOnce : (s.registered.map Registration.id).Nodup
  books : Books s.registered s.sent s.inner

namespace Ledger
variable {s : Shared}

theorem new (cfg : RouterConfig) : Ledger (.new cfg) :=
  ⟨fun _ h => (by cases h),.nil,fun _ h => (by cases h),.nil,fun _ h => (by cases h),
    fun _ h => (by cases h),.nil,.new⟩

/-- Only one task got the id. -/
theorem owner_unique (hl : Ledger s) {i j : Nat} (hi : (id,i)∈s.named)
    (hj : (id,j)∈s.named) : i=j := by
  have h:=List.inj_on_of_nodup_map hl.namedOnce hi hj rfl
  exact congrArg Prod.snd h

theorem channel_unique (hl : Ledger s) {c : Chan} {k : ReqId} (h1 : (c,id)∈s.channels)
    (h2 : (c,k)∈s.channels) : id=k := by
  have h:=List.inj_on_of_nodup_map hl.channelOnce h1 h2 rfl
  exact congrArg Prod.snd h

theorem registered_unique (hl : Ledger s) {g k : Registration} (hg : g∈s.registered)
    (hk : k∈s.registered) (h : g.id=k.id) : g=k :=
  List.inj_on_of_nodup_map hl.registeredOnce hg hk h

theorem oneEach (hl : Ledger s) : OneEach s.registered := by
  intro g hg k hk hc
  have h1:=hl.wired g hg
  have h2:=hl.wired k hk
  rw [← hc] at h2
  exact hl.registered_unique hg hk (hl.channel_unique h1 h2)

/-- A section keeps the ledger, if it registers only an id that was given out, under
the channel made for it, and for the first time. -/
theorem change {cfg : RouterConfig} {tr : Trace} {t : RouterInner} (i : Nat) (hl : Ledger s)
    (hc : Change cfg s.inner tr t)
    (hreg : ∀ g∈tr.registers, (g.chan,g.id)∈s.channels ∧ (∃ j, (g.id,j)∈s.named) ∧
      g.id∉s.registered.map Registration.id) : Ledger (s.commit i tr t) where
  named x hx := by
    rcases List.mem_append.mp hx with hx | hx
    · obtain ⟨id,hid,rfl⟩:=List.mem_map.mp hx
      rcases hc.counter with ⟨hn,-⟩ | ⟨hn,ht⟩
      · rw [hn] at hid; cases hid
      · rw [hn] at hid
        change ∃ k, k < t.reqCounter ∧ _
        exact ⟨s.inner.reqCounter,by omega,List.mem_singleton.mp hid⟩
    · obtain ⟨k,hk,he⟩:=hl.named x hx
      change ∃ k, k < t.reqCounter ∧ _
      refine ⟨k,?_,he⟩
      rcases hc.counter with ⟨-,ht⟩ | ⟨-,ht⟩ <;> omega
  namedOnce := by
    change ((tr.names.map fun id => (id,i))++s.named).map Prod.fst |>.Nodup
    rcases hc.counter with ⟨hn,-⟩ | ⟨hn,-⟩
    · simpa [hn] using hl.namedOnce
    · rw [hn]
      refine List.nodup_cons.mpr ⟨fun hm => ?_,hl.namedOnce⟩
      -- an id given out earlier was made from a smaller counter
      obtain ⟨x,hx,he⟩:=List.mem_map.mp hm
      obtain ⟨k,hk,hid⟩:=hl.named x hx
      have hkn:=requestId_injective (hid.symm.trans he)
      omega
  channel := hl.channel
  channelOnce := hl.channelOnce
  wired g hg := by
    rcases List.mem_append.mp hg with hg | hg
    · exact (hreg g hg).1
    · exact hl.wired g hg
  registeredNamed g hg := by
    rcases List.mem_append.mp hg with hg | hg
    · obtain ⟨j,hj⟩:=(hreg g hg).2.1
      exact ⟨j,List.mem_append_right _ hj⟩
    · obtain ⟨j,hj⟩:=hl.registeredNamed g hg
      exact ⟨j,List.mem_append_right _ hj⟩
  registeredOnce := by
    change ((tr.registers++s.registered).map Registration.id).Nodup
    rcases hc.registers_one with hr | ⟨g,hr⟩
    · simpa [hr] using hl.registeredOnce
    · rw [hr]
      exact List.nodup_cons.mpr ⟨(hreg g (by simp [hr])).2.2,hl.registeredOnce⟩
  books := by
    refine hl.books.change hl.oneEach hc fun g hg k hk hck => ?_
    have h1:=hl.wired k hk
    rw [hck] at h1
    have he:=hl.channel_unique h1 (hreg g hg).1
    exact (hreg g hg).2.2 (List.mem_map.mpr ⟨k,hk,he⟩)

/-- The ledger after an operation outside `inner` that makes no channel. -/
theorem same {t : Shared} (hl : Ledger s) (hs : SameCore s t)
    (hc : t.channels=s.channels ∧ t.nextChan=s.nextChan) : Ledger t := by
  obtain ⟨h1,h2⟩:=hc
  refine ⟨?_,?_,?_,?_,?_,?_,?_,?_⟩
  · rw [hs.named,hs.inner]; exact hl.named
  · rw [hs.named]; exact hl.namedOnce
  · rw [h1,h2]; exact hl.channel
  · rw [h1]; exact hl.channelOnce
  · rw [hs.registered,h1]; exact hl.wired
  · rw [hs.registered,hs.named]; exact hl.registeredNamed
  · rw [hs.registered]; exact hl.registeredOnce
  · rw [hs.registered,hs.sent,hs.inner]; exact hl.books

theorem newChannel (hl : Ledger s) (id : ReqId) : Ledger {s with
    nextChan := s.nextChan+1
    channels := (s.nextChan,id)::s.channels} := by
  refine ⟨hl.named,hl.namedOnce,?_,?_,?_,hl.registeredNamed,hl.registeredOnce,hl.books⟩
  · intro x hx
    rcases List.mem_cons.mp hx with rfl | hx
    · exact Nat.lt_succ_self _
    · exact Nat.lt_succ_of_lt (hl.channel x hx)
  · refine List.nodup_cons.mpr ⟨fun hm => ?_,hl.channelOnce⟩
    obtain ⟨x,hx,he⟩:=List.mem_map.mp hm
    exact absurd (hl.channel x hx) (by rw [he]; exact Nat.lt_irrefl _)
  · intro g hg
    exact List.mem_cons_of_mem _ (hl.wired g hg)

end Ledger

/-- What the stage of task `i` says about the ids and channels. -/
structure Placed (s : Shared) (i : Nat) (m : Calls) : Prop where
  returned : ∀ id∈m.returned, (id,i)∈s.named
  current : ∀ id, m.stage.id?=some id → (id,i)∈s.named ∧ id∉m.returned
  unregistered : ∀ id, m.stage.unregistered?=some id → id∉s.registered.map Registration.id
  wired : ∀ id c, m.stage=.wired id c → (c,id)∈s.channels
  waiting : ∀ h id c, m.stage=.waiting h id c → ⟨h,id,c⟩∈s.registered

namespace Placed
variable {s t : Shared} {i : Nat} {m : Calls}

theorem none (s : Shared) (i : Nat) : Placed s i .none :=
  ⟨fun _ h => (by cases h),fun _ h => (by cases h),fun _ h => (by cases h),
    fun _ _ h => (by cases h),fun _ _ _ h => (by cases h)⟩

theorem mono (hp : Placed s i m) (hn : s.named ⊆ t.named) (hc : s.channels ⊆ t.channels)
    (hg : s.registered ⊆ t.registered)
    (hu : ∀ id, m.stage.unregistered?=some id → id∉t.registered.map Registration.id) :
    Placed t i m where
  returned id hid := hn (hp.returned id hid)
  current id hid := ⟨hn (hp.current id hid).1,(hp.current id hid).2⟩
  unregistered := hu
  wired id c h := hc (hp.wired id c h)
  waiting h id c hw := hg (hp.waiting h id c hw)

theorem same (hp : Placed s i m) (hs : SameCore s t) (hc : t.channels=s.channels) :
    Placed t i m := by
  refine hp.mono ?_ ?_ ?_ ?_
  · rw [hs.named]; exact List.Subset.refl _
  · rw [hc]; exact List.Subset.refl _
  · rw [hs.registered]; exact List.Subset.refl _
  · rw [hs.registered]; exact hp.unregistered

theorem commit {tr : Trace} {inner : RouterInner} (j : Nat) (hp : Placed s i m)
    (hu : ∀ id, m.stage.unregistered?=some id → ∀ g∈tr.registers, g.id≠id) :
    Placed (s.commit j tr inner) i m := by
  refine hp.mono (List.subset_append_right _ _) (List.Subset.refl _)
    (List.subset_append_right _ _) fun id hid hm => ?_
  obtain ⟨g,hg,rfl⟩:=List.mem_map.mp hm
  rcases List.mem_append.mp hg with hg | hg
  · exact hu g.id hid g hg rfl
  · exact hp.unregistered g.id hid (List.mem_map.mpr ⟨g,hg,rfl⟩)

theorem finished (hp : Placed s i m) (hid : m.stage.id?=some id) :
    Placed s i ⟨.idle,id::m.returned⟩ where
  returned x hx := by
    rcases List.mem_cons.mp hx with rfl | hx
    · exact (hp.current x hid).1
    · exact hp.returned x hx
  current _ h := by cases h
  unregistered _ h := by cases h
  wired _ _ h := by cases h
  waiting _ _ _ h := by cases h

end Placed

namespace Ledger
variable {s : Shared}

theorem next_unnamed (hl : Ledger s) (j : Nat) : (requestId s.inner.reqCounter,j)∉s.named := by
  intro hm
  obtain ⟨k,hk,he⟩:=hl.named _ hm
  have hkn:=requestId_injective he
  omega

theorem next_unregistered (hl : Ledger s) :
    requestId s.inner.reqCounter∉s.registered.map Registration.id := by
  intro hm
  obtain ⟨g,hg,he⟩:=List.mem_map.mp hm
  obtain ⟨j,hj⟩:=hl.registeredNamed g hg
  rw [he] at hj
  exact hl.next_unnamed j hj

end Ledger

theorem registers_own {m : Calls} (ha : requestMonitor.allowed m (.inner o))
    (r : o.Res) : ∀ g∈o.registers r, m.stage=.wired g.id g.chan := by
  intro g hg
  cases o with
  | routeRegister h id c =>
    cases r with
    | ok _ => obtain rfl:=List.mem_singleton.mp hg; exact ha
    | error _ => cases hg
  | _ => cases hg

section Step
variable {cfg : RouterConfig} {i : Nat} {env : Env} {s t : Shared} {m : Calls}

theorem Ledger.inner {r : o.Res} (hl : Ledger s) (hp : Placed s i m)
    (ha : requestMonitor.allowed m (.inner o)) (hx : exec cfg i (.inner o) env s=some (r,t)) :
    Ledger t := by
  obtain ⟨sends,inner,hc,rfl⟩:=exec_inner cfg hx
  refine hl.change i hc fun g hg => ?_
  have hw:=registers_own ha r g hg
  have hid : m.stage.unregistered?=some g.id := by rw [hw]; rfl
  exact ⟨hp.wired _ _ hw,⟨i,(hp.current _ (Stage.id?_of_unregistered? hid)).1⟩,
    hp.unregistered _ hid⟩

theorem exec_newReqId (hx : exec cfg i (.inner .newReqId) env s=some (id,t)) :
    id=requestId s.inner.reqCounter := by
  cases hx
  rfl

theorem Placed.inner {r : o.Res} (hl : Ledger s) (hp : Placed s i m)
    (ha : requestMonitor.allowed m (.inner o)) (hx : exec cfg i (.inner o) env s=some (r,t)) :
    Placed t i (requestMonitor.next m ⟨.inner o,r⟩) := by
  obtain ⟨sends,inner,-,rfl⟩:=exec_inner cfg hx
  cases o with
  | newReqId =>
    obtain rfl:=exec_newReqId hx
    refine ⟨fun x hx => List.mem_cons_of_mem _ (hp.returned x hx),?_,?_,?_,?_⟩
    · intro x hx
      cases hx
      exact ⟨List.mem_cons_self,fun hm => hl.next_unnamed i (hp.returned _ hm)⟩
    · intro x hx
      cases hx
      exact hl.next_unregistered
    · intro _ _ h; cases h
    · intro _ _ _ h; cases h
  | routeRegister h id c =>
    have hid : m.stage.id?=some id := by rw [show m.stage=.wired id c from ha]; rfl
    cases r with
    | ok _ =>
      refine ⟨hp.returned,fun x hx => ?_,?_,?_,?_⟩
      · cases hx; exact hp.current _ hid
      · intro _ h; cases h
      · intro _ _ h; cases h
      · intro _ _ _ h; cases h; exact List.mem_cons_self
    | error _ => exact (hp.finished hid).commit i fun _ h => (by cases h)
  | _ => exact hp.commit i fun _ _ _ h => (by cases h)

theorem Placed.outer {r : op.Res} (hp : Placed s i m) (ho : ∀ o, op≠.inner o)
    (ha : requestMonitor.allowed m op)
    (hx : exec cfg i op env s=some (r,t)) : Placed t i (requestMonitor.next m ⟨op,r⟩) := by
  have hs:=exec_outer cfg hx ho
  cases op with
  | inner o => exact absurd rfl (ho o)
  | channel id =>
    have hid : m.stage=.named id := ha
    cases hx
    refine ⟨hp.returned,fun x hx => ?_,fun x hx => ?_,fun x c h => ?_,?_⟩
    · cases hx; exact hp.current _ (by rw [hid]; rfl)
    · cases hx; exact hp.unregistered _ (by rw [hid]; rfl)
    · cases h; exact List.mem_cons_self
    · intro _ _ _ h; cases h
  | receive c =>
    obtain ⟨h,id,hw⟩:=ha
    have hn : requestMonitor.next m ⟨.receive c,r⟩=⟨.idle,id::m.returned⟩ := by
      simp only [requestMonitor,hw]
    rw [hn]
    exact (hp.finished (by rw [hw]; rfl)).same hs (exec_channels cfg hx fun _ h => (by cases h)).1
  | _ => exact hp.same hs (exec_channels cfg hx fun _ h => (by cases h)).1

theorem Ledger.outer {r : op.Res} (hl : Ledger s) (ho : ∀ o, op≠.inner o)
    (hx : exec cfg i op env s=some (r,t)) : Ledger t := by
  by_cases hc : ∃ id, op=.channel id
  · obtain ⟨id,rfl⟩:=hc
    cases hx
    exact hl.newChannel id
  · exact hl.same (exec_outer cfg hx ho) (exec_channels cfg hx fun id he => hc ⟨id,he⟩)

theorem Placed.other {r : op.Res} {j : Nat} {n : Calls} (hl : Ledger s) (hji : j≠i)
    (hi : Placed s i m) (hj : Placed s j n) (ha : requestMonitor.allowed m op)
    (hx : exec cfg i op env s=some (r,t)) : Placed t j n := by
  by_cases ho : ∃ o, op=.inner o
  · obtain ⟨o,rfl⟩:=ho
    obtain ⟨sends,inner,-,rfl⟩:=exec_inner cfg hx
    refine hj.commit i fun id hid g hg he => ?_
    -- the registered id belongs to task `i`
    have hw:=registers_own ha r g hg
    have h1:=(hi.current g.id (by rw [hw]; rfl)).1
    have h2:=(hj.current id (Stage.id?_of_unregistered? hid)).1
    rw [he] at h1
    exact hji (hl.owner_unique h2 h1)
  · have ho' : ∀ o, op≠.inner o := fun o he => ho ⟨o,he⟩
    have hs:=exec_outer cfg hx ho'
    by_cases hc : ∃ id, op=.channel id
    · obtain ⟨id,rfl⟩:=hc
      cases hx
      exact hj.mono (List.Subset.refl _) (List.subset_cons_self _ _) (List.Subset.refl _)
        hj.unregistered
    · exact hj.same hs (exec_channels cfg hx fun id he => hc ⟨id,he⟩).1

end Step

theorem ledger_holds (cfg : RouterConfig) {C : Service → Move → Prop} {p : Service}
    (hr : (service cfg).Reach C (.new cfg) p) :
    Holds requestMonitor (fun _ => Calls.none) Ledger (fun s i _ m => Placed s i m) p := by
  refine Lib.reach_holds (service cfg) requestMonitor (fun _ => Calls.none) C
    (fun _ m => m.stage=.idle) (fun c => Requests.body c _ rfl) (fun _ _ _ _ _ _ => trivial)
    (.new cfg) (fun p _ _ _ _ _ => .none p.state _) ?_ ?_
    (fun _ _ _ _ _ _ s _ j _ _ _ _ _ => .none s j) hr
  · intro p i t op env r s _ hi hf
    have hme:=hi.2 i t hf.task
    by_cases ho : ∃ o, op=.inner o
    · obtain ⟨o,rfl⟩:=ho
      exact ⟨hi.1.inner hme hf.allowed hf.exec,hme.inner hi.1 hf.allowed hf.exec⟩
    · have ho' : ∀ o, op≠.inner o := fun o he => ho ⟨o,he⟩
      exact ⟨hi.1.outer ho' hf.exec,hme.outer ho' hf.allowed hf.exec⟩
  · intro p i t op env r s j u _ hi hf hji hu
    exact (hi.2 i t hf.task).other hi.1 hji (hi.2 j u hu) hf.allowed hf.exec

end Router
