import IdaMcp.Router.Frame
import IdaMcp.Router.Registry

/-!
# Automatic closes

The watchdog, the eviction of `spawn_worker` and the close after the last
reference pick a worker in one section and remove it in a later one. The monitor
follows what a task has picked; nothing else is removed automatically.
-/

namespace Router
open Lib (Map Json Monitor Holds Fired)
open Lib.Monitor (keeps_pure keeps_bind keeps_perform)

def closingMonitor : Monitor Op.Res (List (DbHandle × Reason)) where
  next m e := match e with
    | ⟨.inner (.expired _),hs⟩ => hs.map (fun h => (h,.gc))++m
    | ⟨.inner .evictCandidate,r⟩ => match r with
      | some h => (h,.evict)::m
      | none => m
    | ⟨.inner (.releaseRefToken _ true),r⟩ => match r with
      | some (h,0) => (h,.lastRef)::m
      | _ => m
    | ⟨.inner (.pathLookup _ true),r⟩ => match r with
      | some h => (h,.lastRef)::m
      | none => m
    | ⟨.inner (.closeRemove h why),_⟩ => m.erase (h,why)
    | _ => m
  allowed m op := match op with
    | .inner (.closeRemove h why) => why=.explicit ∨ (h,why)∈m
    | _ => True
  good _ _ := True

namespace Closing

/-- The operations that pick or remove a worker. -/
def Step : Op → Prop
  | .inner (.expired _) | .inner .evictCandidate | .inner (.releaseRefToken _ true) |
    .inner (.pathLookup _ true) | .inner (.closeRemove _ _) => True
  | _ => False

theorem next_other {op : Op} (h : ¬Step op) (m : List (DbHandle × Reason)) (r : op.Res) :
    closingMonitor.next m ⟨op,r⟩=m := by
  cases op with
  | inner o => cases o with
    | expired | evictCandidate | closeRemove => exact absurd trivial h
    | releaseRefToken _ b | pathLookup _ b => cases b <;> first | exact absurd trivial h | rfl
    | _ => rfl
  | _ => rfl

theorem keeps_op {op : Op} (h : ¬Step op) (I : List (DbHandle × Reason) → Prop) :
    closingMonitor.Keeps I (act op) := by
  refine keeps_perform fun m hm => ⟨?_,fun r _ => by rw [next_other h]; exact hm⟩
  cases op with
  | inner o => cases o <;> first | exact absurd trivial h | trivial
  | _ => trivial

theorem keeps_plain (I : List (DbHandle × Reason) → Prop) (op : Op) (h : op.followed=false) :
    closingMonitor.Keeps I (act op) :=
  keeps_op (fun hs => by
    cases op with
    | inner o => cases o with
      | pathLookup _ b => cases b <;> first | exact False.elim hs | exact Bool.noConfusion h
      | _ => first | exact False.elim hs | exact Bool.noConfusion h
    | _ => exact False.elim hs) I

theorem keeps_enqueues (I : List (DbHandle × Reason) → Prop) (op : Op) (h : op.enqueues=true) :
    closingMonitor.Keeps I (act op) :=
  keeps_op (by cases op <;> first | exact id | cases h) I

theorem keeps_locked {o : InnerOp} (h : ¬Step (.inner o)) (I : List (DbHandle × Reason) → Prop) :
    closingMonitor.Keeps I (locked o) :=
  keeps_withLock (keeps_plain I) (keeps_op h I)

theorem keeps_routeRequest (I : List (DbHandle × Reason) → Prop) (h : Option DbHandle)
    (method : String) (params : Json) : closingMonitor.Keeps I (routeRequest h method params) :=
  keeps_requestOf (keeps_plain I) (fun o ho => keeps_op (by
    cases o <;> first | exact id | cases ho) I) (fun _ => keeps_op id I) (fun _ => keeps_op id I)
    h method params

abbrev Clear (m : List (DbHandle × Reason)) : Prop := m=[]

theorem parts : Parts closingMonitor Clear :=
  parts_of_ops (keeps_plain _) (keeps_enqueueOf (keeps_plain _) (keeps_enqueues _))
    (keeps_routeRequest _) fun _ => keeps_perform fun m hm =>
    ⟨.inl rfl,fun _ _ => by subst hm; rfl⟩

theorem close_picked (h : DbHandle) (why : Reason) (ms : List (DbHandle × Reason)) :
    closingMonitor.wp (closeWorker h why) (fun _ m => m=ms) ((h,why)::ms) := by
  simp [closeWorker,withLock,closingMonitor]

theorem goodbye_picked (h : DbHandle) (why : Reason) :
    closingMonitor.wp (do sayGoodbye h; closeWorker h why) (fun _ m => m=[]) [(h,why)] := by
  refine closingMonitor.wp_seq (Q := fun _ m => m=[(h,why)]) ?_ ?_
  · exact keeps_bind (keeps_routeRequest _ _ _ _) (fun _ => keeps_bind (keeps_routeRequest _ _ _ _)
      fun _ => keeps_pure _) _ rfl
  · rintro _ m rfl
    exact close_picked h why []

theorem collectIdle_keeps (idle : Nat) : closingMonitor.Keeps Clear (collectIdle idle) := by
  rintro m rfl
  refine closingMonitor.wp_seq (Q := fun hs m => m=hs.map fun h => (h,.gc)) ?_ ?_
  · simp [locked,withLock,closingMonitor]
  · rintro hs m rfl
    refine closingMonitor.wp_forEach (I := fun hs m => m=hs.map fun h => (h,.gc)) rfl ?_
    rintro h hs m rfl
    exact close_picked h .gc _

theorem evictLoop_keeps (n : Nat) : closingMonitor.Keeps Clear (evictLoop n) := by
  induction n with
  | zero => exact Monitor.keeps_halt
  | succ n ih =>
    rintro m rfl
    refine wp_section trivial trivial fun r => ⟨trivial,?_⟩
    rcases r with _ | h
    · rfl
    · exact closingMonitor.wp_seq (close_picked h .evict []) fun _ m hm => ih m hm

theorem closeLast_keeps (path : Path) (tenantId : Option String) :
    closingMonitor.Keeps Clear (closeByPath path tenantId true) := by
  rintro m rfl
  refine wp_section trivial trivial fun r => ⟨trivial,?_⟩
  rcases r with _ | h
  · rfl
  · have hg:=goodbye_picked h .lastRef
    rw [Monitor.wp_bind] at hg
    simp only [Monitor.wp_bind,Monitor.wp_pure,if_true]
    exact hg

theorem release_picks (t : Token) : closingMonitor.wp (releaseRefToken t true)
    (fun r m => m=match r with
      | some (h,0) => [(h,.lastRef)]
      | _ => []) [] := by
  simp only [releaseRefToken,locked,withLock,Monitor.wp_bind,Monitor.wp_perform,Monitor.wp_pure]
  exact ⟨trivial,fun _ _ => ⟨trivial,fun r _ => ⟨trivial,fun _ _ => by
    rcases r with _ | ⟨h,_ | n⟩ <;> rfl⟩⟩⟩

theorem lease_keeps (path : Path) : closingMonitor.Keeps Clear (releaseWarmLease path) := by
  refine keeps_withLock (keeps_plain _) (keeps_bind (keeps_op id _) fun r => ?_)
  rcases r with _ | lease
  · exact keeps_pure _
  rintro m rfl
  refine closingMonitor.wp_seq (release_picks _) fun r m hm => ?_
  subst hm
  rcases r with _ | ⟨h,_ | _⟩
  · rfl
  · exact close_picked h .lastRef []
  · rfl

theorem closeIdb_keeps (token : Option Token) :
    closingMonitor.Keeps Clear (closeIdbRouted token) := by
  cases token with
  | none =>
    refine keeps_bind (parts.look _ rfl) fun r => ?_
    rcases r with _ | h
    · exact parts.respond _
    · exact keeps_bind (parts.sayGoodbye _) fun _ => keeps_bind (parts.close _) fun _ =>
        parts.respond _
  | some token =>
    rintro m rfl
    refine closingMonitor.wp_seq (release_picks _) fun r m hm => ?_
    subst hm
    rcases r with _ | ⟨h,_ | n⟩
    · exact parts.respond _ _ rfl
    · have hg:=closingMonitor.wp_seq (goodbye_picked h .lastRef) fun _ m hm =>
        parts.respond (.ok (.str "Database closed")) m hm
      simpa only [Monitor.wp_bind] using hg
    · exact parts.respond _ _ rfl

theorem spawnWorker_keeps (path : Path) (tenantId : Option String) (b : Bool) :
    closingMonitor.Keeps Clear (spawnWorker path tenantId b) :=
  parts.spawnWorker path tenantId b evictLoop_keeps (fun _ => keeps_locked id _)
    fun _ _ => keeps_locked id _

theorem refs : Refs closingMonitor Clear where
  toParts := parts
  spawnClient path tenantId := spawnWorker_keeps path tenantId _
  ensure path tenantId := parts.ensure path tenantId (fun tenant => spawnWorker_keeps path tenant _)
    (fun _ => keeps_locked id _) (fun _ => keeps_locked id _)
    fun _ => keeps_bind (keeps_locked id _) fun _ => keeps_pure _
  releaseRef _ := keeps_locked id _
  closeLast := closeLast_keeps
  closeIdb := closeIdb_keeps
  collect := collectIdle_keeps

theorem core : Core closingMonitor Clear :=
  ⟨refs,refs.prewarm fun _ _ _ _ _ =>
    keeps_install (keeps_plain _) parts lease_keeps _ _ _ _ _ (keeps_op id _)⟩

theorem body (job : Job) : closingMonitor.Keeps Clear job.body :=
  core.body job (fun task _ => keeps_finish (keeps_plain _) task) (fun _ _ _ _ => keeps_op id _)
    fun handle _ => parts.reader handle (keeps_locked id _) (fun _ => keeps_locked id _)
    fun _ => keeps_locked id _

end Closing

/-- No reference, and for a worker picked as idle no request either. -/
def Unused (s : RouterInner) (h : DbHandle) (why : Reason) : Prop :=
  s.refs h=∅ ∧ (why≠.lastRef → ∀ w, s.workers.get h=some w → w.pending.size=0)

namespace Unused
variable {cfg : RouterConfig} {s t : RouterInner} {h : DbHandle} {why : Reason}

theorem change {tr : Trace} (hu : Unused s h why) (hc : Change cfg s tr t)
    (hi : ∀ x∈tr.issued, x.1≠h) (hr : why≠.lastRef → ∀ g∈tr.registers, g.handle≠h) :
    Unused t h why := by
  constructor
  · rw [Finset.eq_empty_iff_forall_notMem]
    intro u hm
    rcases hc.refs_origin hm with hm | hm
    · rw [hu.1] at hm
      cases hm
    · exact hi _ hm rfl
  · intro hw w hg
    rw [Map.size_eq_zero_iff]
    intro id
    cases hp : w.pending.get id with
    | none => rfl
    | some c =>
      rcases hc.pending_origin hg hp with ⟨v,hv,hvp⟩ | hm
      · rw [(Map.size_eq_zero_iff _).mp (hu.2 hw v hv) id] at hvp
        cases hvp
      · exact absurd rfl (hr hw _ hm)

theorem of_entry {e : (_ : DbHandle) × WorkerProcess} (he : e∈s.workers.entries)
    (hr : s.refCount e.1=0) (hp : e.2.pending.size=0) : Unused s e.1 why := by
  refine ⟨Finset.card_eq_zero.mp hr,fun _ w hw => ?_⟩
  rw [(Map.get_eq_some_iff _ _ _).mpr he] at hw
  cases hw
  exact hp

theorem of_expired {idle : Nat} {instant : Instant} {order : List DbHandle}
    (hh : h∈s.expired idle instant order) : Unused s h .gc := by
  unfold RouterInner.expired at hh
  dsimp only at hh
  have hm : h∈(s.workers.entries.filter fun e => s.refCount e.1=0 && e.2.pending.size=0 &&
      idle < instant-e.2.lastActive).map Sigma.fst := by
    split at hh
    · next hperm => exact (List.isPerm_iff.mp hperm).mem_iff.mp hh
    · exact hh
  obtain ⟨e,he,rfl⟩:=List.mem_map.mp hm
  obtain ⟨he,hf⟩:=List.mem_filter.mp he
  simp only [Bool.and_eq_true,decide_eq_true_eq] at hf
  exact .of_entry he hf.1.1 hf.1.2

theorem of_oldest {xs : List (String × Instant)} {pick : Nat} {x : String}
    (hx : RouterInner.oldest xs pick=some x) : ∃ i, (x,i)∈xs := by
  unfold RouterInner.oldest at hx
  split at hx
  · cases hx
  · next m hm =>
    obtain ⟨y,hy,rfl⟩:=Option.map_eq_some_iff.mp hx
    exact ⟨y.2,(List.mem_filter.mp (List.mem_of_getElem? hy)).1⟩

theorem of_evictCandidate {pick : Nat} (hh : s.evictCandidate cfg pick=some h) :
    Unused s h .evict := by
  unfold RouterInner.evictCandidate at hh
  split at hh
  · cases hh
  obtain ⟨i,hi⟩:=of_oldest hh
  obtain ⟨e,he,hx⟩:=List.mem_map.mp hi
  cases hx
  obtain ⟨he,hf⟩:=List.mem_filter.mp he
  simp only [Bool.and_eq_true,decide_eq_true_eq] at hf
  exact .of_entry he hf.1.1 hf.1.2

theorem of_release {u : Token} (hr : (s.releaseRefToken u).1=some (h,0)) :
    Unused (s.releaseRefToken u).2 h .lastRef := by
  refine ⟨?_,fun hn => absurd rfl hn⟩
  unfold RouterInner.releaseRefToken at hr ⊢
  split at hr
  · cases hr
  · next x hx =>
    simp only at hr ⊢
    split at hr
    · next ts hts =>
      obtain ⟨rfl,hc⟩:=Prod.mk.inj (Option.some.inj hr)
      simp only [RouterInner.refs,Map.get_insert_self,Option.getD_some]
      exact Finset.card_eq_zero.mp hc
    · next hts =>
      cases hr
      simp only [RouterInner.refs]
      rw [hts]
      rfl

end Unused

/-- Everything that some task has picked for an automatic close and not yet removed. -/
def picks (p : Service) : List (DbHandle × Reason) :=
  p.tasks.flatMap (closingMonitor.track fun _ => [])

def registeredBy : Move → List Registration
  | .run _ ⟨.inner o,r⟩ => o.registers r
  | _ => []

/-- The worker that `close_by_path` finds for `prewarm_path_with_options`. -/
def foundBy : Move → List DbHandle
  | .run _ ⟨.inner (.pathLookup _ true),r⟩ => r.toList
  | _ => []

/-- Between pick and removal nobody takes a reference to the worker, nor sends a request
to one picked as idle; and what a prewarm closes by its path has no reference. -/
structure Undisturbed (p : Service) (l : Move) : Prop where
  issued : ∀ x∈issuedBy l, ∀ y∈picks p, y.1≠x.1
  registered : ∀ g∈registeredBy l, ∀ y∈picks p, y.1=g.handle → y.2=.lastRef
  found : ∀ h∈foundBy l, p.state.inner.refs h=∅

instance (p : Service) (l : Move) : Decidable (Undisturbed p l) :=
  decidable_of_iff ((∀ x∈issuedBy l, ∀ y∈picks p, y.1≠x.1) ∧
    (∀ g∈registeredBy l, ∀ y∈picks p, y.1=g.handle → y.2=.lastRef) ∧
    ∀ h∈foundBy l, p.state.inner.refs h=∅)
    ⟨fun h => ⟨h.1,h.2.1,h.2.2⟩,fun h => ⟨h.issued,h.registered,h.found⟩⟩

section Step
variable {cfg : RouterConfig} {i : Nat} {env : Env} {s t : Shared} {m : List (DbHandle × Reason)}

theorem pick_unused {o : InnerOp} {r : o.Res} (hx : exec cfg i (.inner o) env s=some (r,t))
    (hf : ∀ h∈foundBy (.run i ⟨.inner o,r⟩), s.inner.refs h=∅) {x : DbHandle × Reason}
    (hm : x∈closingMonitor.next m ⟨.inner o,r⟩) : x∈m ∨ Unused t.inner x.1 x.2 := by
  cases hx
  cases o with
  | expired idle =>
    rcases List.mem_append.mp hm with hm | hm
    · obtain ⟨h,hh,rfl⟩:=List.mem_map.mp hm
      exact .inr (.of_expired hh)
    · exact .inl hm
  | evictCandidate =>
    generalize hq : (InnerOp.run cfg .evictCandidate env s.inner).1=q at hm hf
    cases q with
    | none => exact .inl hm
    | some h =>
      rcases List.mem_cons.mp hm with rfl | hm
      · exact .inr (.of_evictCandidate hq)
      · exact .inl hm
  | releaseRefToken u b =>
    cases b with
    | false => exact .inl hm
    | true =>
      generalize hq : (InnerOp.run cfg (.releaseRefToken u true) env s.inner).1=q at hm hf
      rcases q with _ | ⟨h,_ | n⟩
      · exact .inl hm
      · rcases List.mem_cons.mp hm with rfl | hm
        · exact .inr (.of_release hq)
        · exact .inl hm
      · exact .inl hm
  | pathLookup key b =>
    cases b with
    | false => exact .inl hm
    | true =>
      generalize hq : (InnerOp.run cfg (.pathLookup key true) env s.inner).1=q at hm hf
      cases q with
      | none => exact .inl hm
      | some h =>
        rcases List.mem_cons.mp hm with rfl | hm
        · exact .inr ⟨hf h (List.mem_singleton_self _),fun hn => absurd rfl hn⟩
        · exact .inl hm
  | closeRemove => exact .inl (List.mem_of_mem_erase hm)
  | _ => exact .inl hm

end Step

theorem picks_unused (cfg : RouterConfig) {p : Service}
    (hr : (service cfg).Reach Undisturbed (.new cfg) p) :
    Holds closingMonitor (fun _ => []) (fun _ => True)
      (fun s _ _ m => ∀ x∈m, Unused s.inner x.1 x.2) p := by
  -- a pick survives every step, whichever task takes it
  have hstays : ∀ (p : Service) i op env r s, exec cfg i op env p.state=some (r,s) →
      Undisturbed p (.run i ⟨op,r⟩) → ∀ x∈picks p, Unused p.state.inner x.1 x.2 →
      Unused s.inner x.1 x.2 := by
    intro p i op env r s hx hc x hm hu
    by_cases ho : ∃ o, op=.inner o
    · obtain ⟨o,rfl⟩:=ho
      obtain ⟨sends,inner,hch,rfl⟩:=exec_inner cfg hx
      exact hu.change hch (fun y hy => Ne.symm (hc.issued y hy x hm)) fun hw g hg he =>
        hw (hc.registered g hg x hm he.symm)
    · rw [(exec_outer cfg hx fun o he => ho ⟨o,he⟩).inner]
      exact hu
  refine Lib.reach_holds (service cfg) closingMonitor (fun _ => []) Undisturbed (fun _ m => m=[])
    (fun c => Closing.body c _ rfl) (fun _ _ _ _ _ _ => trivial) trivial
    (fun _ _ _ _ _ _ _ h => (by cases h)) ?_ ?_
    (fun _ _ _ _ _ _ _ _ _ _ _ _ _ _ _ h => (by cases h)) hr
  · intro p i t op env r s _ hi hf
    refine ⟨trivial,fun x hm => ?_⟩
    have hold : x∈closingMonitor.track (fun _ => []) t → Unused s.inner x.1 x.2 := fun hx =>
      hstays p i op env r s hf.exec hf.cond x
        (List.mem_flatMap.mpr ⟨t,List.mem_of_getElem? hf.task,hx⟩) (hi.2 i t hf.task x hx)
    by_cases ho : ∃ o, op=.inner o
    · obtain ⟨o,rfl⟩:=ho
      rcases pick_unused hf.exec hf.cond.found hm with hx | hu
      · exact hold hx
      · exact hu
    · refine hold ?_
      rw [Closing.next_other] at hm
      · exact hm
      · cases op with
        | inner o => exact absurd ⟨o,rfl⟩ ho
        | _ => exact id
  · intro p i t op env r s j u _ hi hf _ hu x hx
    exact hstays p i op env r s hf.exec hf.cond x
      (List.mem_flatMap.mpr ⟨u,List.mem_of_getElem? hu,hx⟩) (hi.2 j u hu x hx)

/-- The removal at which the task stands. -/
def removal? (t : Lib.Task Op.Res Job) : Option (DbHandle × Reason) := match t.prog with
  | .call (.inner (.closeRemove h why)) _ => some (h,why)
  | _ => none

/-- In an undisturbed run a worker about to be removed automatically has no reference, and
no pending request unless its last reference was given back. -/
theorem reference_protection (cfg : RouterConfig) {p : Service} {i : Nat}
    {t : Lib.Task Op.Res Job} {h : DbHandle} {why : Reason}
    (hr : (service cfg).Reach Undisturbed (.new cfg) p) (ht : p.tasks[i]?=some t)
    (hn : removal? t=some (h,why)) (hw : why≠.explicit) : Unused p.state.inner h why := by
  have hc:=Lib.conforms (service cfg) closingMonitor (fun _ => []) Undisturbed (fun _ m => m=[])
    (fun c => Closing.body c _ rfl) (fun _ _ _ _ _ _ => trivial) hr i t ht
  unfold removal? at hn
  split at hn
  · next h' why' k hp =>
    cases hn
    rw [hp,Monitor.wp_call] at hc
    rcases hc.1 with he | hm
    · exact absurd he hw
    · exact (picks_unused cfg hr).2 i t ht (h,why) hm
  · cases hn

/- `open_idb` in a fresh worker, then `close_idb` with the token it returned, up to where
the worker is about to be removed; `between` happens after the token was given back. -/
def closeLastRef (between : List (Lib.Act Job Env)) : List (Lib.Act Job Env) :=
  .start (.openIdb (openRequest "/a"))::steps 0 (idles 2++spawnInputs "/a" 1)++
    .start (.closeIdb (some "1-0-1"))::steps 2 (idles 3)++between++
    steps 2 (idles 8++{written := .pipeClosed}::idles 9++{written := .pipeClosed}::idles 5)

theorem reference_protection_last :
    ∃ p t, (service sampleConfig).Reach Undisturbed (.new sampleConfig) p ∧ p.tasks[2]?=some t ∧
      removal? t=some ("0000000000000001",.lastRef) ∧
      Unused p.state.inner "0000000000000001" .lastRef := by
  obtain ⟨p,hp,ht⟩:=(service sampleConfig).play_when Undisturbed (.new sampleConfig)
    (closeLastRef [])
    (fun p => p.tasks[2]?.any fun t => removal? t=some ("0000000000000001",.lastRef)) (by decide)
  obtain ⟨t,ht,hn⟩:=(Option.any_eq_true _ _).mp ht
  exact ⟨p,t,hp,ht,of_decide_eq_true hn,
    reference_protection sampleConfig hp ht (of_decide_eq_true hn) (by decide)⟩

/-- A second client opens the database after the first one's token was given back: the
worker is removed under its reference. -/
theorem removal_of_referenced_worker :
    ∃ p t, (service sampleConfig).Reach (fun _ _ => True) (.new sampleConfig) p ∧
      p.tasks[2]?=some t ∧ removal? t=some ("0000000000000001",.lastRef) ∧
      p.state.inner.refs "0000000000000001"≠∅ := by
  obtain ⟨p,hp,ht⟩:=(service sampleConfig).play_free (.new sampleConfig)
    (closeLastRef (.start (.openIdb (openRequest "/a"))::
      steps 3 (idles 2++{path := "/a"}::{canonical := some "/a"}::idles 1++{now := 2}::idles 1)))
    (fun p => (p.tasks[2]?.any fun t => removal? t=some ("0000000000000001",.lastRef)) &&
      p.state.inner.refs "0000000000000001"≠∅) (by decide)
  simp only [Bool.and_eq_true] at ht
  obtain ⟨t,ht1,hn⟩:=(Option.any_eq_true _ _).mp ht.1
  exact ⟨p,t,hp,ht1,of_decide_eq_true hn,of_decide_eq_true ht.2⟩

end Router
