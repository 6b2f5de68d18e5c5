import IdaMcp.Tasks.Registry

/-!
# What happens to a task

`Fate` says everything that one call can do to a task that was there and to
one that was not; the invariants of the registry follow from it. A call to
`complete` or `fail` does not look at the status it replaces.
-/

namespace Tasks
open Lib (Map Json)
open Router (TaskId Instant)
variable {n : Nat} {walk : List TaskId} {id : TaskId}

theorem nextTaskId_injective {a b : String} {m : Nat}
    (h : TaskRegistry.nextTaskId a m=TaskRegistry.nextTaskId b n) : m=n := by
  have hdigits : ∀ k,∀ c∈Nat.toDigits 10 k,c ≠ '-' := by
    intro k c hc he
    have hd:=Nat.isDigit_of_mem_toDigits (b := 10) (by decide) (by decide) hc
    rw [he] at hd
    exact absurd hd (by decide)
  have hback : ∀ (pre : String) k,
      (TaskRegistry.nextTaskId pre k).toList.reverse.takeWhile (fun c => c ≠ '-')=
        (Nat.toDigits 10 k).reverse := by
    intro pre k
    have hl : (TaskRegistry.nextTaskId pre k).toList.reverse=
        (Nat.toDigits 10 k).reverse ++ '-'::pre.toList.reverse := by
      simp [TaskRegistry.nextTaskId,String.toList_append,Nat.toString_eq_repr,Nat.toList_repr]
    rw [hl,List.takeWhile_append_of_pos]
    · simp
    · intro c hc
      simpa using hdigits k c (List.mem_reverse.mp hc)
  have he : (Nat.toDigits 10 m).reverse=(Nat.toDigits 10 n).reverse := by
    rw [← hback a m,← hback b n,h]
  have hd:=congrArg (fun ds => Nat.ofDigitChars 10 ds 0) (List.reverse_injective he)
  simpa only [Nat.ofDigitChars_toDigits (b := 10) (by decide) (by decide)] using hd

namespace TaskRegistry
variable {reg : TaskRegistry}

theorem mem_walked (walk : List TaskId) (id : TaskId) :
    id∈reg.walked walk ↔ ∃ e,reg.entries.get id=some e := by
  unfold walked
  split
  · next h => rw [(List.isPerm_iff.mp h).mem_iff]; exact reg.entries.mem_keysOf id
  · exact reg.entries.mem_keysOf id

theorem nodup_walked (walk : List TaskId) : (reg.walked walk).Nodup := by
  have hk : reg.entries.keysOf.Nodup := reg.entries.nodupKeys
  unfold walked
  split
  · next h => exact (List.isPerm_iff.mp h).nodup_iff.mpr hk
  · exact hk

theorem surplus_terminal (h : id∈reg.surplus walk) :
    ∃ e,reg.entries.get id=some e ∧ e.state.status≠.running := by
  obtain ⟨⟨x,instant⟩,hx,rfl⟩:=List.mem_map.mp h
  have hm:=(List.perm_insertionSort _ _).mem_iff.mp (List.mem_of_mem_take hx)
  obtain ⟨y,_,hy⟩:=List.mem_filterMap.mp hm
  obtain ⟨e,he,hc⟩:=Option.bind_eq_some_iff.mp hy
  split at hc
  · next hs => cases hc; exact ⟨e,he,hs⟩
  · cases hc

theorem get_prune (walk : List TaskId) (id : TaskId) :
    (reg.pruneTerminalTasks walk).entries.get id=
      if id∈reg.surplus walk then none else reg.entries.get id := by
  rw [pruneTerminalTasks,Map.get_foldl_remove]

theorem get_modify (id a : TaskId) (f : TaskEntry → TaskEntry) :
    (reg.modify id f).entries.get a=
      if a=id then (reg.entries.get id).map f else reg.entries.get a := by
  unfold modify
  split
  · next e he =>
    rw [Map.get_insert,he]
    rfl
  · next he =>
    split
    · next ha => rw [ha,he]; rfl
    · rfl

theorem duplicate_some {key : String} (h : reg.duplicate key walk=some id) :
    ∃ x e,reg.entries.get x=some e ∧ e.state.status=.running ∧ e.state.key=some key ∧
      e.state.id=id := by
  obtain ⟨x,-,hx⟩:=List.exists_of_findSome?_eq_some h
  obtain ⟨e,he,hc⟩:=Option.bind_eq_some_iff.mp hx
  split at hc
  · next hs => cases hc; exact ⟨x,e,he,hs.1,hs.2,rfl⟩
  · cases hc

theorem duplicate_none {key : String} (h : reg.duplicate key walk=none) {e : TaskEntry}
    (he : reg.entries.get id=some e) (hs : e.state.status=.running) : e.state.key≠some key := by
  intro hk
  have hf:=List.findSome?_eq_none_iff.mp h id ((mem_walked walk id).mpr ⟨e,he⟩)
  simp [he,hs,hk] at hf

end TaskRegistry

/-- What became of the status and the result of the task `id`. -/
inductive Touched (o : TaskOp) (id : TaskId) (e e' : TaskEntry) : Prop where
  | kept (hs : e'.state.status=e.state.status) (hr : e'.state.result=e.state.result)
  | completed (v : Json) (ho : o=.complete id v) (hs : e'.state.status=.completed)
      (hr : e'.state.result=some v)
  | failed (message : String) (ho : o=.fail id message) (hs : e'.state.status=.failed)
      (hr : e'.state.result=e.state.result)
  | cancelled (ho : o=.cancel id) (hb : e.state.status=.running)
      (hs : e'.state.status=.cancelled) (hr : e'.state.result=e.state.result)

/-- The task under `id` after the step: changed in place, or pruned. -/
def Lasts (o : TaskOp) (t : TaskRegistry) (id : TaskId) (e : TaskEntry) : Prop :=
  (∃ e',t.entries.get id=some e' ∧ e'.state.id=e.state.id ∧ e'.state.key=e.state.key ∧
    Touched o id e e') ∨ (t.entries.get id=none ∧ id∈t.pruned)

/-- A task that the step made. -/
structure Fresh (reg t : TaskRegistry) (id : TaskId) (e : TaskEntry) : Prop where
  named : e.state.id=id
  latest : t.created=id::reg.created
  numbered : ∃ pre n,id=TaskRegistry.nextTaskId pre n ∧ reg.counter ≤ n ∧ n < t.counter
  alone : ∀ key,e.state.key=some key → e.state.status=.running → ∀ x d,
    reg.entries.get x=some d → d.state.status=.running → d.state.key≠some key

structure Fate (o : TaskOp) (reg t : TaskRegistry) : Prop where
  old : ∀ id e,reg.entries.get id=some e → Lasts o t id e
  fresh : ∀ id e,reg.entries.get id=none → t.entries.get id=some e → Fresh reg t id e
  created : t.created=reg.created ∨ ∃ pre n,reg.counter ≤ n ∧ n < t.counter ∧
    t.created=TaskRegistry.nextTaskId pre n::reg.created
  counter : reg.counter ≤ t.counter
  pruned : ∀ id∈reg.pruned,id∈t.pruned

/-- The invariant: a task stands under its own id, ids carry numbers below the
counter, and no two running tasks share a key. -/
structure Wf (reg : TaskRegistry) : Prop where
  named : ∀ id e,reg.entries.get id=some e → e.state.id=id
  listed : ∀ id e,reg.entries.get id=some e → id∈reg.created
  numbered : ∀ id∈reg.created,∃ pre n,id=TaskRegistry.nextTaskId pre n ∧ n < reg.counter
  distinct : reg.created.Nodup
  unique : ∀ key a b d e,reg.entries.get a=some d → reg.entries.get b=some e →
    d.state.status=.running → e.state.status=.running → d.state.key=some key →
    e.state.key=some key → a=b

namespace Wf

theorem new (n : Nat) : Wf (.new n) :=
  ⟨fun _ _ h => (by cases h),fun _ _ h => (by cases h),fun _ h => (by cases h),List.nodup_nil,
    fun _ _ _ _ _ h => (by cases h)⟩

variable {reg t : TaskRegistry} {o : TaskOp}

theorem next_unused (hw : Wf reg) (pre : String) (hn : reg.counter ≤ n) :
    TaskRegistry.nextTaskId pre n∉reg.created := by
  intro h
  obtain ⟨pre',k,he,hk⟩:=hw.numbered _ h
  have:=nextTaskId_injective he
  omega

theorem get_next (hw : Wf reg) (pre : String) (hn : reg.counter ≤ n) :
    reg.get (TaskRegistry.nextTaskId pre n)=none := by
  cases he : reg.entries.get (TaskRegistry.nextTaskId pre n) with
  | none => rw [TaskRegistry.get,he]; rfl
  | some e => exact absurd (hw.listed _ e he) (hw.next_unused pre hn)

theorem step (hw : Wf reg) (hf : Fate o reg t) : Wf t := by
  have hback : ∀ id e,t.entries.get id=some e →
      (∃ d,reg.entries.get id=some d ∧ e.state.id=d.state.id ∧ e.state.key=d.state.key ∧
        Touched o id d e) ∨ (reg.entries.get id=none ∧ Fresh reg t id e) := by
    intro id e he
    cases hd : reg.entries.get id with
    | none => exact .inr ⟨rfl,hf.fresh id e hd he⟩
    | some d =>
      rcases hf.old id d hd with ⟨e',he',h⟩ | ⟨hn,-⟩
      · obtain rfl:=Option.some.inj (he.symm.trans he')
        exact .inl ⟨d,rfl,h⟩
      · rw [hn] at he; cases he
  have hmono : ∀ id∈reg.created,id∈t.created := by
    intro id h
    rcases hf.created with he | ⟨_,_,_,_,he⟩ <;> rw [he]
    · exact h
    · exact List.mem_cons_of_mem _ h
  -- a running task was running before, with the same key
  have hrun : ∀ {id d e},Touched o id d e → e.state.status=.running → d.state.status=.running := by
    intro id d e ht he
    cases ht with
    | kept hs _ => rw [← hs]; exact he
    | completed _ _ hs _ => rw [hs] at he; cases he
    | failed _ _ hs _ => rw [hs] at he; cases he
    | cancelled _ _ hs _ => rw [hs] at he; cases he
  refine ⟨fun id e he => ?_,fun id e he => ?_,fun id h => ?_,?_,?_⟩
  · rcases hback id e he with ⟨d,hd,hid,-,-⟩ | ⟨-,hfr⟩
    · rw [hid]; exact hw.named id d hd
    · exact hfr.named
  · rcases hback id e he with ⟨d,hd,-,-,-⟩ | ⟨-,hfr⟩
    · exact hmono id (hw.listed id d hd)
    · rw [hfr.latest]; exact List.mem_cons_self
  · have hold : ∀ x∈reg.created,∃ pre n,x=TaskRegistry.nextTaskId pre n ∧ n < t.counter := by
      intro x hx
      obtain ⟨pre,n,he,hn⟩:=hw.numbered x hx
      exact ⟨pre,n,he,Nat.lt_of_lt_of_le hn hf.counter⟩
    rcases hf.created with he | ⟨pre,n,-,hn,he⟩ <;> rw [he] at h
    · exact hold id h
    · rcases List.mem_cons.mp h with rfl | h
      · exact ⟨pre,n,rfl,hn⟩
      · exact hold id h
  · rcases hf.created with he | ⟨pre,n,hn,-,he⟩ <;> rw [he]
    · exact hw.distinct
    · exact List.nodup_cons.mpr ⟨hw.next_unused pre hn,hw.distinct⟩
  · intro key a b d e hd he hsd hse hkd hke
    rcases hback a d hd with ⟨d0,hd0,-,hk,htd⟩ | ⟨-,hfr⟩ <;>
      rcases hback b e he with ⟨e0,he0,-,hk',hte⟩ | ⟨-,hfr'⟩
    · exact hw.unique key a b d0 e0 hd0 he0 (hrun htd hsd) (hrun hte hse) (hk ▸ hkd) (hk' ▸ hke)
    · exact absurd (hk ▸ hkd) (hfr'.alone key hke hse a d0 hd0 (hrun htd hsd))
    · exact absurd (hk' ▸ hke) (hfr.alone key hkd hsd b e0 he0 (hrun hte hse))
    · exact (List.cons.inj (hfr.latest.symm.trans hfr'.latest)).1

end Wf

namespace Fate
variable {reg t : TaskRegistry} {o : TaskOp}

theorem same (o : TaskOp) (reg : TaskRegistry) : Fate o reg reg where
  old _ e he := .inl ⟨e,he,rfl,rfl,.kept rfl rfl⟩
  fresh _ _ hn he := by rw [hn] at he; cases he
  created := .inl rfl
  counter := Nat.le_refl _
  pruned _ h := h

theorem prune (hf : Fate o reg t) (walk : List TaskId) :
    Fate o reg (t.pruneTerminalTasks walk) where
  old id e he := by
    rw [Lasts,TaskRegistry.get_prune]
    by_cases hs : id∈t.surplus walk
    · exact .inr ⟨if_pos hs,List.mem_append_left _ hs⟩
    · rw [if_neg hs]
      rcases hf.old id e he with h | ⟨hn,hp⟩
      · exact .inl h
      · exact .inr ⟨hn,List.mem_append_right _ hp⟩
  fresh id e hn he := by
    rw [TaskRegistry.get_prune] at he
    split at he
    · cases he
    · obtain ⟨a,b,c,d⟩:=hf.fresh id e hn he
      exact ⟨a,b,c,d⟩
  created := hf.created
  counter := hf.counter
  pruned id h := List.mem_append_right _ (hf.pruned id h)

theorem modify (id : TaskId) (f : TaskEntry → TaskEntry) (as : List Nat)
    (hf : ∀ e,reg.entries.get id=some e →
      (f e).state.id=e.state.id ∧ (f e).state.key=e.state.key ∧ Touched o id e (f e)) :
    Fate o reg ({reg with aborted := as}.modify id f) := by
  have hget : ∀ a,({reg with aborted := as}.modify id f).entries.get a=
      if a=id then (reg.entries.get id).map f else reg.entries.get a := by
    intro a
    exact TaskRegistry.get_modify id a f
  have hc : ({reg with aborted := as}.modify id f).created=reg.created := by
    unfold TaskRegistry.modify; split <;> rfl
  have hn : ({reg with aborted := as}.modify id f).counter=reg.counter := by
    unfold TaskRegistry.modify; split <;> rfl
  have hp : ({reg with aborted := as}.modify id f).pruned=reg.pruned := by
    unfold TaskRegistry.modify; split <;> rfl
  refine ⟨fun a e he => .inl ?_,fun a e hne he => ?_,.inl hc,Nat.le_of_eq hn.symm,
    fun _ h => hp.symm ▸ h⟩
  · rw [hget]
    by_cases ha : a=id
    · subst ha
      obtain ⟨h1,h2,h3⟩:=hf e he
      exact ⟨f e,by rw [if_pos rfl,he]; rfl,h1,h2,h3⟩
    · exact ⟨e,by rw [if_neg ha]; exact he,rfl,rfl,.kept rfl rfl⟩
  · rw [hget] at he
    split at he
    · next ha => rw [← ha,hne] at he; cases he
    · rw [hne] at he; cases he

theorem insert (hw : Wf reg) (pre : String) (n : Nat) (hn : reg.counter ≤ n) (state : TaskState)
    (hid : state.id=TaskRegistry.nextTaskId pre n)
    (halone : ∀ key,state.key=some key → state.status=.running → ∀ x d,
      reg.entries.get x=some d → d.state.status=.running → d.state.key≠some key) :
    Fate o reg ({reg with counter := n+1}.insert (TaskRegistry.nextTaskId pre n) state) where
  old id e he := by
    have hne : id≠TaskRegistry.nextTaskId pre n := by
      rintro rfl
      exact hw.next_unused pre hn (hw.listed _ e he)
    refine .inl ⟨e,?_,rfl,rfl,.kept rfl rfl⟩
    rw [TaskRegistry.insert,Map.get_insert,if_neg hne]
    exact he
  fresh id e hne he := by
    rw [TaskRegistry.insert,Map.get_insert] at he
    split at he
    · next h =>
      cases he
      exact ⟨hid.trans h.symm,by rw [h]; rfl,⟨pre,n,h,hn,Nat.lt_succ_self n⟩,halone⟩
    · rw [hne] at he; cases he
  created := .inr ⟨pre,n,hn,Nat.lt_succ_self n,rfl⟩
  counter := Nat.le_succ_of_le hn
  pruned _ h := h

theorem createInternal (hw : Wf reg) (pre : String) (key : Option String) (message : String)
    (metadata : Option Json) (r : Reading) :
    Fate o reg (reg.createInternal pre key message metadata r).2 := by
  unfold TaskRegistry.createInternal
  split
  · exact same o reg
  · next hd =>
    refine (insert hw pre _ (Nat.le_add_right _ _) _ rfl ?_).prune _
    rintro k rfl - x d hx hs
    exact TaskRegistry.duplicate_none hd hx hs

theorem run (hw : Wf reg) (o : TaskOp) (r : Reading) : Fate o reg (o.run r reg).2 := by
  cases o with
  | createKeyed | create | createWithKey | createWithMeta => exact createInternal hw _ _ _ _ _
  | get | listAll => exact same _ reg
  | setHandle id handle => exact modify id _ _ fun e _ => ⟨rfl,rfl,.kept rfl rfl⟩
  | updateMessage id message => exact modify id _ _ fun e _ => ⟨rfl,rfl,.kept rfl rfl⟩
  | mergeMeta id patch => exact modify id _ _ fun e _ => ⟨rfl,rfl,.kept rfl rfl⟩
  | complete id v =>
    refine (modify id _ reg.aborted fun e _ => ?_).prune _
    exact ⟨rfl,rfl,.completed v rfl rfl rfl⟩
  | fail id m =>
    refine (modify id _ reg.aborted fun e _ => ?_).prune _
    exact ⟨rfl,rfl,.failed m rfl rfl rfl⟩
  | cancel id =>
    simp only [TaskOp.run,TaskRegistry.cancel]
    split
    · next e he =>
      split
      · next hs =>
        refine (modify id _ _ fun d hd => ?_).prune _
        obtain rfl:=Option.some.inj (he.symm.trans hd)
        exact ⟨rfl,rfl,.cancelled rfl hs rfl rfl⟩
      · exact same _ reg
    · exact same _ reg
  | createCompleted message v =>
    exact (insert hw "task" _ (Nat.le_add_right _ _) _ rfl fun _ h => (by cases h)).prune _

end Fate

/-- A run from one registry to another, each step of which meets `C`. -/
inductive Steps (C : TaskRegistry → TaskOp → Prop) (s : TaskRegistry) : TaskRegistry → Prop where
  | refl : Steps C s s
  | tail {t : TaskRegistry} (o : TaskOp) (r : Reading) :
      Steps C s t → C t o → Steps C s (o.run r t).2

theorem Steps.wf {C : TaskRegistry → TaskOp → Prop} {s t : TaskRegistry} (h : Steps C s t)
    (hw : Wf s) : Wf t := by
  induction h with
  | refl => exact hw
  | tail o r _ _ ih => exact ih.step (.run ih o r)

namespace TaskRegistry

/-- A running task with the key. -/
def RunningWith (reg : TaskRegistry) (key : String) (id : TaskId) : Prop :=
  ∃ st,reg.get id=some st ∧ st.status=.running ∧ st.key=some key

instance (reg : TaskRegistry) (key : String) (id : TaskId) : Decidable (reg.RunningWith key id) :=
  decidable_of_iff ((reg.get id).any fun st => st.status=.running ∧ st.key=some key)
    (by simp [RunningWith,Option.any_eq_true])

theorem get_eq_some {reg : TaskRegistry} {st : TaskState} :
    reg.get id=some st ↔ ∃ e,reg.entries.get id=some e ∧ e.state=st := Option.map_eq_some_iff

theorem createInternal_error_iff {reg : TaskRegistry} (hw : Wf reg) (pre key message : String)
    (metadata : Option Json) (r : Reading) (existing : TaskId) :
    (reg.createInternal pre (some key) message metadata r).1=.error existing ↔
      reg.RunningWith key existing := by
  unfold createInternal
  constructor
  · intro h
    split at h
    · next x hx =>
      cases h
      obtain ⟨id,e,he,hs,hk,hid⟩:=duplicate_some hx
      rw [hw.named id e he] at hid
      subst hid
      exact ⟨e.state,get_eq_some.mpr ⟨e,he,rfl⟩,hs,hk⟩
    · cases h
  · rintro ⟨st,hst,hs,hk⟩
    obtain ⟨e,he,rfl⟩:=get_eq_some.mp hst
    split
    · next x hx =>
      obtain ⟨id,d,hd,hsd,hkd,hid⟩:=duplicate_some hx
      rw [hw.named id d hd] at hid
      subst hid
      rw [hw.unique key id existing d e hd he hsd hs hkd hk]
    · next hn => exact absurd hk (duplicate_none hn he hs)

theorem createInternal_cases (reg : TaskRegistry) (pre key message : String)
    (metadata : Option Json) (r : Reading) :
    (∃ x,reg.createInternal pre (some key) message metadata r=(.error x,reg)) ∨
      (reg.createInternal pre (some key) message metadata r).1=
        .ok (nextTaskId pre (reg.counter+r.elsewhere)) := by
  unfold createInternal
  split
  · next x _ => exact .inl ⟨x,rfl⟩
  · exact .inr rfl

theorem listAll_ids {reg : TaskRegistry} (hw : Wf reg) (walk : List TaskId) :
    (reg.listAll walk).map TaskState.id=reg.walked walk := by
  have hall : ∀ ids : List TaskId,(∀ id∈ids,∃ e,reg.entries.get id=some e) →
      (ids.filterMap fun id => reg.get id).map TaskState.id=ids := by
    intro ids h
    induction ids with
    | nil => rfl
    | cons id ids ih =>
      obtain ⟨⟨e,he⟩,hrest⟩:=List.forall_mem_cons.mp h
      have hg : reg.get id=some e.state := get_eq_some.mpr ⟨e,he,rfl⟩
      rw [List.filterMap_cons_some (f := fun id => reg.get id) hg,List.map_cons,ih hrest,
        hw.named id e he]
  exact hall _ fun id h => (mem_walked walk id).mp h

end TaskRegistry

/-- In every reachable registry: one running task for a key, distinct ids, and a
keyed creation is refused exactly by the running task with its key. -/
theorem deduplication (n : Nat) {reg : TaskRegistry}
    (h : Steps (fun _ _ => True) (.new n) reg) :
    (∀ key a b,reg.RunningWith key a → reg.RunningWith key b → a=b) ∧
    (∀ walk,((reg.listAll walk).map TaskState.id).Nodup) ∧
    ∀ pre key message metadata r,
      (∀ existing,(reg.createInternal pre (some key) message metadata r).1=.error existing ↔
        reg.RunningWith key existing) ∧
      ((∃ id,reg.RunningWith key id) →
        (reg.createInternal pre (some key) message metadata r).2=reg) ∧
      ((¬∃ id,reg.RunningWith key id) →
        ∃ id,(reg.createInternal pre (some key) message metadata r).1=.ok id ∧
          id∉reg.created) := by
  have hw:=h.wf (.new n)
  refine ⟨?_,fun walk => ?_,fun pre key message metadata r => ⟨fun existing => ?_,?_,?_⟩⟩
  · rintro key a b ⟨d,hd,hsd,hkd⟩ ⟨e,he,hse,hke⟩
    obtain ⟨d,hgd,rfl⟩:=TaskRegistry.get_eq_some.mp hd
    obtain ⟨e,hge,rfl⟩:=TaskRegistry.get_eq_some.mp he
    exact hw.unique key a b d e hgd hge hsd hse hkd hke
  · rw [TaskRegistry.listAll_ids hw]
    exact TaskRegistry.nodup_walked walk
  · exact TaskRegistry.createInternal_error_iff hw pre key message metadata r existing
  · rintro ⟨id,hid⟩
    have he:=(TaskRegistry.createInternal_error_iff hw pre key message metadata r id).mpr hid
    rcases reg.createInternal_cases pre key message metadata r with ⟨x,hx⟩ | hx
    · rw [hx]
    · rw [hx] at he; cases he
  · intro hno
    rcases reg.createInternal_cases pre key message metadata r with ⟨x,hx⟩ | hx
    · exact absurd ⟨x,(TaskRegistry.createInternal_error_iff hw pre key message metadata r x).mp
        (by rw [hx])⟩ hno
    · exact ⟨_,hx,hw.next_unused pre (Nat.le_add_right _ _)⟩

theorem deduplication_second :
    ((((TaskRegistry.new 1).createKeyed "k" "a" {}).2.createKeyed "k" "b" {}).1=
      .error "dsc-1") := by
  have hr : Steps (fun _ _ => True) (.new 1) ((TaskOp.createKeyed "k" "a").run {} (.new 1)).2 :=
    .tail _ {} .refl trivial
  have hd:=((deduplication 1 hr).2.2 "dsc" "k" "b" none {}).1 "dsc-1"
  exact hd.mpr (by decide +kernel)

/-- Neither a completion nor a failure replaces a terminal status or its result. -/
def Calm (s : TaskRegistry) (o : TaskOp) : Prop :=
  ∀ id st,s.get id=some st → st.status≠.running →
    (∀ v,o=.complete id v → st.status=.completed ∧ st.result=some v) ∧
    (∀ m,o=.fail id m → st.status=.failed)

/-- A terminal task stays as it is, or it is pruned. -/
def Settled (t : TaskRegistry) (id : TaskId) (st : TaskState) : Prop :=
  (∃ st',t.get id=some st' ∧ st'.status=st.status ∧ st'.result=st.result) ∨
    (t.get id=none ∧ id∈t.pruned)

theorem Settled.step {t : TaskRegistry} {st : TaskState} {o : TaskOp} (hw : Wf t) (hc : Calm t o)
    (hm : id∈t.created) (hs : st.status≠.running) (h : Settled t id st)
    (r : Reading) : Settled (o.run r t).2 id st := by
  have hf:=Fate.run hw o r
  rcases h with ⟨st',hst,hss,hsr⟩ | ⟨hn,hp⟩
  · obtain ⟨e,he,rfl⟩:=TaskRegistry.get_eq_some.mp hst
    have hcalm:=hc id e.state hst (by rw [hss]; exact hs)
    rcases hf.old id e he with ⟨e',he',-,-,ht⟩ | ⟨hn,hp⟩
    · refine .inl ⟨e'.state,TaskRegistry.get_eq_some.mpr ⟨e',he',rfl⟩,?_⟩
      cases ht with
      | kept hs' hr' => exact ⟨hs'.trans hss,hr'.trans hsr⟩
      | completed v ho hs' hr' =>
        obtain ⟨h1,h2⟩:=hcalm.1 v ho
        exact ⟨hs'.trans (h1.symm.trans hss),hr'.trans (h2.symm.trans hsr)⟩
      | failed m ho hs' hr' => exact ⟨hs'.trans ((hcalm.2 m ho).symm.trans hss),hr'.trans hsr⟩
      | cancelled _ hb _ _ => exact absurd (hss.symm.trans hb) hs
    · exact .inr ⟨by rw [TaskRegistry.get,hn]; rfl,hp⟩
  · have hnone : t.entries.get id=none := Option.map_eq_none_iff.mp hn
    refine .inr ⟨?_,hf.pruned id hp⟩
    cases he : (o.run r t).2.entries.get id with
    | none => rw [TaskRegistry.get,he]; rfl
    | some e =>
      obtain ⟨pre,n,rfl,hn,-⟩:=(hf.fresh id e hnone he).numbered
      exact absurd hm (hw.next_unused pre hn)

/-- What is over stays over, while nobody completes or fails it again. -/
theorem terminal_absorbing (n : Nat) {s t : TaskRegistry} (hs : Steps Calm (.new n) s)
    (ht : Steps Calm s t) {id : TaskId} {st : TaskState} (hid : s.get id=some st)
    (hterm : st.status≠.running) : Settled t id st := by
  have hw : ∀ {t},Steps Calm s t → Wf t := fun h => h.wf (hs.wf (.new n))
  have hmem : ∀ {t},Steps Calm s t → id∈t.created := by
    intro t h
    induction h with
    | refl =>
      obtain ⟨e,he,-⟩:=TaskRegistry.get_eq_some.mp hid
      exact (hw .refl).listed id e he
    | tail o r h _ ih =>
      rcases (Fate.run (hw h) o r).created with he | ⟨_,_,_,_,he⟩ <;> rw [he]
      · exact ih
      · exact List.mem_cons_of_mem _ ih
  induction ht with
  | refl => exact .inl ⟨st,hid,rfl,rfl⟩
  | tail o r h hc ih => exact ih.step (hw h) hc (hmem h) hterm r

/-- The message of a completed task may still change. -/
theorem terminal_absorbing_completed :
    ∃ s st,s=((TaskOp.createCompleted "done" .null).run {} (.new 1)).2 ∧
      s.get "task-1"=some st ∧ st.status=.completed ∧
      Settled ((TaskOp.updateMessage "task-1" "seen").run {} s).2 "task-1" st := by
  have hc : (((TaskOp.createCompleted "done" .null).run {} (.new 1)).2.get "task-1").map
      TaskState.status=some .completed := by decide +kernel
  obtain ⟨st,hst,hs⟩:=Option.map_eq_some_iff.mp hc
  refine ⟨_,st,rfl,hst,hs,terminal_absorbing 1 (.tail _ {} .refl ?_) (.tail _ {} .refl ?_) hst
    (by rw [hs]; decide)⟩
  · exact fun _ _ _ _ => ⟨fun v h => (by cases h),fun m h => (by cases h)⟩
  · exact fun _ _ _ _ => ⟨fun v h => (by cases h),fun m h => (by cases h)⟩

/-- The client cancels a task, and the execution that goes on reports it as completed. -/
theorem completes_after_cancel :
    ∃ s t,Steps (fun _ _ => True) (.new 1) s ∧ Steps (fun _ _ => True) s t ∧
      (s.get "job-1").map TaskState.status=some .cancelled ∧
      (t.get "job-1").map TaskState.status=some .completed :=
  ⟨_,_,.tail (.cancel "job-1") {} (.tail (.create "job" "Queued open") {} .refl trivial) trivial,
    .tail (.complete "job-1" .null) {} .refl trivial,by decide +kernel,by decide +kernel⟩

end Tasks
