import IdaMcp.Tasks.Lifecycle
import IdaMcp.Lib.Shortest

/-!
# Which tasks are kept

The registry drops the terminal tasks over its cap, those first whose last
update is the longest ago. Every reading of the clock is the time of one task
only, so the task that a call has just written is the last to go.
-/

namespace Tasks
open Lib (Map Json)
open Router (TaskId Instant)
variable (walk : List TaskId) {id : TaskId}

theorem cap_eq : TERMINAL_TASK_CAP=256 := by
  unfold TERMINAL_TASK_CAP
  rfl

namespace TaskRegistry
variable {reg mid : TaskRegistry}

def isTerminal (reg : TaskRegistry) (id : TaskId) : Bool := (reg.get id).any (·.status≠.running)
def terminal (reg : TaskRegistry) : List TaskId := reg.entries.keysOf.filter reg.isTerminal

theorem isTerminal_iff : reg.isTerminal id=true ↔ ∃ st,reg.get id=some st ∧ st.status≠.running := by
  simp [isTerminal,Option.any_eq_true]

theorem mem_terminal : id∈reg.terminal ↔ ∃ st,reg.get id=some st ∧ st.status≠.running := by
  rw [terminal,List.mem_filter,isTerminal_iff,and_iff_right_iff_imp]
  rintro ⟨st,hst,-⟩
  obtain ⟨e,he,-⟩:=get_eq_some.mp hst
  exact (reg.entries.mem_keysOf id).mpr ⟨e,he⟩

theorem nodup_terminal : reg.terminal.Nodup := by
  have hk : reg.entries.keysOf.Nodup := reg.entries.nodupKeys
  exact hk.filter _

theorem terminal_perm (h : ∀ id,mid.isTerminal id=reg.isTerminal id) :
    mid.terminal.Perm reg.terminal := by
  refine (List.perm_ext_iff_of_nodup nodup_terminal nodup_terminal).mpr fun id => ?_
  rw [mem_terminal,mem_terminal,← isTerminal_iff,← isTerminal_iff,h]

theorem mem_terminalIds (x : TaskId × Instant) :
    x∈reg.terminalIds walk ↔ ∃ st,reg.get x.1=some st ∧ st.status≠.running ∧ st.updatedAt=x.2 := by
  rw [terminalIds,List.mem_filterMap]
  constructor
  · rintro ⟨id,-,h⟩
    obtain ⟨e,he,hc⟩:=Option.bind_eq_some_iff.mp h
    split at hc
    case isTrue hs =>
      cases hc
      exact ⟨e.state,get_eq_some.mpr ⟨e,he,rfl⟩,hs,rfl⟩
    case isFalse => cases hc
  · rintro ⟨st,hst,hs,ht⟩
    obtain ⟨e,he,rfl⟩:=get_eq_some.mp hst
    refine ⟨x.1,(mem_walked walk x.1).mpr ⟨e,he⟩,?_⟩
    rw [he,Option.bind_some,if_pos hs,ht]

theorem terminalIds_perm : ((reg.terminalIds walk).map Prod.fst).Perm reg.terminal := by
  have hf : (reg.terminalIds walk).map Prod.fst=(reg.walked walk).filter reg.isTerminal := by
    rw [terminalIds,List.map_filterMap,← List.filterMap_eq_filter]
    refine List.filterMap_congr fun id _ => ?_
    cases he : reg.entries.get id with
    | none => simp [isTerminal,get,he,Option.guard]
    | some e => by_cases hs : e.state.status=.running <;> simp [isTerminal,get,he,hs,Option.guard]
  have hn : ((reg.terminalIds walk).map Prod.fst).Nodup := by
    rw [hf]
    exact (nodup_walked walk).filter _
  refine (List.perm_ext_iff_of_nodup hn nodup_terminal).mpr fun id => ?_
  rw [mem_terminal,List.mem_map]
  constructor
  · rintro ⟨x,hx,rfl⟩
    obtain ⟨st,hst,hs,-⟩:=(mem_terminalIds walk x).mp hx
    exact ⟨st,hst,hs⟩
  · rintro ⟨st,hst,hs⟩
    exact ⟨(id,st.updatedAt),(mem_terminalIds walk _).mpr ⟨st,hst,hs,rfl⟩,rfl⟩

/-- The terminal tasks from the longest unused on; the surplus is the first part of it. -/
def byAge (walk : List TaskId) (reg : TaskRegistry) : List (TaskId × Instant) :=
  Lib.arranged Prod.snd (reg.terminalIds walk)

theorem surplus_eq : reg.surplus walk=((reg.byAge walk).take
      ((reg.byAge walk).length-TERMINAL_TASK_CAP)).map Prod.fst :=
  rfl

theorem byAge_perm : ((reg.byAge walk).map Prod.fst).Perm reg.terminal :=
  ((Lib.arranged_perm _ _).map _).trans (terminalIds_perm walk)

theorem length_surplus : (reg.surplus walk).length=reg.terminal.length-TERMINAL_TASK_CAP := by
  have hl : (reg.byAge walk).length=reg.terminal.length := by
    rw [← (byAge_perm walk).length_eq,List.length_map]
  rw [surplus_eq,List.length_map,List.length_take,hl]
  omega

theorem nodup_surplus : (reg.surplus walk).Nodup := by
  have hn:=(byAge_perm walk).nodup_iff.mpr (@nodup_terminal reg)
  rw [surplus_eq]
  exact hn.sublist ((List.take_sublist _ _).map _)

theorem surplus_le {walk : List TaskId} {a b : TaskId} {s u : TaskState} (ha : a∈reg.surplus walk)
    (hb : b∉reg.surplus walk) (hs : reg.get a=some s) (hu : reg.get b=some u)
      (ht : u.status≠.running) :
    s.updatedAt ≤ u.updatedAt := by
  rw [surplus_eq] at ha hb
  obtain ⟨x,hx,rfl⟩:=List.mem_map.mp ha
  have hy : (b,u.updatedAt)∈reg.byAge walk :=
    (Lib.arranged_perm _ _).mem_iff.mpr ((mem_terminalIds walk _).mpr ⟨u,hu,ht,rfl⟩)
  have hsplit:=List.take_append_drop ((reg.byAge walk).length-TERMINAL_TASK_CAP) (reg.byAge walk)
  have hp:=Lib.arranged_pairwise Prod.snd (reg.terminalIds walk)
  change (reg.byAge walk).Pairwise _ at hp
  rw [← hsplit] at hy hp
  have hd:=(List.mem_append.mp hy).resolve_left fun h => hb (List.mem_map_of_mem (f := Prod.fst) h)
  have hle:=(List.pairwise_append.mp hp).2.2 x hx _ hd
  obtain ⟨v,hv,-,hvt⟩:=(mem_terminalIds walk x).mp
    ((Lib.arranged_perm _ _).mem_iff.mp (List.mem_of_mem_take hx))
  obtain rfl:=Option.some.inj (hs.symm.trans hv)
  rw [hvt]
  exact hle

theorem get_pruned (id : TaskId) :
    (reg.pruneTerminalTasks walk).get id=if id∈reg.surplus walk then none else reg.get id := by
  rw [get,get_prune]
  split <;> rfl

theorem terminal_prune : (reg.pruneTerminalTasks walk).terminal.length ≤ TERMINAL_TASK_CAP := by
  have hsub : ∀ id∈reg.surplus walk,id∈reg.terminal := by
    intro id h
    obtain ⟨e,he,hs⟩:=surplus_terminal h
    exact mem_terminal.mpr ⟨e.state,get_eq_some.mpr ⟨e,he,rfl⟩,hs⟩
  have hn : (reg.surplus walk++(reg.pruneTerminalTasks walk).terminal).Nodup := by
    refine List.nodup_append'.mpr ⟨nodup_surplus walk,nodup_terminal,fun id h ht => ?_⟩
    obtain ⟨st,hst,-⟩:=mem_terminal.mp ht
    rw [get_pruned,if_pos h] at hst
    cases hst
  have hle : reg.surplus walk++(reg.pruneTerminalTasks walk).terminal ⊆ reg.terminal := by
    intro id h
    rcases List.mem_append.mp h with h | h
    · exact hsub id h
    · obtain ⟨st,hst,hs⟩:=mem_terminal.mp h
      rw [get_pruned] at hst
      split at hst
      · cases hst
      · exact mem_terminal.mpr ⟨st,hst,hs⟩
  have hlen:=(hn.subperm hle).length_le
  rw [List.length_append,length_surplus] at hlen
  omega

theorem get_modify_of_some {e : TaskEntry} (he : reg.entries.get id=some e)
    (f : TaskEntry → TaskEntry) (a : TaskId) :
    (reg.modify id f).get a=if a=id then some (f e).state else reg.get a := by
  rw [get,get_modify]
  split
  case isTrue => rw [he]; rfl
  case isFalse => rfl

theorem modify_of_none (he : reg.entries.get id=none) (f : TaskEntry → TaskEntry) :
    reg.modify id f=reg := by
  rw [modify,he]

theorem get_insert (id : TaskId) (st : TaskState) (a : TaskId) :
    (reg.insert id st).get a=if a=id then some st else reg.get a := by
  rw [get,insert,Map.get_insert]
  split <;> rfl

end TaskRegistry

open TaskRegistry

/-- The last reading of the clock so far, and no two tasks with the same one. -/
structure Timed (reg : TaskRegistry) (last : Option Instant) : Prop where
  past : ∀ id st,reg.get id=some st → ∃ t∈last,st.updatedAt ≤ t
  distinct : ∀ a b s u,reg.get a=some s → reg.get b=some u → s.updatedAt=u.updatedAt → a=b

namespace Timed
variable {reg mid : TaskRegistry} {last : Option Instant} {now : Instant}

theorem of_subset (h : Timed reg last) (hg : ∀ id st,mid.get id=some st → reg.get id=some st) :
    Timed mid last where
  past id st hst := h.past id st (hg id st hst)
  distinct a b s u hs hu := h.distinct a b s u (hg a s hs) (hg b u hu)

theorem prune (h : Timed reg last) (walk : List TaskId) :
    Timed (reg.pruneTerminalTasks walk) last := by
  refine h.of_subset fun id st hst => ?_
  rw [get_pruned] at hst
  split at hst
  · cases hst
  · exact hst

theorem stamp (h : Timed reg last) (hnow : ∀ t∈last,t < now) {st : TaskState}
    (ht : st.updatedAt=now) (hm : ∀ a,mid.get a=if a=id then some st else reg.get a) :
    Timed mid (some now) := by
  have hold : ∀ {a s},a≠id → mid.get a=some s → reg.get a=some s ∧ s.updatedAt < now := by
    intro a s ha hs
    rw [hm,if_neg ha] at hs
    obtain ⟨t,htl,hle⟩:=h.past a s hs
    exact ⟨hs,Nat.lt_of_le_of_lt hle (hnow t htl)⟩
  have hself : ∀ {s},mid.get id=some s → s.updatedAt=now := by
    intro s hs
    rw [hm,if_pos rfl] at hs
    cases hs
    exact ht
  refine ⟨fun a s hs => ⟨now,rfl,?_⟩,fun a b s u hs hu he => ?_⟩
  · by_cases ha : a=id
    · subst ha
      exact Nat.le_of_eq (hself hs)
    · exact Nat.le_of_lt (hold ha hs).2
  · by_cases ha : a=id <;> by_cases hb : b=id
    · exact ha.trans hb.symm
    · subst ha
      exact absurd (he.symm.trans (hself hs)) (Nat.ne_of_lt (hold hb hu).2)
    · subst hb
      exact absurd (he.trans (hself hu)) (Nat.ne_of_lt (hold ha hs).2)
    · exact h.distinct a b s u (hold ha hs).1 (hold hb hu).1 he

theorem latest_kept (h : Timed reg (some now)) {st : TaskState} (hst : reg.get id=some st)
    (ht : st.updatedAt=now) (walk : List TaskId) :
      (reg.pruneTerminalTasks walk).get id=some st := by
  rw [get_pruned,if_neg ?_,hst]
  intro hid
  have hother : ∃ b∈reg.terminal,b∉reg.surplus walk := by
    by_contra hno
    have hsub : reg.terminal ⊆ reg.surplus walk := fun b hb => by
      by_contra hn
      exact hno ⟨b,hb,hn⟩
    have hlen:=((@nodup_terminal reg).subperm hsub).length_le
    have hpos:=List.length_pos_of_mem hid
    rw [length_surplus] at hlen hpos
    have hcap:=cap_eq
    omega
  obtain ⟨b,hb,hn⟩:=hother
  obtain ⟨u,hu,hs⟩:=mem_terminal.mp hb
  have hle:=surplus_le hid hn hst hu hs
  obtain ⟨t,htn,hpast⟩:=h.past b u hu
  obtain rfl:=Option.some.inj htn
  have he : st.updatedAt=u.updatedAt :=
    Nat.le_antisymm hle (Nat.le_trans hpast (Nat.le_of_eq ht.symm))
  exact hn (h.distinct id b st u hst hu he ▸ hid)

end Timed

/-- Whether the call reads the clock. -/
def TaskOp.reads (r : Reading) (reg : TaskRegistry) : TaskOp → Bool
  | .createKeyed key _ => (reg.duplicate key r.walk).isNone
  | .createWithKey _ key _ | .createWithMeta _ key _ _ =>
    (key.bind fun key => reg.duplicate key r.walk).isNone
  | .create _ _ | .createCompleted _ _ => true
  | .updateMessage id _ | .mergeMeta id _ | .complete id _ | .fail id _ =>
    (reg.entries.get id).isSome
  | .cancel id => (reg.entries.get id).any (·.state.status=.running)
  | .setHandle _ _ | .get _ | .listAll => false

/-- What one call does to the states: nothing, one of them written with the time of the call,
and after most of the calls what is over the cap removed. -/
inductive Course (now : Instant) (reg after : TaskRegistry) : Bool → Prop where
  | still (h : ∀ a,after.get a=reg.get a) : Course now reg after false
  | touched (id : TaskId) (s st : TaskState) (hb : reg.get id=some s) (hs : st.status=s.status)
      (ht : st.updatedAt=now) (h : ∀ a,after.get a=if a=id then some st else reg.get a) :
      Course now reg after true
  | swept (walk : List TaskId) (h : after=reg.pruneTerminalTasks walk) : Course now reg after false
  | written (mid : TaskRegistry) (walk : List TaskId) (id : TaskId) (st : TaskState)
      (ht : st.updatedAt=now) (hm : ∀ a,mid.get a=if a=id then some st else reg.get a)
      (h : after=mid.pruneTerminalTasks walk) : Course now reg after true

namespace Course
variable {reg : TaskRegistry} {r : Reading}

theorem refresh (id : TaskId) (f : TaskEntry → TaskEntry)
    (hs : ∀ e,(f e).state.status=e.state.status) (ht : ∀ e,(f e).state.updatedAt=r.now) :
    Course r.now reg (reg.modify id f) (reg.entries.get id).isSome := by
  cases he : reg.entries.get id with
  | none => exact .still fun a => by rw [modify_of_none he]
  | some e =>
    exact .touched id e.state (f e).state (get_eq_some.mpr ⟨e,he,rfl⟩) (hs e) (ht e)
      (get_modify_of_some he f)

theorem finish (id : TaskId) (f : TaskEntry → TaskEntry) (ht : ∀ e,(f e).state.updatedAt=r.now)
    (walk : List TaskId) :
    Course r.now reg ((reg.modify id f).pruneTerminalTasks walk) (reg.entries.get id).isSome := by
  cases he : reg.entries.get id with
  | none => exact .swept walk (by rw [modify_of_none he])
  | some e => exact .written _ walk id (f e).state (ht e) (get_modify_of_some he f) rfl

theorem insert (n : Nat) (id : TaskId) (st : TaskState) (ht : st.updatedAt=r.now)
    (walk : List TaskId) :
    Course r.now reg (({reg with counter := n}.insert id st).pruneTerminalTasks walk) true :=
  .written _ walk id st ht (@TaskRegistry.get_insert {reg with counter := n} id st) rfl

theorem createInternal (pre : String) (key : Option String) (message : String)
    (metadata : Option Json) :
    Course r.now reg (reg.createInternal pre key message metadata r).2
      (key.bind fun key => reg.duplicate key r.walk).isNone := by
  unfold TaskRegistry.createInternal
  cases key.bind fun key => reg.duplicate key r.walk with
  | some x => exact .still fun _ => rfl
  | none => exact insert _ _ _ rfl _

theorem run (o : TaskOp) : Course r.now reg (o.run r reg).2 (o.reads r reg) := by
  cases o with
  | createKeyed key message => exact createInternal "dsc" (some key) message none
  | create pre message => exact createInternal pre none message none
  | createWithKey pre key message => exact createInternal pre key message none
  | createWithMeta pre key message metadata => exact createInternal pre key message (some metadata)
  | get | listAll => exact .still fun _ => rfl
  | setHandle id handle =>
    refine .still fun a => ?_
    change (reg.modify id _).get a=_
    cases he : reg.entries.get id with
    | none => rw [modify_of_none he]
    | some e =>
      rw [get_modify_of_some he]
      split
      case isTrue h => rw [h,TaskRegistry.get,he]; rfl
      case isFalse => rfl
  | updateMessage id message => exact refresh id _ (fun _ => rfl) fun _ => rfl
  | mergeMeta id patch => exact refresh id _ (fun _ => rfl) fun _ => rfl
  | complete id v => exact finish id _ (fun _ => rfl) _
  | fail id m => exact finish id _ (fun _ => rfl) _
  | cancel id =>
    change Course r.now reg (reg.cancel id r).2 ((reg.entries.get id).any _)
    unfold TaskRegistry.cancel
    cases he : reg.entries.get id with
    | none => exact .still fun _ => rfl
    | some e =>
      by_cases hs : e.state.status=.running
      · have ha : (some e).any (fun e => decide (e.state.status=.running))=true := decide_eq_true hs
        simp only [if_pos hs]
        rw [ha]
        have he' : ({reg with aborted := e.handle.toList++reg.aborted} :
          TaskRegistry).entries.get id=
          some e := he
        exact .written _ _ id _ rfl (get_modify_of_some he' _) rfl
      · have ha : (some e).any (fun e => decide (e.state.status=.running))=false :=
          decide_eq_false hs
        simp only [if_neg hs]
        rw [ha]
        exact .still fun _ => rfl
  | createCompleted message v => exact insert _ _ _ rfl _

end Course

/-- A task that went was terminal, and every terminal task that is left was written later. -/
def Dropped (reg after : TaskRegistry) : Prop :=
  ∀ id st,reg.get id=some st → after.get id=none →
    st.status≠.running ∧
      ∀ other u,after.get other=some u → u.status≠.running → st.updatedAt < u.updatedAt

theorem Timed.dropped {reg : TaskRegistry} {last : Option Instant} (h : Timed reg last)
    (walk : List TaskId) : Dropped reg (reg.pruneTerminalTasks walk) := by
  intro id st hst hnone
  have hid : id∈reg.surplus walk := by
    by_contra hn
    rw [get_pruned,if_neg hn,hst] at hnone
    cases hnone
  refine ⟨?_,fun other u hu hs => ?_⟩
  · obtain ⟨e,he,hs⟩:=surplus_terminal hid
    obtain rfl:=Option.some.inj (hst.symm.trans (get_eq_some.mpr ⟨e,he,rfl⟩))
    exact hs
  · rw [get_pruned] at hu
    split at hu
    case isTrue => cases hu
    case isFalse hn =>
      refine Nat.lt_of_le_of_ne (surplus_le hid hn hst hu hs) fun he => ?_
      exact hn (h.distinct id other st u hst hu he ▸ hid)

namespace Course
variable {reg after : TaskRegistry} {now : Instant} {last : Option Instant} {b : Bool}

theorem timed (hc : Course now reg after b) (h : Timed reg last)
    (hnow : b=true → ∀ t∈last,t < now) :
    Timed after (if b then some now else last) := by
  cases hc with
  | still hg => exact h.of_subset fun id st hst => hg id ▸ hst
  | touched id s st _ _ ht hg => exact h.stamp (hnow rfl) ht hg
  | swept walk he => exact he ▸ h.prune walk
  | written mid walk id st ht hm he => exact he ▸ (h.stamp (hnow rfl) ht hm).prune walk

theorem capped (hc : Course now reg after b) (h : reg.terminal.length ≤ TERMINAL_TASK_CAP) :
    after.terminal.length ≤ TERMINAL_TASK_CAP := by
  cases hc with
  | still hg =>
    have hp : after.terminal.Perm reg.terminal := terminal_perm fun id => by
      rw [isTerminal,isTerminal,hg]
    rwa [hp.length_eq]
  | touched id s st hb hs ht hg =>
    have hp : after.terminal.Perm reg.terminal := by
      refine terminal_perm fun a => ?_
      rw [isTerminal,isTerminal,hg]
      split
      case isTrue ha => rw [ha,hb,Option.any_some,Option.any_some,hs]
      case isFalse => rfl
    rwa [hp.length_eq]
  | swept walk he => exact he ▸ terminal_prune walk
  | written mid walk id st ht hm he => exact he ▸ terminal_prune walk

theorem dropped (hc : Course now reg after b) (h : Timed reg last)
    (hnow : b=true → ∀ t∈last,t < now) : Dropped reg after := by
  cases hc with
  | still hg =>
    intro id st hst hnone
    rw [hg,hst] at hnone
    cases hnone
  | touched id s st hb hs ht hg =>
    intro a u hu hnone
    rw [hg] at hnone
    split at hnone
    · cases hnone
    · rw [hu] at hnone
      cases hnone
  | swept walk he => exact he ▸ h.dropped walk
  | written mid walk id st ht hm he =>
    subst he
    have hmid:=h.stamp (hnow rfl) ht hm
    intro a u hu hnone
    by_cases ha : a=id
    · have hself:=hmid.latest_kept ((hm id).trans (if_pos rfl)) ht walk
      rw [ha,hself] at hnone
      cases hnone
    · exact hmid.dropped walk a u ((hm a).trans ((if_neg ha).trans hu)) hnone

end Course

/-- A run of the registry whose readings of the clock strictly increase, with the last of them. -/
inductive Clocked (n : Nat) : TaskRegistry → Option Instant → Prop where
  | new : Clocked n (.new n) none
  | step {reg : TaskRegistry} {last : Option Instant} (o : TaskOp) (r : Reading) :
      Clocked n reg last → (o.reads r reg=true → ∀ t∈last,t < r.now) →
        Clocked n (o.run r reg).2 (if o.reads r reg then some r.now else last)

namespace Clocked
variable {n : Nat} {reg : TaskRegistry} {last : Option Instant}

theorem wf (h : Clocked n reg last) : Wf reg := by
  induction h with
  | new => exact .new n
  | step o r _ _ ih => exact ih.step (.run ih o r)

theorem timed (h : Clocked n reg last) : Timed reg last := by
  induction h with
  | new => exact ⟨fun _ _ h => (by cases h),fun _ _ _ _ h => (by cases h)⟩
  | step o r _ hc ih => exact (Course.run o).timed ih hc

theorem capped (h : Clocked n reg last) : reg.terminal.length ≤ TERMINAL_TASK_CAP := by
  induction h with
  | new => exact Nat.zero_le _
  | step o r _ _ ih => exact (Course.run (r := r) o).capped ih

end Clocked

/-- The task that a call has made or finished is there after it, with its result. -/
def TaskOp.Kept (before after : TaskRegistry) : (o : TaskOp) → o.Res → Prop
  | .createKeyed _ _,res | .createWithKey _ _ _,res | .createWithMeta _ _ _ _,res =>
    ∀ id,res=.ok id → before.get id=none ∧ ∃ st,after.get id=some st ∧ st.status=.running
  | .create _ _,res =>
    ∀ id,res=some id → before.get id=none ∧ ∃ st,after.get id=some st ∧ st.status=.running
  | .createCompleted _ v,id =>
    before.get id=none ∧ ∃ st,after.get id=some st ∧ st.status=.completed ∧ st.result=some v
  | .complete id v,_ => before.get id≠none →
    ∃ st,after.get id=some st ∧ st.status=.completed ∧ st.result=some v
  | .fail id m,_ => ∀ s,before.get id=some s →
    ∃ st,after.get id=some st ∧ st.status=.failed ∧ st.message=m ∧ st.result=s.result
  | .cancel id,res => res=true → ∃ s st,before.get id=some s ∧ s.status=.running ∧
    after.get id=some st ∧ st.status=.cancelled ∧ st.result=s.result
  | .setHandle _ _,_ | .get _,_ | .listAll,_ | .updateMessage _ _,_ | .mergeMeta _ _,_ => True

namespace Timed
variable {reg : TaskRegistry} {last : Option Instant} {r : Reading}

theorem kept_insert (h : Timed reg last) (hnow : ∀ t∈last,t < r.now) (n : Nat) (id : TaskId)
    (st : TaskState) (ht : st.updatedAt=r.now) (walk : List TaskId) :
    (({reg with counter := n}.insert id st).pruneTerminalTasks walk).get id=some st := by
  have hm:=@TaskRegistry.get_insert {reg with counter := n} id st
  exact (h.stamp hnow ht hm).latest_kept ((hm id).trans (if_pos rfl)) ht walk

theorem kept_modify (h : Timed reg last) (hnow : ∀ t∈last,t < r.now) {e : TaskEntry}
    (he : reg.entries.get id=some e) (as : List Nat) (f : TaskEntry → TaskEntry)
    (ht : (f e).state.updatedAt=r.now) (walk : List TaskId) :
    (({reg with aborted := as}.modify id f).pruneTerminalTasks walk).get id=some (f e).state := by
  have hm:=@get_modify_of_some id {reg with aborted := as} e he f
  exact (h.stamp hnow ht hm).latest_kept ((hm id).trans (if_pos rfl)) ht walk

theorem kept_createInternal (h : Timed reg last) (hw : Wf reg) (pre : String) (key : Option String)
    (message : String) (metadata : Option Json)
    (hnow : (key.bind fun key => reg.duplicate key r.walk).isNone=true → ∀ t∈last,t < r.now)
    (id : TaskId) (hid : (reg.createInternal pre key message metadata r).1=.ok id) :
    reg.get id=none ∧ ∃ st,(reg.createInternal pre key message metadata r).2.get id=some st ∧
      st.status=.running := by
  unfold TaskRegistry.createInternal at hid ⊢
  cases hd : key.bind fun key => reg.duplicate key r.walk with
  | some x => rw [hd] at hid; cases hid
  | none =>
    rw [hd] at hid
    cases hid
    have hk:=h.kept_insert (hnow (by rw [hd]; rfl)) (reg.counter+r.elsewhere+1)
      (nextTaskId pre (reg.counter+r.elsewhere))
      ⟨nextTaskId pre (reg.counter+r.elsewhere),.running,message,metadata,none,r.now,r.now,r.iso,
        r.iso,key⟩ rfl r.walkAfter
    exact ⟨hw.get_next pre (Nat.le_add_right _ _),_,hk,rfl⟩

theorem kept (h : Timed reg last) (hw : Wf reg) (o : TaskOp)
    (hnow : o.reads r reg=true → ∀ t∈last,t < r.now) :
      o.Kept reg (o.run r reg).2 (o.run r reg).1 := by
  cases o with
  | createKeyed key message => exact h.kept_createInternal hw "dsc" (some key) message none hnow
  | createWithKey pre key message => exact h.kept_createInternal hw pre key message none hnow
  | createWithMeta pre key message metadata =>
    exact h.kept_createInternal hw pre key message (some metadata) hnow
  | create pre message =>
    intro id hid
    refine h.kept_createInternal hw pre none message none (fun _ => hnow rfl) id ?_
    change (reg.createInternal pre none message none r).1.toOption=some id at hid
    cases hx : (reg.createInternal pre none message none r).1 with
    | error x => rw [hx] at hid; cases hid
    | ok x => rw [hx] at hid; cases hid; rfl
  | createCompleted message v =>
    have hk:=h.kept_insert (hnow rfl) (reg.counter+r.elsewhere+1)
      (nextTaskId "task" (reg.counter+r.elsewhere))
      ⟨nextTaskId "task" (reg.counter+r.elsewhere),.completed,message,none,some v,r.now,r.now,r.iso,
        r.iso,none⟩ rfl r.walkAfter
    exact ⟨hw.get_next "task" (Nat.le_add_right _ _),_,hk,rfl,rfl⟩
  | complete id v =>
    intro hne
    cases he : reg.entries.get id with
    | none => exact absurd (by rw [TaskRegistry.get,he]; rfl) hne
    | some e => exact ⟨_,h.kept_modify (hnow (by rw [TaskOp.reads,he]; rfl)) he reg.aborted _ rfl _,
        rfl,rfl⟩
  | fail id m =>
    intro s hs
    obtain ⟨e,he,rfl⟩:=get_eq_some.mp hs
    exact ⟨_,h.kept_modify (hnow (by rw [TaskOp.reads,he]; rfl)) he reg.aborted _ rfl _,rfl,rfl,rfl⟩
  | cancel id =>
    intro hres
    change (reg.cancel id r).1=true at hres
    change ∃ s st,_ ∧ _ ∧ (reg.cancel id r).2.get id=_ ∧ _
    have hclock : (reg.entries.get id).any (fun e => decide (e.state.status=.running))=true →
      ∀ t∈last,t < r.now := hnow
    unfold TaskRegistry.cancel at hres ⊢
    cases he : reg.entries.get id with
    | none => rw [he] at hres; cases hres
    | some e =>
      rw [he] at hres hclock
      by_cases hs : e.state.status=.running
      · simp only [if_pos hs]
        have hk:=h.kept_modify (hclock (decide_eq_true hs)) he (e.handle.toList++reg.aborted)
          (fun e => ⟨refreshUpdated r {e.state with
            status := .cancelled,message := "Cancelled by client"},none⟩) rfl r.walkAfter
        exact ⟨e.state,_,get_eq_some.mpr ⟨e,he,rfl⟩,hs,hk,rfl,rfl⟩
      · simp only [if_neg hs] at hres
        cases hres
  | setHandle | get | listAll | updateMessage | mergeMeta => trivial

end Timed

/-- No call leaves more than 256 terminal tasks, and those that go are the oldest. -/
theorem retention (n : Nat) {reg : TaskRegistry} {last : Option Instant} (h : Clocked n reg last)
    (o : TaskOp) (r : Reading) (hnow : o.reads r reg=true → ∀ t∈last,t < r.now) :
    (o.run r reg).2.terminal.length ≤ 256 ∧
    (∀ id st,reg.get id=some st → st.status=.running → (o.run r reg).2.get id≠none) ∧
    Dropped reg (o.run r reg).2 ∧ o.Kept reg (o.run r reg).2 (o.run r reg).1 := by
  have hd:=(Course.run o).dropped h.timed hnow
  refine ⟨cap_eq ▸ (Course.run (r := r) o).capped h.capped,?_,hd,h.timed.kept h.wf o hnow⟩
  intro id st hst hs hnone
  exact (hd id st hst hnone).1 hs

/-- The registry after `n` tasks that were completed from the start, one at each time. -/
def filled : Nat → TaskRegistry
  | 0 => .new 1
  | n+1 => ((TaskOp.createCompleted "" .null).run {now := n+1} (filled n)).2

theorem filled_counter (n : Nat) : (filled n).counter=n+1 := by
  induction n with
  | zero => rfl
  | succ n ih => exact congrArg (·+1) ih

theorem filled_completed (n : Nat) : ∀ id st,(filled n).get id=some st → st.status=.completed := by
  induction n with
  | zero => rintro _ _ ⟨⟩
  | succ n ih =>
    intro id st h
    rw [filled,TaskOp.run,createCompleted,get_pruned] at h
    split at h
    · cases h
    rw [get_insert] at h
    split at h
    · cases h
      rfl
    · exact ih id st h

theorem filled_clocked (n : Nat) : ∃ last,Clocked 1 (filled n) last ∧ ∀ t∈last,t < n+1 := by
  induction n with
  | zero => exact ⟨none,.new,by rintro _ ⟨⟩⟩
  | succ n ih =>
    obtain ⟨last,h,hl⟩:=ih
    exact ⟨some (n+1),h.step (.createCompleted "" .null) {now := n+1} fun _ => hl,
      fun t ht => by cases ht; exact Nat.lt_succ_self _⟩

/-- Of 257 tasks the newest is there, and another is not. -/
theorem retention_completed :
    (∃ st,(filled 257).get (nextTaskId "task" 257)=some st ∧ st.status=.completed) ∧
      ∃ k,0 < k ∧ k < 257 ∧ (filled 257).get (nextTaskId "task" k)=none := by
  have hnew (n : Nat) : (filled (n+1)).terminal.length ≤ 256 ∧
      ∃ st,(filled (n+1)).get (nextTaskId "task" (n+1))=some st ∧ st.status=.completed := by
    obtain ⟨last,hc,hl⟩:=filled_clocked n
    obtain ⟨hcap,-,-,-,st,hst,hs,-⟩:=
      retention 1 hc (.createCompleted "" .null) {now := n+1} fun _ => hl
    change (filled (n+1)).get (nextTaskId "task" (filled n).counter)=some st at hst
    rw [filled_counter] at hst
    exact ⟨hcap,st,hst,hs⟩
  obtain ⟨hcap,st,hst,hs⟩:=hnew 256
  refine ⟨⟨st,hst,hs⟩,?_⟩
  by_contra hno
  -- otherwise all 257 are there, which is one over the cap
  have hsub : (List.range 257).map (fun k => nextTaskId "task" (k+1)) ⊆ (filled 257).terminal := by
    intro id hid
    obtain ⟨k,hk,rfl⟩:=List.mem_map.mp hid
    rw [List.mem_range] at hk
    cases hg : (filled 257).get (nextTaskId "task" (k+1)) with
    | some st => exact mem_terminal.mpr ⟨st,hg,by rw [filled_completed _ _ _ hg]; decide⟩
    | none =>
      refine absurd ⟨k+1,Nat.succ_pos k,?_,hg⟩ hno
      by_contra hge
      obtain rfl : k=256 := by omega
      cases hg.symm.trans hst
  have hn : ((List.range 257).map fun k => nextTaskId "task" (k+1)).Nodup :=
    List.nodup_range.map fun _ _ h => Nat.succ.inj (nextTaskId_injective h)
  have hlen:=(hn.subperm hsub).length_le
  rw [List.length_map,List.length_range] at hlen
  exact absurd (hlen.trans hcap) (by decide)

end Tasks
