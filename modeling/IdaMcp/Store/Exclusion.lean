import IdaMcp.Store.LockFile

/-!
# One holder at a time

A process guards the name when the file it has locked is the one the name is
bound to. Two processes cannot both guard it. What a process takes for the
lock guards the name only if nobody unlinked the file between its open and its
lock, and nobody unlinks it later on the strength of what it read before.
-/

namespace McpLock
open Lib

def Guards (s : Files) (i : Pid) : Prop := ∃ a,s.name=some a ∧ s.locks.get a=some i

theorem Guards.unique {s : Files} {i j : Pid} (hi : Guards s i) (hj : Guards s j) : i=j := by
  obtain ⟨a,ha,hia⟩ := hi
  obtain ⟨b,hb,hjb⟩ := hj
  obtain rfl:=Option.some.inj (ha.symm.trans hb)
  exact Option.some.inj (hia.symm.trans hjb)

/-- A lock that `acquire` gets is on the file the name still stands for, and
`clean_stale` unlinks only what no other process has locked. -/
def StillBound (p : System) : Label Op.Res Job → Prop
  | .run _ ⟨.setLock .acquire fd,true⟩ => ∃ a,p.state.descriptors.get fd=some a ∧
      p.state.name=some a
  | .run i ⟨.unlink .cleanStale,_⟩ =>
    ∀ a,p.state.name=some a → ∀ j,p.state.locks.get a=some j → j=i
  | _ => True

/-- Where a process stands in `session`. -/
inductive Phase
  | outside
  | trying (fd : Fd)
  | locked
  | inside
  | leaving
  deriving DecidableEq

def Phase.guards : Phase → Bool
  | .locked | .inside | .leaving => true
  | .outside | .trying _ => false

def phases : Monitor Op.Res Phase where
  next m e:=match m,e with
    | .outside,⟨.openCreate,some fd⟩ => .trying fd
    | .trying _,⟨.setLock .acquire _,true⟩ => .locked
    | .trying _,⟨.close _,_⟩ => .outside
    | .locked,⟨.enter,_⟩ => .inside
    | .inside,⟨.leave,_⟩ => .leaving
    | .leaving,⟨.unlink .release,_⟩ => .outside
    | m,_ => m
  allowed m op:=match m,op with
    | .outside,.setLock .cleanStale _ | .outside,.unlink .cleanStale => True
    | .outside,.setLock _ _ | .outside,.unlink _ | .outside,.enter | .outside,.leave => False
    | .outside,_ => True
    | .trying fd,.setLock .acquire fd' => fd'=fd
    | .trying _,.getLock _ | .trying _,.close _ => True
    | .locked,.setLen _ | .locked,.writeInfo _ | .locked,.enter => True
    | .inside,.openDatabase | .inside,.leave => True
    | .leaving,.unlink .release => True
    | _,_ => False
  good _ _:=True

namespace Phases

abbrev Out (m : Phase) : Prop := m=.outside

/-- The calls that begin and end nothing. -/
def plain : Op → Bool
  | .openCreate | .setLock .acquire _ | .setLock .release _ | .unlink .acquire | .unlink .release
  | .enter | .leave => false
  | _ => true

theorem keeps_act {op : Op} (h : plain op=true) : phases.Keeps Out (act op) := by
  rintro m rfl
  cases op with
  | setLock site fd =>
    cases site <;> first | exact absurd h Bool.false_ne_true | exact ⟨trivial,fun _ _ => rfl⟩
  | unlink site =>
    cases site <;> first | exact absurd h Bool.false_ne_true | exact ⟨trivial,fun _ _ => rfl⟩
  | openCreate => exact absurd h Bool.false_ne_true
  | enter => exact absurd h Bool.false_ne_true
  | leave => exact absurd h Bool.false_ne_true
  | _ => exact ⟨trivial,fun _ _ => rfl⟩

theorem keeps_close {α : Type} (fd : Fd) (a : α) :
    phases.Keeps Out (do act (.close fd); return a) :=
  Monitor.keeps_bind (keeps_act rfl) fun _ => Monitor.keeps_pure a

theorem keeps_readLockFilePid : phases.Keeps Out readLockFilePid := by
  refine Monitor.keeps_bind (keeps_act rfl) fun o => ?_
  cases o with
  | none => exact Monitor.keeps_pure none
  | some fd => exact Monitor.keeps_bind (keeps_act rfl) fun pid => keeps_close fd pid

theorem keeps_lockedByPid : phases.Keeps Out lockedByPid := by
  refine Monitor.keeps_bind (keeps_act rfl) fun o => ?_
  cases o with
  | none => exact Monitor.keeps_pure none
  | some fd => exact Monitor.keeps_bind (keeps_act rfl) fun pid => keeps_close fd pid

theorem keeps_tryLockFile (fd : Fd) : phases.Keeps Out (tryLockFile .cleanStale fd) := by
  refine Monitor.keeps_bind (keeps_act rfl) fun b => ?_
  cases b with
  | true => exact Monitor.keeps_pure _
  | false => exact Monitor.keeps_bind (keeps_act rfl) fun _ => Monitor.keeps_pure _

theorem keeps_unlink {α : Type} (a b : α) :
    phases.Keeps Out (do if ← act (.unlink .cleanStale) then return a else return b) := by
  refine Monitor.keeps_bind (keeps_act rfl) fun ok => ?_
  cases ok <;> exact Monitor.keeps_pure _

theorem keeps_cleanUnreadable : phases.Keeps Out cleanUnreadable := by
  refine Monitor.keeps_bind (keeps_act rfl) fun o => ?_
  cases o with
  | none => exact Monitor.keeps_pure none
  | some fd =>
    refine Monitor.keeps_bind (keeps_tryLockFile fd) fun e => ?_
    cases e with
    | error pid => exact keeps_close fd none
    | ok u => exact Monitor.keeps_bind (keeps_act rfl) fun _ => keeps_unlink _ _

theorem keeps_cleanStale : phases.Keeps Out cleanStaleMcpLock := by
  refine Monitor.keeps_bind (keeps_act rfl) fun here => ?_
  cases here with
  | false => exact Monitor.keeps_pure none
  | true =>
    refine Monitor.keeps_bind keeps_readLockFilePid fun o => ?_
    cases o with
    | none => exact keeps_cleanUnreadable
    | some pid =>
      refine Monitor.keeps_bind (keeps_act rfl) fun running => ?_
      cases running with
      | true => exact Monitor.keeps_pure none
      | false => exact keeps_unlink _ _

theorem keeps_detectDbLock : phases.Keeps Out detectDbLock := by
  refine Monitor.keeps_bind (keeps_act rfl) fun o => ?_
  cases o with
  | some pid => exact Monitor.keeps_pure _
  | none =>
    refine Monitor.keeps_bind (keeps_act rfl) fun here => ?_
    cases here with
    | true => exact keeps_lockedByPid
    | false => exact Monitor.keeps_pure none

/-- Where `acquire_mcp_lock` leaves the process. -/
def Acquired (r : Except LockError Fd) (m : Phase) : Prop :=
  (r.toOption.isSome=true ∧ m=.locked) ∨ (r.toOption.isSome=false ∧ m=.outside)

theorem acquire : phases.wp acquireMcpLock Acquired .outside := by
  refine phases.wp_seq (Q := fun o m => m=o.elim .outside .trying) ⟨trivial,?_⟩ ?_
  · rintro (_ | fd) - <;> rfl
  rintro (_ | fd) m rfl
  · exact .inr ⟨rfl,rfl⟩
  refine ⟨rfl,?_⟩
  rintro (_ | _) -
  · exact ⟨trivial,fun _ _ => ⟨trivial,fun _ _ => .inr ⟨rfl,rfl⟩⟩⟩
  · exact ⟨trivial,fun _ _ => ⟨trivial,fun _ _ => .inl ⟨rfl,rfl⟩⟩⟩

theorem release (fd : Fd) : phases.wp (releaseMcpLock fd) (fun _ => Out) .leaving :=
  ⟨trivial,fun _ _ => ⟨trivial,fun _ _ => rfl⟩⟩

theorem keeps_session : phases.Keeps Out session := by
  refine Monitor.keeps_bind keeps_cleanStale fun _ => ?_
  rintro m rfl
  refine phases.wp_seq acquire ?_
  rintro (e | fd) m (⟨hr,rfl⟩ | ⟨hr,rfl⟩)
  · cases hr
  · rfl
  · refine ⟨trivial,fun _ _ => ⟨trivial,?_⟩⟩
    rintro (_ | _) -
    · refine ⟨trivial,fun _ _ => ?_⟩
      change phases.wp (releaseMcpLockFile fd >>= fun _ => detectDbLock >>= fun _ =>
        pure ()) _ .leaving
      refine phases.wp_seq (release fd) fun _ m hm => ?_
      exact Monitor.keeps_bind keeps_detectDbLock (fun _ => Monitor.keeps_pure ()) m hm
    · exact ⟨trivial,fun _ _ => release fd⟩
  · cases hr

theorem keeps_sessions (n : Nat) : phases.Keeps Out (sessions n) := by
  induction n with
  | zero => exact keeps_act rfl
  | succ n ih => exact Monitor.keeps_bind keeps_session fun _ => ih

theorem body (job : Job) : phases.wp job.body (fun _ => Out) .outside := by
  cases job with
  | process =>
    exact Monitor.keeps_bind (keeps_act rfl)
      (fun _ => Monitor.keeps_bind (keeps_act rfl) keeps_sessions) _ rfl
  | crash pid => exact keeps_act rfl _ rfl

end Phases

namespace Guards
variable {s s' : Files} {i j : Pid}

variable (hg : Guards s j)
include hg

theorem mono (hn : s'.name=s.name)
    (hl : ∀ a,s.locks.get a=some j → s'.locks.get a=some j) : Guards s' j := by
  obtain ⟨a,ha,hj⟩ := hg
  exact ⟨a,hn.trans ha,hl a hj⟩

theorem ends (hj : j≠i) : Guards (s.ends i) j :=
  hg.mono rfl fun _ h => (Map.get_keep _ _ _ _).mpr ⟨h,decide_eq_true hj⟩

theorem openCreate : Guards (s.openCreate i).2 j := by
  obtain ⟨a,ha,hj⟩ := hg
  refine ⟨a,?_,?_⟩ <;> simp only [Files.openCreate,ha,Files.opened]
  exact hj

theorem openExisting : Guards (s.openExisting i).2 j := by
  unfold Files.openExisting
  split
  · exact hg
  · exact hg

theorem setLock (hj : j≠i) (fd : Fd) : Guards (s.setLock i fd).2 j := by
  unfold Files.setLock
  split
  · exact hg
  case h_2 inode _ =>
    split
    case isFalse => exact hg
    case isTrue hfree =>
      refine hg.mono rfl fun a ha => ?_
      change (s.locks.insert inode i).get a=some j
      rw [Map.get_insert,if_neg]
      · exact ha
      rintro rfl
      rw [ha] at hfree
      exact hj (of_decide_eq_true hfree)

theorem setPid (fd : Fd) (pid : Option Pid) : Guards (s.setPid fd pid) j := by
  unfold Files.setPid
  split <;> exact hg

theorem close (hj : j≠i) (fd : Fd) : Guards (s.close i fd) j := by
  unfold Files.close
  split
  · exact hg
  · exact hg.mono rfl fun _ h => (Map.get_keep _ _ _ _).mpr ⟨h,decide_eq_true fun e => hj e.2⟩

theorem perform (hj : j≠i) (env : Env) (op : Op) (hu : ∀ site,op≠.unlink site) :
    Guards (s.perform i env op).2 j := by
  cases op with
  | exit => exact hg.ends hj
  | openCreate =>
    simp only [Files.perform]
    split
    · exact hg
    · exact hg.openCreate
  | openExisting =>
    simp only [Files.perform]
    split
    · exact hg
    · exact hg.openExisting
  | setLock site fd => exact hg.setLock hj fd
  | setLen fd =>
    simp only [Files.perform]
    split
    · exact hg
    · exact hg.setPid fd none
  | writeInfo fd =>
    simp only [Files.perform]
    split
    · exact hg
    · exact hg.setPid fd (some i)
  | close fd => exact hg.close hj fd
  | unlink site => exact absurd rfl (hu site)
  | _ => exact hg

end Guards

theorem exec_cases {s s' : Files} {i : Pid} {env : Env} {op : Op} {r : Op.Res op}
    (hx : exec i op env s=some (r,s')) :
    (op=.spawn ∧ s'={s with alive:=i::s.alive}) ∨ (∃ pid,op=.kill pid ∧ s'=s.ends pid) ∨
      (i∈s.alive ∧ s.perform i env op=(r,s')) := by
  cases op with
  | spawn => cases hx; exact .inl ⟨rfl,rfl⟩
  | kill pid => cases hx; exact .inr (.inl ⟨pid,rfl,rfl⟩)
  | _ =>
    simp only [exec] at hx
    split at hx
    case isTrue hi => exact .inr (.inr ⟨hi,Option.some.inj hx⟩)
    case isFalse => cases hx

/-- The calls after which the same processes run and hold. -/
def quiet : Op → Bool
  | .exit | .enter | .leave => false
  | _ => true

theorem perform_quiet (s : Files) (i : Pid) (env : Env) {op : Op} (h : quiet op=true) :
    (s.perform i env op).2.alive=s.alive ∧ (s.perform i env op).2.holders=s.holders := by
  cases op with
  | exit | enter | leave => exact absurd h Bool.false_ne_true
  | openCreate =>
    simp only [Files.perform,Files.openCreate]
    split
    · exact ⟨rfl,rfl⟩
    · split <;> exact ⟨rfl,rfl⟩
  | openExisting =>
    simp only [Files.perform,Files.openExisting]
    split
    · exact ⟨rfl,rfl⟩
    · split <;> exact ⟨rfl,rfl⟩
  | setLock site fd =>
    simp only [Files.perform,Files.setLock]
    split
    · exact ⟨rfl,rfl⟩
    · split <;> exact ⟨rfl,rfl⟩
  | setLen fd | writeInfo fd =>
    simp only [Files.perform,Files.setPid]
    split
    · exact ⟨rfl,rfl⟩
    · split <;> exact ⟨rfl,rfl⟩
  | close fd =>
    simp only [Files.perform,Files.close]
    split <;> exact ⟨rfl,rfl⟩
  | unlink site =>
    simp only [Files.perform,Files.unlink]
    split <;> exact ⟨rfl,rfl⟩
  | _ => exact ⟨rfl,rfl⟩

theorem mem_ends {s : Files} {i j : Pid} (hj : j≠i) :
    (j∈(s.ends i).alive ↔ j∈s.alive) ∧ (j∈(s.ends i).holders ↔ j∈s.holders) := by
  simp [Files.ends,hj]

theorem perform_other (s : Files) {i j : Pid} (hj : j≠i) (env : Env) (op : Op) :
    (j∈(s.perform i env op).2.alive ↔ j∈s.alive) ∧
      (j∈(s.perform i env op).2.holders ↔ j∈s.holders) := by
  cases hq : quiet op with
  | true =>
    obtain ⟨ha,hh⟩ := perform_quiet s i env hq
    rw [ha,hh]
    exact ⟨Iff.rfl,Iff.rfl⟩
  | false =>
    cases op with
    | exit => exact mem_ends hj
    | enter => simp [Files.perform,hj]
    | leave => simp [Files.perform,hj]
    | _ => cases hq

section Step
variable {p : System} {s' : Files} {i : Pid} {env : Env} {op : Op} {r : Op.Res op} {m : Phase}

theorem unlink_alone (hc : StillBound p (.run i ⟨op,r⟩)) (hm : phases.allowed m op)
    (ho : m.guards=true → Guards p.state i) {j : Pid} (hj : j≠i) (hg : Guards p.state j)
      (site : Site) :
    op≠.unlink site := by
  rintro rfl
  cases site with
  | cleanStale =>
    obtain ⟨a,ha,hl⟩ := hg
    exact hj (hc a ha j hl)
  | release =>
    cases m with
    | leaving => exact hj (hg.unique (ho rfl))
    | outside | trying _ | locked | inside => exact hm
  | acquire => cases m <;> exact hm

theorem guards_other (hx : exec i op env p.state=some (r,s')) (hc : StillBound p (.run i ⟨op,r⟩))
    (hm : phases.allowed m op) (ho : i∈p.state.alive → m.guards=true → Guards p.state i)
    {j : Pid} (hj : j≠i) (ha : j∈s'.alive) (hg : Guards p.state j) : Guards s' j := by
  rcases exec_cases hx with ⟨-,rfl⟩ | ⟨pid,-,rfl⟩ | ⟨hi,hp⟩
  · exact hg
  · have hjp : j≠pid := by
      rintro rfl
      simp [Files.ends] at ha
    exact hg.ends hjp
  · obtain rfl : (p.state.perform i env op).2=s' := congrArg Prod.snd hp
    exact hg.perform hj env op (unlink_alone hc hm (ho hi) hj hg)

theorem setLock_true {s s' : Files} {fd : Fd} (h : s.setLock i fd=(true,s')) {a : Inode}
    (ha : s.descriptors.get fd=some a) (hn : s.name=some a) : Guards s' i := by
  simp only [Files.setLock,ha] at h
  split at h
  · cases h
    exact ⟨a,hn,Map.get_insert_self ..⟩
  · cases h

theorem guards_self (hp : p.state.perform i env op=(r,s')) (hc : StillBound p (.run i ⟨op,r⟩))
    (hm : phases.allowed m op) (ho : m.guards=true → Guards p.state i)
    (hn : (phases.next m ⟨op,r⟩).guards=true) : Guards s' i := by
  cases m with
  | outside =>
    cases op with
    | openCreate => cases r <;> cases hn
    | _ => cases hn
  | trying fd =>
    cases op with
    | setLock site fd' =>
      cases site with
      | acquire =>
        cases r with
        | false => cases hn
        | true =>
          obtain ⟨a,ha,hb⟩ := hc
          exact setLock_true hp ha hb
      | _ => exact hm.elim
    | getLock _ | close _ => cases hn
    | _ => exact hm.elim
  | locked =>
    cases op with
    | setLen fd | writeInfo fd =>
      cases hp
      split
      · exact ho rfl
      · exact (ho rfl).setPid fd _
    | enter => cases hp; exact ho rfl
    | _ => exact hm.elim
  | inside =>
    cases op with
    | openDatabase | leave => cases hp; exact ho rfl
    | _ => exact hm.elim
  | leaving =>
    cases op with
    | unlink site => cases site <;> first | exact hm.elim | cases hn
    | _ => exact hm.elim

theorem holder_self (hp : p.state.perform i env op=(r,s')) (hm : phases.allowed m op)
    (ho : i∈p.state.holders → m=.inside) (hi : i∈s'.holders) : phases.next m ⟨op,r⟩=.inside := by
  obtain rfl : (p.state.perform i env op).2=s' := congrArg Prod.snd hp
  cases hq : quiet op with
  | true =>
    rw [(perform_quiet p.state i env hq).2] at hi
    obtain rfl:=ho hi
    cases op with
    | openDatabase => rfl
    | leave => cases hq
    | _ => exact hm.elim
  | false =>
    cases op with
    | enter => cases m <;> first | exact hm.elim | rfl
    | leave => exact absurd rfl (of_decide_eq_true (List.mem_filter.mp hi).2)
    | exit => exact absurd rfl (of_decide_eq_true (List.mem_filter.mp hi).2)
    | _ => cases hq

end Step

theorem exec_holders {s s' : Files} {i j : Pid} {env : Env} {op : Op} {r : Op.Res op}
    (hx : exec i op env s=some (r,s')) (hj : j≠i) (h : j∈s'.holders) : j∈s.holders := by
  rcases exec_cases hx with ⟨-,rfl⟩ | ⟨pid,-,rfl⟩ | ⟨-,hp⟩
  · exact h
  · exact List.mem_of_mem_filter h
  · obtain rfl : (s.perform i env op).2=s' := congrArg Prod.snd hp
    exact (perform_other s hj env op).2.mp h

theorem exec_alive {s s' : Files} {i j : Pid} {env : Env} {op : Op} {r : Op.Res op}
    (hx : exec i op env s=some (r,s')) (hj : j≠i) (h : j∈s'.alive) : j∈s.alive := by
  rcases exec_cases hx with ⟨-,rfl⟩ | ⟨pid,-,rfl⟩ | ⟨-,hp⟩
  · exact (List.mem_cons.mp h).resolve_left hj
  · exact List.mem_of_mem_filter h
  · obtain rfl : (s.perform i env op).2=s' := congrArg Prod.snd hp
    exact (perform_other s hj env op).1.mp h

theorem holders_lt {C : System → Label Op.Res Job → Prop} {left : Option (Option Pid)} {p : System}
    (hr : system.Reach C (.new left) p) : ∀ j∈p.state.holders,j < p.tasks.length := by
  induction hr with
  | init => rcases left with _ | _ | pid <;> exact fun j hj => absurd hj List.not_mem_nil
  | step _ hs _ ih =>
    have hl:=hs.length_le
    cases hs with
    | start => exact fun j hj => Nat.lt_of_lt_of_le (ih j hj) hl
    | @run i t op k env r s' ht hk hx =>
      intro j hj
      by_cases hji : j=i
      · rw [hji]
        exact Nat.lt_of_lt_of_le (List.getElem?_eq_some_iff.mp ht).1 hl
      · exact Nat.lt_of_lt_of_le (ih j (exec_holders hx hji hj)) hl

/-- Holders run and guard the name. -/
def Held (s : Files) : Prop := ∀ j∈s.holders,j∈s.alive ∧ Guards s j

/-- What is known of a process in a phase. -/
structure Stands (s : Files) (i : Pid) (m : Phase) : Prop where
  guards : i∈s.alive → m.guards=true → Guards s i
  inside : i∈s.holders → m=.inside

theorem Held.other {s s' : Files} {i j : Pid} {env : Env} {op : Op} {r : Op.Res op} (h : Held s)
    (hx : exec i op env s=some (r,s')) (hj : j≠i) (hh : j∈s'.holders) : j∈s'.alive := by
  have ha:=(h j (exec_holders hx hj hh)).1
  rcases exec_cases hx with ⟨-,rfl⟩ | ⟨pid,-,rfl⟩ | ⟨-,hp⟩
  · exact List.mem_cons_of_mem _ ha
  · exact List.mem_filter.mpr ⟨ha,(List.mem_filter.mp hh).2⟩
  · obtain rfl : (s.perform i env op).2=s' := congrArg Prod.snd hp
    exact (perform_other s hj env op).1.mpr ha

theorem Held.self {s s' : Files} {i : Pid} {env : Env} {op : Op} {r : Op.Res op} (h : Held s)
    (hx : exec i op env s=some (r,s')) (hh : i∈s'.holders) : i∈s'.alive := by
  rcases exec_cases hx with ⟨-,rfl⟩ | ⟨pid,-,rfl⟩ | ⟨hi,hp⟩
  · exact List.mem_cons_self
  · obtain ⟨hm,hne⟩ := List.mem_filter.mp hh
    exact List.mem_filter.mpr ⟨(h i hm).1,hne⟩
  · obtain rfl : (s.perform i env op).2=s' := congrArg Prod.snd hp
    cases hq : quiet op with
    | true => rw [(perform_quiet s i env hq).1]; exact hi
    | false =>
      cases op with
      | enter | leave => exact hi
      | exit => exact absurd rfl (of_decide_eq_true (List.mem_filter.mp hh).2)
      | _ => cases hq

theorem outside_of_spawn {m : Phase} (h : phases.allowed m .spawn) : m=.outside := by
  cases m <;> first | rfl | exact h.elim

theorem outside_of_kill {m : Phase} {pid : Pid} (h : phases.allowed m (.kill pid)) :
    m=.outside := by
  cases m <;> first | rfl | exact h.elim

theorem Stands.self {p : System} {s' : Files} {i : Pid} {env : Env} {op : Op} {r : Op.Res op}
    {m : Phase}
    (h : Stands p.state i m) (hx : exec i op env p.state=some (r,s'))
    (hc : StillBound p (.run i ⟨op,r⟩)) (hm : phases.allowed m op) :
    Stands s' i (phases.next m ⟨op,r⟩) := by
  rcases exec_cases hx with ⟨rfl,rfl⟩ | ⟨pid,rfl,rfl⟩ | ⟨hi,hp⟩
  · obtain rfl:=outside_of_spawn hm
    exact ⟨fun _ hn => absurd hn Bool.false_ne_true,h.inside⟩
  · obtain rfl:=outside_of_kill hm
    exact ⟨fun _ hn => absurd hn Bool.false_ne_true,fun hh => h.inside (List.mem_of_mem_filter hh)⟩
  · exact ⟨fun _ => guards_self hp hc hm (h.guards hi),holder_self hp hm h.inside⟩

theorem held_reach {left : Option (Option Pid)} {p : System}
    (hr : system.Reach StillBound (.new left) p) :
    Holds phases (fun _ => .outside) Held (fun s i _ m => Stands s i m) p := by
  refine reach_holds system phases (fun _ => .outside) StillBound (fun _ => Phases.Out) Phases.body
    (fun _ _ _ _ _ _ => trivial) ?_ ?_ ?_ ?_ ?_ hr
  · rcases left with _ | _ | pid <;> exact fun j hj => absurd hj List.not_mem_nil
  · intro p c hr _ _ _
    refine ⟨fun _ h => absurd h Bool.false_ne_true,fun h => ?_⟩
    exact absurd (holders_lt hr _ h) (Nat.lt_irrefl _)
  · intro p i t op env r s' _ hi hf
    have hme:=hi.2 i t hf.task
    have hnext:=hme.self hf.exec hf.cond hf.allowed
    refine ⟨fun j hj => ?_,hnext⟩
    by_cases hji : j=i
    · subst hji
      have ha:=hi.1.self hf.exec hj
      exact ⟨ha,hnext.guards ha (by rw [hnext.inside hj]; rfl)⟩
    · have ha:=hi.1.other hf.exec hji hj
      have hg:=(hi.1 j (exec_holders hf.exec hji hj)).2
      exact ⟨ha,guards_other hf.exec hf.cond hf.allowed hme.guards hji ha hg⟩
  · intro p i t op env r s' j u _ hi hf hj hu
    have hyou:=hi.2 j u hu
    have hme:=hi.2 i t hf.task
    refine ⟨fun ha hm => ?_,fun hh => hyou.inside (exec_holders hf.exec hj hh)⟩
    have hg:=hyou.guards (exec_alive hf.exec hj ha) hm
    exact guards_other hf.exec hf.cond hf.allowed hme.guards hj ha hg
  · intro p i t op env r s' c j _ hi hf hc
    exact absurd hc List.not_mem_nil

/-- At most one process is between a successful acquire and its release. -/
def Exclusive (s : Files) : Prop := ∀ i∈s.holders,∀ j∈s.holders,i=j

/-- For any number of processes and crashes, whatever file was left behind. -/
theorem mutual_exclusion (left : Option (Option Pid)) {p : System}
    (hr : system.Reach StillBound (.new left) p) : Exclusive p.state := by
  intro i hi j hj
  have hheld:=(held_reach hr).1
  exact (hheld i hi).2.unique (hheld j hj).2

def steps (i : Nat) (envs : List Env) : List (Act Job Env) := envs.map (.run i)
def idles (n : Nat) : List Env := List.replicate n {}

/-- A process that starts, and makes `n` calls in one session. -/
def begins (i n : Nat) : List (Act Job Env) :=
  .start .process::steps i (idles 1++{rounds := 1}::idles n)

def stillBound (p : System) : Label Op.Res Job → Bool
  | .run _ ⟨.setLock .acquire fd,true⟩ =>
    p.state.name.isSome && p.state.descriptors.get fd=p.state.name
  | .run i ⟨.unlink .cleanStale,_⟩ => (p.state.name.bind p.state.locks.get).all (· = i)
  | _ => true

theorem stillBound_sound (p : System) (l : Label Op.Res Job) (h : stillBound p l=true) :
    StillBound p l := by
  unfold stillBound at h
  split at h
  · obtain ⟨hs,hd⟩ := Bool.and_eq_true_iff.mp h
    obtain ⟨a,ha⟩ := Option.isSome_iff_exists.mp hs
    exact ⟨a,(of_decide_eq_true hd).trans ha,ha⟩
  · intro a ha j hj
    rw [ha,Option.bind_some,hj] at h
    exact of_decide_eq_true h
  case h_3 h1 h2 =>
    unfold StillBound
    split
    · exact absurd rfl (h1 _ _)
    · exact absurd rfl (h2 _ _)
    · trivial

/-- A process that removes the file of a dead one and takes the lock. -/
theorem mutual_exclusion_stale :
    ∃ p,system.Reach StillBound (.new (some (some 7))) p ∧ p.state.holders=[0] ∧
      Exclusive p.state := by
  obtain ⟨p,hp,ht⟩:=system.play_any StillBound stillBound stillBound_sound (.new (some (some 7)))
    (begins 0 11) (fun p => p.state.holders=[0]) (by decide)
  exact ⟨p,hp,of_decide_eq_true ht,mutual_exclusion _ hp⟩

/-- A process opens the file and waits; the holder unlinks and releases it; the
process locks what it opened, and a third one locks the file it creates. -/
theorem two_holders :
    ∃ p,system.Reach (fun _ _ => True) (.new none) p ∧ p.state.holders=[2,1] ∧
      ¬Exclusive p.state := by
  obtain ⟨p,hp,ht⟩:=system.play_free (.new none)
    (begins 0 6++steps 0 [{holds := true}]++begins 1 6++steps 0 (idles 3)++steps 1 (idles 4)++
      begins 2 6)
    (fun p => p.state.holders=[2,1]) (by decide)
  have hh : p.state.holders=[2,1] := of_decide_eq_true ht
  refine ⟨p,hp,hh,fun h => ?_⟩
  have he:=h 2 (by rw [hh]; decide) 1 (by rw [hh]; decide)
  exact absurd he (by decide)

end McpLock
