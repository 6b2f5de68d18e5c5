import IdaMcp.Lib.Program

/-!
# Interleaved tasks over one shared state

A machine gives each operation its effect on the shared state for every input
of the environment, and each kind of call its program. A pool is the shared
state with all tasks ever started; a step performs the next operation of any
one task, or starts a call from outside. Tasks keep a log of their own
operations (newest first), a history variable that no operation reads.

`Reach K C s` are the pools reachable from `s` by steps that all meet `C`.
-/

namespace Lib
variable {α : Type} {i j : Nat}

structure Machine {Op : Type} (Res : Op → Type) (Call State Env : Type) where
  exec : Nat → (op : Op) → Env → State → Option (Res op × State)
  body : Call → Prog Res Unit
  entry : Call → Bool
  forks : (op : Op) → Res op → List Call

structure Task {Op : Type} (Res : Op → Type) (Call : Type) where
  call : Call
  prog : Prog Res Unit
  log : List (Event Res)

structure Pool {Op : Type} (Res : Op → Type) (Call State : Type) where
  state : State
  tasks : List (Task Res Call)

inductive Label {Op : Type} (Res : Op → Type) (Call : Type) where
  | start : Call → Label Res Call
  | run : Nat → Event Res → Label Res Call

variable {Op : Type} {Res : Op → Type} {Call State Env M : Type}
variable {s s₀ : State} {p q : Pool Res Call State} {t u : Task Res Call} {op : Op}
  {l : Label Res Call} {envs : List Env}

namespace Machine
variable (K : Machine Res Call State Env)

def newTask (c : Call) : Task Res Call := ⟨c,K.body c,[]⟩

/-- The pool after task `i`, which stands at `op` and goes on with `k`, got `r`. -/
def resumed (p : Pool Res Call State) (i : Nat) (t : Task Res Call) (op : Op)
    (k : Res op → Prog Res Unit) (r : Res op) (s : State) : Pool Res Call State :=
  ⟨s,p.tasks.set i ⟨t.call,k r,⟨op,r⟩::t.log⟩++(K.forks op r).map K.newTask⟩

inductive Step : Pool Res Call State → Label Res Call → Pool Res Call State → Prop
  | start {p : Pool Res Call State} {c : Call} : K.entry c=true →
      Step p (.start c) ⟨p.state,p.tasks++[K.newTask c]⟩
  | run {p : Pool Res Call State} {i : Nat} {t : Task Res Call} {op : Op}
      {k : Res op → Prog Res Unit} {env : Env} {r : Res op} {s : State} :
      p.tasks[i]?=some t → t.prog=.call op k → K.exec i op env p.state=some (r,s) →
      Step p (.run i ⟨op,r⟩) (K.resumed p i t op k r s)

inductive Reach (C : Pool Res Call State → Label Res Call → Prop) (s : State) :
    Pool Res Call State → Prop
  | init : Reach C s ⟨s,[]⟩
  | step {p q : Pool Res Call State} {l : Label Res Call} :
      Reach C s p → K.Step p l q → C p l → Reach C s q

/-- A run with the operations performed, in their order, each with the input it met. -/
inductive Runs (C : Pool Res Call State → Label Res Call → Prop) (s : State) :
    List (Op × Env) → Pool Res Call State → Prop
  | init : Runs C s [] ⟨s,[]⟩
  | start {xs : List (Op × Env)} {p : Pool Res Call State} {c : Call} : Runs C s xs p →
      K.entry c=true → C p (.start c) → Runs C s xs ⟨p.state,p.tasks++[K.newTask c]⟩
  | run {xs : List (Op × Env)} {p : Pool Res Call State} {i : Nat} {t : Task Res Call} {op : Op}
      {k : Res op → Prog Res Unit} {env : Env} {r : Res op} {s' : State} : Runs C s xs p →
      p.tasks[i]?=some t → t.prog=.call op k → K.exec i op env p.state=some (r,s') →
      C p (.run i ⟨op,r⟩) → Runs C s (xs++[(op,env)]) (K.resumed p i t op k r s')

theorem Runs.reach {C : Pool Res Call State → Label Res Call → Prop} {xs : List (Op × Env)}
    (h : K.Runs C s xs p) : K.Reach C s p := by
  induction h with
  | init => exact .init
  | start _ he hc ih => exact .step ih (.start he) hc
  | run _ ht hk hx hc ih => exact .step ih (.run ht hk hx) hc

theorem Reach.runs {C : Pool Res Call State → Label Res Call → Prop}
    (h : K.Reach C s p) : ∃ xs, K.Runs C s xs p := by
  induction h with
  | init => exact ⟨[],.init⟩
  | step _ hs hc ih =>
    obtain ⟨xs,hx⟩:=ih
    cases hs with
    | start he => exact ⟨xs,hx.start he hc⟩
    | run ht hk he => exact ⟨_,hx.run ht hk he hc⟩

end Machine

/-- The monitor's state after everything the task has done. -/
def Monitor.track (A : Monitor Res M) (init : Call → M) (t : Task Res Call) : M :=
  t.log.foldr (fun e m => A.next m e) (init t.call)

theorem set_append_getElem? {xs ys : List α} {x y : α} (h : (xs.set i x++ys)[j]?=some y) :
    (j=i ∧ j < xs.length ∧ y=x) ∨ (j≠i ∧ xs[j]?=some y) ∨ (xs.length ≤ j ∧ y∈ys) := by
  by_cases hl : j < xs.length
  · rw [List.getElem?_append_left (by simpa using hl),List.getElem?_set] at h
    by_cases hj : i=j
    · subst hj
      simp only [ite_true,hl] at h
      exact .inl ⟨rfl,hl,(Option.some.inj h).symm⟩
    · rw [if_neg hj] at h
      exact .inr (.inl ⟨Ne.symm hj,h⟩)
  · rw [List.getElem?_append_right (by simpa using Nat.le_of_not_lt hl)] at h
    exact .inr (.inr ⟨Nat.le_of_not_lt hl,List.mem_of_getElem? h⟩)

theorem append_getElem? {xs : List α} {x y : α}
    (h : (xs++[x])[j]?=some y) : xs[j]?=some y ∨ (j=xs.length ∧ y=x) := by
  rcases Nat.lt_or_ge j xs.length with hl | hl
  · rw [List.getElem?_append_left hl] at h
    exact .inl h
  · rw [List.getElem?_append_right hl] at h
    obtain ⟨hlt,he⟩:=List.getElem?_eq_some_iff.mp h
    simp only [List.length_singleton] at hlt
    exact .inr ⟨by omega,by simpa using he.symm⟩

theorem Machine.resumed_self (K : Machine Res Call State Env) (ht : p.tasks[i]?=some t) (op : Op)
    (k : Res op → Prog Res Unit) (r : Res op) (s : State) :
    (K.resumed p i t op k r s).tasks[i]?=some ⟨t.call,k r,⟨op,r⟩::t.log⟩ := by
  have hi:=(List.getElem?_eq_some_iff.mp ht).1
  simp only [Machine.resumed]
  rw [List.getElem?_append_left (by simpa using hi),List.getElem?_set_self hi]

theorem Machine.mem_resumed (K : Machine Res Call State Env) {k : Res op → Prog Res Unit}
    {r : Res op} (hu : u∈(K.resumed p i t op k r s).tasks) :
    u=⟨t.call,k r,⟨op,r⟩::t.log⟩ ∨ u∈p.tasks ∨ ∃ c∈K.forks op r, u=K.newTask c := by
  obtain ⟨j,hj⟩:=List.mem_iff_getElem?.mp hu
  rcases set_append_getElem? hj with ⟨-,-,h⟩ | ⟨-,h⟩ | ⟨-,h⟩
  · exact .inl h
  · exact .inr (.inl (List.mem_of_getElem? h))
  · obtain ⟨c,hc,rfl⟩:=List.mem_map.mp h
    exact .inr (.inr ⟨c,hc,rfl⟩)

theorem Machine.resumed_other (K : Machine Res Call State Env) (ht : p.tasks[i]?=some t)
    (k : Res op → Prog Res Unit) (r : Res op) (s : State) (hu : u∈p.tasks) :
    u=t ∨ u∈(K.resumed p i t op k r s).tasks := by
  obtain ⟨j,hj⟩:=List.mem_iff_getElem?.mp hu
  by_cases hji : j=i
  · subst hji
    rw [ht] at hj
    exact .inl (Option.some.inj hj).symm
  · refine .inr (List.mem_append_left _ (List.mem_iff_getElem?.mpr ⟨j,?_⟩))
    rw [List.getElem?_set_ne (Ne.symm hji)]
    exact hj

theorem Machine.Step.call_stays {K : Machine Res Call State Env} (hs : K.Step p l q) {c : Call}
    (h : ∃ t∈p.tasks, t.call=c) : ∃ t∈q.tasks, t.call=c := by
  obtain ⟨u,hu,rfl⟩:=h
  cases hs with
  | start => exact ⟨u,List.mem_append_left _ hu,rfl⟩
  | @run i t op k env r s ht hk hx =>
    rcases K.resumed_other ht k r s hu with rfl | hu
    · exact ⟨_,List.mem_of_getElem? (K.resumed_self ht op k r s),rfl⟩
    · exact ⟨u,hu,rfl⟩

theorem Machine.Step.call_back {K : Machine Res Call State Env} (hs : K.Step p l q)
    (hu : q.tasks[j]?=some u)
    (hj : j < p.tasks.length) : ∃ t, p.tasks[j]?=some t ∧ t.call=u.call := by
  cases hs with
  | start =>
    rcases append_getElem? hu with h | ⟨h,-⟩
    · exact ⟨u,h,rfl⟩
    · omega
  | @run i t op k env r s ht hk hx =>
    rcases set_append_getElem? hu with ⟨rfl,-,rfl⟩ | ⟨-,h⟩ | ⟨h,-⟩
    · exact ⟨t,ht,rfl⟩
    · exact ⟨u,h,rfl⟩
    · omega

theorem Machine.Step.length_le {K : Machine Res Call State Env}
    (hs : K.Step p l q) : p.tasks.length ≤ q.tasks.length := by
  cases hs with
  | start => simp
  | run => simp [Machine.resumed]

theorem Machine.Step.fork_starts {K : Machine Res Call State Env} {e : Event Res}
    (hs : K.Step p (.run i e) q) {c : Call} (hc : c∈K.forks e.op e.res) :
    ∃ t∈q.tasks, t.call=c := by
  cases hs with
  | run => exact ⟨K.newTask c,List.mem_append_right _ (List.mem_map.mpr ⟨c,hc,rfl⟩),rfl⟩

section Rules
variable (K : Machine Res Call State Env) (A : Monitor Res M) (init : Call → M)
variable (C : Pool Res Call State → Label Res Call → Prop) (Q : Call → M → Prop)

/-- Task `t`, the `i`-th of `p`, performs `op` with reply `r`, in a run of `C`,
at a place its monitor admits. -/
structure Fired (p : Pool Res Call State) (i : Nat) (t : Task Res Call) (op : Op) (env : Env)
    (r : Res op) (s : State) : Prop where
  task : p.tasks[i]?=some t
  exec : K.exec i op env p.state=some (r,s)
  cond : C p (.run i ⟨op,r⟩)
  allowed : A.allowed (A.track init t) op
  good : A.good (A.track init t) ⟨op,r⟩
  unfinished : t.prog.finished=false

/-- Along a run every task stays where its monitor admits the rest of its program. -/
theorem conforms (hbody : ∀ c, A.wp (K.body c) (fun _ m => Q c m) (init c))
    (hgood : ∀ p i e t, C p (.run i e) → p.tasks[i]?=some t → A.good (A.track init t) e)
    (hr : K.Reach C s₀ p) :
    ∀ (i : Nat) t, p.tasks[i]?=some t → A.wp t.prog (fun _ m => Q t.call m) (A.track init t) := by
  induction hr with
  | init => intro i t ht; simp at ht
  | @step p q l _ hs hc ih =>
    cases hs with
    | start he =>
      intro i t ht
      rcases append_getElem? ht with ht | ⟨-,rfl⟩
      · exact ih i t ht
      · exact hbody _
    | @run i t op k env r s' ht hp hx =>
      have hw:=ih i t ht
      rw [hp,Monitor.wp_call] at hw
      intro j u hu
      rcases set_append_getElem? hu with ⟨-,-,rfl⟩ | ⟨-,hu⟩ | ⟨-,hu⟩
      · exact hw.2 r (hgood p i _ t hc ht)
      · exact ih j u hu
      · obtain ⟨c,-,rfl⟩:=List.mem_map.mp hu
        exact hbody c

theorem reach_ends {H : M → Prop} {c : Call} {R : Unit → M → Prop}
    (hbody : A.ends H (K.body c) R (init c)) (hr : K.Reach C s₀ p) :
    ∀ t∈p.tasks, t.call=c → A.ends H t.prog R (A.track init t) := by
  induction hr with
  | init => exact fun t ht => (by cases ht)
  | @step p q l _ hs hc ih =>
    intro u hu hu'
    cases hs with
    | start he =>
      rcases List.mem_append.mp hu with hu | hu
      · exact ih u hu hu'
      · obtain rfl:=List.mem_singleton.mp hu
        subst hu'
        exact hbody
    | @run i t op k env r s' ht hk hx =>
      rcases K.mem_resumed hu with rfl | hu | ⟨c,-,rfl⟩
      · have h:=ih t (List.mem_of_getElem? ht) hu'
        rw [hk] at h
        exact h r
      · exact ih u hu hu'
      · subst hu'
        exact hbody

theorem reach_pool {Ψ : Pool Res Call State → Prop}
    (hbody : ∀ c, A.wp (K.body c) (fun _ m => Q c m) (init c))
    (hgood : ∀ p i e t, C p (.run i e) → p.tasks[i]?=some t → A.good (A.track init t) e)
    (h0 : Ψ ⟨s₀,[]⟩) (hstart : ∀ p c, K.Reach C s₀ p → Ψ p → K.entry c=true → C p (.start c) →
      Ψ ⟨p.state,p.tasks++[K.newTask c]⟩)
    (hrun : ∀ p i t op k env r s, K.Reach C s₀ p → Ψ p → Fired K A init C p i t op env r s →
      Ψ (K.resumed p i t op k r s))
    {p : Pool Res Call State} (hr : K.Reach C s₀ p) : Ψ p := by
  induction hr with
  | init => exact h0
  | @step p q l hp hs hc ih =>
    cases hs with
    | @start c he => exact hstart p c hp ih he hc
    | @run i t op k env r s' ht hk hx =>
      have hw:=conforms K A init C Q hbody hgood hp i t ht
      rw [hk,Monitor.wp_call] at hw
      exact hrun p i t op k env r s' hp ih ⟨ht,hx,hc,hw.1,hgood p i _ t hc ht,by rw [hk]; rfl⟩

/-- A property of the shared state, and one of each task with the shared state. -/
def Holds (G : State → Prop) (Φ : State → Nat → Call → M → Prop) (p : Pool Res Call State) : Prop :=
  G p.state ∧ ∀ (i : Nat) t, p.tasks[i]?=some t → Φ p.state i t.call (A.track init t)

/-- The invariant rule: one step of a task keeps the shared property and its own
property, every other task's property, and gives a new task its property. What
is known of every reachable pool may be used at each step. -/
theorem reach_holds {G : State → Prop} {Φ : State → Nat → Call → M → Prop}
    (hbody : ∀ c, A.wp (K.body c) (fun _ m => Q c m) (init c))
    (hgood : ∀ p i e t, C p (.run i e) → p.tasks[i]?=some t → A.good (A.track init t) e) (h0 : G s₀)
    (hstart : ∀ p c, K.Reach C s₀ p → Holds A init G Φ p → K.entry c=true → C p (.start c) →
      Φ p.state p.tasks.length c (init c))
    (hself : ∀ p i t op env r s, K.Reach C s₀ p → Holds A init G Φ p →
      Fired K A init C p i t op env r s → G s ∧ Φ s i t.call (A.next (A.track init t) ⟨op,r⟩))
    (hother : ∀ p i t op env r s j u, K.Reach C s₀ p → Holds A init G Φ p →
      Fired K A init C p i t op env r s → j≠i → p.tasks[j]?=some u →
      Φ s j u.call (A.track init u))
    (hfork : ∀ p i t op env r s c j, K.Reach C s₀ p → Holds A init G Φ p →
      Fired K A init C p i t op env r s → c∈K.forks op r → p.tasks.length ≤ j → Φ s j c (init c))
    {p : Pool Res Call State} (hr : K.Reach C s₀ p) : Holds A init G Φ p := by
  refine reach_pool K A init C Q (Ψ := Holds A init G Φ) hbody hgood
    ⟨h0,fun i t ht => by simp at ht⟩ (fun p c hp ih he hc => ?_)
      (fun p i t op k env r s' hp ih hf => ?_) hr
  · refine ⟨ih.1,fun i t ht => ?_⟩
    rcases append_getElem? ht with ht | ⟨rfl,rfl⟩
    · exact ih.2 i t ht
    · exact hstart p c hp ih he hc
  · have hme:=hself p i t op env r s' hp ih hf
    refine ⟨hme.1,fun j u hu => ?_⟩
    rcases set_append_getElem? hu with ⟨rfl,-,rfl⟩ | ⟨hj,hu⟩ | ⟨hj,hu⟩
    · exact hme.2
    · exact hother p i t op env r s' j u hp ih hf hj hu
    · obtain ⟨c,hm,rfl⟩:=List.mem_map.mp hu
      exact hfork p i t op env r s' c j hp ih hf hm hj

/-- The rule for a property of the shared state alone that every operation keeps. -/
theorem reach_state {G : State → Prop} (h0 : G s₀)
    (hstep : ∀ p i op env r s, G p.state → K.exec i op env p.state=some (r,s) →
      C p (.run i ⟨op,r⟩) → G s) (hr : K.Reach C s₀ p) : G p.state := by
  induction hr with
  | init => exact h0
  | @step p q l _ hs hc ih =>
    cases hs with
    | start he => exact ih
    | @run i t op k env r s' ht hk hx => exact hstep p i op env r s' ih hx hc

end Rules

inductive Act (Call Env : Type) where
  | start : Call → Act Call Env
  | run : Nat → Env → Act Call Env

namespace Machine
variable (K : Machine Res Call State Env)

def fire : Act Call Env → Pool Res Call State → Option (Label Res Call × Pool Res Call State)
  | .start c,p => if K.entry c then some (.start c,⟨p.state,p.tasks++[K.newTask c]⟩) else none
  | .run i env,p => match p.tasks[i]? with
    | none => none
    | some t => match t.prog with
      | .call op k => match K.exec i op env p.state with
        | some (r,s) => some (.run i ⟨op,r⟩,K.resumed p i t op k r s)
        | none => none
      | _ => none

theorem fire_step {a : Act Call Env} (h : K.fire a p=some (l,q)) : K.Step p l q := by
  cases a with
  | start c =>
    simp only [fire] at h
    split at h
    · next he => cases h; exact .start he
    · cases h
  | run i env =>
    simp only [fire] at h
    split at h
    · cases h
    next t ht =>
      split at h
      next op k hk =>
        split at h
        · next r s hx => cases h; exact .run ht hk hx
        · cases h
      · cases h

theorem fire_label {env : Env} (h : K.fire (.run i env) p=some (l,q)) : ∃ e, l=.run i e := by
  simp only [fire] at h
  split at h
  · cases h
  split at h
  · split at h <;> cases h
    exact ⟨_,rfl⟩
  · cases h

theorem fire_run {env : Env}
    (h : K.fire (.run i env) p=some (l,q)) : ∃ e, K.Step p (.run i e) q := by
  have hs:=K.fire_step h
  obtain ⟨e,rfl⟩:=K.fire_label h
  exact ⟨e,hs⟩

/-- Plays a schedule as long as every step passes `ok`. -/
def play (ok : Pool Res Call State → Label Res Call → Bool) :
    List (Act Call Env) → Pool Res Call State → Option (Pool Res Call State)
  | [],p => some p
  | a::as,p => match K.fire a p with
    | some (l,q) => if ok p l then play ok as q else none
    | none => none

theorem play_reach {ok : Pool Res Call State → Label Res Call → Bool}
    {C : Pool Res Call State → Label Res Call → Prop} (hok : ∀ p l, ok p l=true → C p l)
    (as : List (Act Call Env)) (hp : K.Reach C s₀ p) (h : K.play ok as p=some q) :
    K.Reach C s₀ q := by
  induction as generalizing p with
  | nil => cases h; exact hp
  | cons a as ih =>
    simp only [play] at h
    split at h
    next l m hf =>
      split at h
      · next hl => exact ih (.step hp (K.fire_step hf) (hok _ _ hl)) h
      · cases h
    · cases h

/-- A schedule that ends in a pool with `test` shows that such a pool is reachable. -/
theorem play_any (C : Pool Res Call State → Label Res Call → Prop)
    (ok : Pool Res Call State → Label Res Call → Bool) (hok : ∀ p l, ok p l=true → C p l)
    (s₀ : State) (as : List (Act Call Env)) (test : Pool Res Call State → Bool)
    (h : (K.play ok as ⟨s₀,[]⟩).any test=true) :
    ∃ q, K.Reach C s₀ q ∧ test q=true := by
  cases hq : K.play ok as ⟨s₀,[]⟩ with
  | none => rw [hq] at h; cases h
  | some q =>
    rw [hq] at h
    exact ⟨q,K.play_reach hok as .init hq,h⟩

theorem play_when (C : Pool Res Call State → Label Res Call → Prop) [∀ p l, Decidable (C p l)]
    (s₀ : State) (as : List (Act Call Env)) (test : Pool Res Call State → Bool)
    (h : (K.play (fun p l => decide (C p l)) as ⟨s₀,[]⟩).any test=true) :
    ∃ q, K.Reach C s₀ q ∧ test q=true :=
  K.play_any C _ (fun _ _ => of_decide_eq_true) s₀ as test h

theorem play_free (s₀ : State) (as : List (Act Call Env)) (test : Pool Res Call State → Bool)
    (h : (K.play (fun _ _ => true) as ⟨s₀,[]⟩).any test=true) :
    ∃ q, K.Reach (fun _ _ => True) s₀ q ∧ test q=true :=
  K.play_any _ _ (fun _ _ _ => trivial) s₀ as test h

theorem play_step (C : Pool Res Call State → Label Res Call → Prop)
    (ok : Pool Res Call State → Label Res Call → Bool) (hok : ∀ p l, ok p l=true → C p l)
    (s₀ : State) (as : List (Act Call Env)) (a : Act Call Env)
    (test : Pool Res Call State → Label Res Call → Bool)
    (h : (K.play ok as ⟨s₀,[]⟩).any (fun p => (K.fire a p).any fun x => test p x.1)=true) :
    ∃ p l q, K.Reach C s₀ p ∧ K.Step p l q ∧ test p l=true := by
  obtain ⟨p,hp,ht⟩:=K.play_any C ok hok s₀ as _ h
  cases hf : K.fire a p with
  | none => rw [hf] at ht; cases ht
  | some x =>
    rw [hf] at ht
    exact ⟨p,x.1,x.2,hp,K.fire_step hf,ht⟩

/-- The program run by task `i` with nobody else taking a step. -/
def solo {α : Type} (i : Nat) : Prog Res α → List Env → State → Option (α × State)
  | .ret a,[],s => some (a,s)
  | .call op k,env::envs,s => match K.exec i op env s with
    | some (r,s') => solo i (k r) envs s'
    | none => none
  | _,_,_ => none

theorem solo_perform {t : State} {r : Res op} (h : K.solo i (Prog.perform op) envs s=some (r,t)) :
    ∃ env, envs=[env] ∧ K.exec i op env s=some (r,t) := by
  cases envs with
  | nil => cases h
  | cons env rest =>
    simp only [Prog.perform,solo] at h
    split at h
    next r' s' hx =>
      cases rest with
      | nil => cases h; exact ⟨env,rfl,hx⟩
      | cons => cases h
    · cases h

theorem solo_bind {β : Type} {p : Prog Res α} {f : α → Prog Res β} {t : State} {b : β}
    (h : K.solo i (p >>= f) envs s=some (b,t)) :
    ∃ es fs a s', envs=es++fs ∧ K.solo i p es s=some (a,s') ∧ K.solo i (f a) fs s'=some (b,t) := by
  change K.solo i (p.bind f) envs s=some (b,t) at h
  induction p generalizing envs s with
  | ret a => exact ⟨[],envs,a,s,rfl,rfl,h⟩
  | halt => cases envs <;> cases h
  | call op k ih =>
    cases envs with
    | nil => cases h
    | cons env envs =>
      simp only [Prog.bind,solo] at h
      split at h
      next r s₁ hx =>
        obtain ⟨es,fs,a,s',rfl,hp,hf⟩:=ih r h
        exact ⟨env::es,fs,a,s',rfl,by simp only [solo,hx]; exact hp,hf⟩
      · cases h

theorem solo_reach {C : Pool Res Call State → Label Res Call → Prop} (hC : ∀ p l, C p l) {t : State}
    (hp : K.Reach C s₀ p) (hu : p.tasks[i]?=some u) {prog : Prog Res α} {k : α → Prog Res Unit}
    (hprog : u.prog=prog >>= k) {a : α} (h : K.solo i prog envs p.state=some (a,t)) :
    ∃ q v, K.Reach C s₀ q ∧ q.state=t ∧ q.tasks[i]?=some v ∧ v.prog=k a := by
  change u.prog=prog.bind k at hprog
  induction prog generalizing p u envs with
  | ret b =>
    cases envs with
    | nil => cases h; exact ⟨p,u,hp,rfl,hu,hprog⟩
    | cons => cases h
  | halt => cases envs <;> cases h
  | call op next ih =>
    cases envs with
    | nil => cases h
    | cons env envs =>
      simp only [solo] at h
      split at h
      next r s' hx =>
        have hstep:=Step.run (K := K) hu hprog hx
        exact ih r (.step hp hstep (hC _ _)) (K.resumed_self hu op _ r s') h rfl
      · cases h

end Machine

end Lib
