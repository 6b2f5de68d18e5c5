import IdaMcp.Lib.Pool

/-!
# One call within a run

`Executes` is the part of a run in which one task performs a program from its
first operation to its result, while all others take any steps. It keeps the
task's own operations, each with the shared state before and after it. What the
program does on its own account is known from `wp`; what the others do to it
is an invariant that their steps keep.
-/

namespace Lib

variable {Op : Type} {Res : Op → Type} {Call State Env M α β : Type}

structure Moment {Op : Type} (Res : Op → Type) (State Env : Type) where
  before : State
  env : Env
  event : Event Res
  after : State

namespace Machine
variable (K : Machine Res Call State Env) (C : Pool Res Call State → Label Res Call → Prop)
  (i : Nat) (k : α → Prog Res Unit)

/-- Task `i` performs the program and goes on with `k`. -/
inductive Executes : Prog Res α → Pool Res Call State → List (Moment Res State Env) → α →
    Pool Res Call State → Prop
  | ret {a : α} {p : Pool Res Call State} : Executes (.ret a) p [] a p
  | other {prog : Prog Res α} {p p' q : Pool Res Call State} {l : Label Res Call}
      {ms : List (Moment Res State Env)} {a : α} : K.Step p l p' → C p l → (∀ e, l≠.run i e) →
      Executes prog p' ms a q → Executes prog p ms a q
  | own {op : Op} {f : Res op → Prog Res α} {p q : Pool Res Call State} {t : Task Res Call}
      {env : Env} {r : Res op} {s : State} {ms : List (Moment Res State Env)} {a : α} :
      p.tasks[i]?=some t → t.prog=.call op (fun r => (f r).bind k) →
      K.exec i op env p.state=some (r,s) → C p (.run i ⟨op,r⟩) →
      Executes (f r) (K.resumed p i t op (fun r => (f r).bind k) r s) ms a q →
      Executes (.call op f) p (⟨p.state,env,⟨op,r⟩,s⟩::ms) a q

namespace Executes
variable {K : Machine Res Call State Env} {C : Pool Res Call State → Label Res Call → Prop}
  {i : Nat} {k : α → Prog Res Unit} {prog : Prog Res α} {p q : Pool Res Call State}
  {ms : List (Moment Res State Env)} {a : α}

theorem exec (h : K.Executes C i k prog p ms a q) :
    ∀ x∈ms, K.exec i x.event.op x.env x.before=some (x.event.res,x.after) := by
  induction h with
  | ret => intro x hx; cases hx
  | other _ _ _ _ ih => exact ih
  | own _ _ he _ _ ih =>
    intro x hx
    rcases List.mem_cons.mp hx with rfl | hx
    · exact he
    · exact ih x hx

theorem rule {s₀ : State} (A : Monitor Res M) {Φ : Pool Res Call State → M → Prop}
    {P : Moment Res State Env → Prop} {Q : α → M → Prop} {m : M}
    (h : K.Executes C i k prog p ms a q) (hr : K.Reach C s₀ p) (hw : A.wp prog Q m) (h0 : Φ p m)
    (hgood : ∀ p m e, Φ p m → C p (.run i e) → A.good m e)
    (hother : ∀ p l p' m, K.Reach C s₀ p → Φ p m → K.Step p l p' → C p l → (∀ e, l≠.run i e) →
      Φ p' m)
    (hown : ∀ p t op (f : Res op → Prog Res Unit) env r s m, K.Reach C s₀ p → Φ p m →
      p.tasks[i]?=some t → K.exec i op env p.state=some (r,s) → C p (.run i ⟨op,r⟩) →
      A.allowed m op → P ⟨p.state,env,⟨op,r⟩,s⟩ ∧ Φ (K.resumed p i t op f r s) (A.next m ⟨op,r⟩)) :
    (∀ x∈ms, P x) ∧ Q a (ms.foldl (fun m x => A.next m x.event) m) := by
  induction h generalizing m with
  | ret => exact ⟨fun _ hx => (List.not_mem_nil hx).elim,hw⟩
  | other hs hc hl _ ih => exact ih (.step hr hs hc) hw (hother _ _ _ _ hr h0 hs hc hl)
  | own ht hk he hc _ ih =>
    obtain ⟨hp,hΦ⟩:=hown _ _ _ _ _ _ _ _ hr h0 ht he hc hw.1
    obtain ⟨hall,hq⟩:=ih (.step hr (.run ht hk he) hc) (hw.2 _ (hgood _ _ _ h0 hc)) hΦ
    refine ⟨fun x hx => ?_,hq⟩
    rcases List.mem_cons.mp hx with rfl | hx
    · exact hp
    · exact hall x hx

theorem reach {s₀ : State} (h : K.Executes C i k prog p ms a q) (hr : K.Reach C s₀ p) :
    K.Reach C s₀ q := by
  induction h with
  | ret => exact hr
  | other hs hc _ _ ih => exact ih (.step hr hs hc)
  | own ht hk he hc _ ih => exact ih (.step hr (.run ht hk he) hc)

theorem result (A : Monitor Res M) {Q : α → M → Prop} {m : M} (hgood : ∀ m e, A.good m e)
    (h : K.Executes C i k prog p ms a q) (hw : A.wp prog Q m) :
    Q a (ms.foldl (fun m x => A.next m x.event) m) := by
  induction h generalizing m with
  | ret => exact hw
  | other _ _ _ _ ih => exact ih hw
  | own _ _ _ _ _ ih => exact ih (hw.2 _ (hgood _ _))

end Executes

/-- One step of the schedule that is not the call's own. -/
def pass (ok : Pool Res Call State → Label Res Call → Bool) (a : Act Call Env)
    (p : Pool Res Call State) : Option (Pool Res Call State) :=
  match K.fire a p with
  | some (l,q) => if ok p l then some q else none
  | none => none

/-- Plays a schedule along which task `i` performs the program to its end. -/
def follow (ok : Pool Res Call State → Label Res Call → Bool) :
    List (Act Call Env) → Prog Res α → Pool Res Call State →
    Option (List (Moment Res State Env) × α × Pool Res Call State)
  | [],.ret a,p => some ([],a,p)
  | [],_,_ => none
  | .start c::as,prog,p => (K.pass ok (.start c) p).bind (follow ok as prog)
  | .run j env::as,prog,p =>
    if j=i then match prog,p.tasks[i]? with
      | .call op f,some t => match K.exec i op env p.state with
        | some (r,s) => if ok p (.run i ⟨op,r⟩) then
            (follow ok as (f r) (K.resumed p i t op (fun r => (f r).bind k) r s)).map
              fun x => (⟨p.state,env,⟨op,r⟩,s⟩::x.1,x.2)
            else none
        | none => none
      | _,_ => none
    else (K.pass ok (.run j env) p).bind (follow ok as prog)

end Machine

theorem Machine.Step.task_stays {K : Machine Res Call State Env} {p q : Pool Res Call State}
    {l : Label Res Call} (hs : K.Step p l q) {i : Nat} {t : Task Res Call}
    (ht : p.tasks[i]?=some t) (hl : ∀ e, l≠.run i e) : q.tasks[i]?=some t := by
  have hi:=(List.getElem?_eq_some_iff.mp ht).1
  cases hs with
  | start => rw [List.getElem?_append_left hi]; exact ht
  | @run j u op k env r s hu hk hx =>
    have hj : j≠i := fun h => hl _ (by rw [h])
    simp only [Machine.resumed]
    rw [List.getElem?_append_left (by simpa using hi),List.getElem?_set_ne hj]
    exact ht

namespace Machine
variable {K : Machine Res Call State Env} {C : Pool Res Call State → Label Res Call → Prop}
  {i : Nat} {k : α → Prog Res Unit} {ok : Pool Res Call State → Label Res Call → Bool}

theorem pass_step (hok : ∀ p l, ok p l=true → C p l) {a : Act Call Env}
    {p q : Pool Res Call State} (h : K.pass ok a p=some q) (ha : ∀ env, a≠.run i env) :
    ∃ l, K.Step p l q ∧ C p l ∧ ∀ e, l≠.run i e := by
  unfold pass at h
  split at h
  · next l q' hf =>
    split at h
    · next hl =>
      cases h
      refine ⟨l,K.fire_step hf,hok p l hl,?_⟩
      rintro e rfl
      cases a with
      | start c =>
        simp only [fire] at hf
        split at hf <;> cases hf
      | run j env =>
        obtain ⟨e',he⟩:=K.fire_label hf
        cases he
        exact ha env rfl
    · cases h
  · cases h

theorem follow_executes (hok : ∀ p l, ok p l=true → C p l) {as : List (Act Call Env)}
    {prog : Prog Res α} {p q : Pool Res Call State} {ms : List (Moment Res State Env)} {a : α}
    {t : Task Res Call} (h : K.follow i k ok as prog p=some (ms,a,q)) (ht : p.tasks[i]?=some t)
    (hp : t.prog=prog.bind k) :
    K.Executes C i k prog p ms a q ∧ ∃ u, q.tasks[i]?=some u ∧ u.prog=k a := by
  induction as generalizing prog p ms t with
  | nil =>
    cases prog with
    | ret b => cases h; exact ⟨.ret,t,ht,hp⟩
    | halt => cases h
    | call => cases h
  | cons act as ih =>
    -- a step of another task leaves the call where it is
    have hother : (∀ env, act≠.run i env) →
        (K.pass ok act p).bind (K.follow i k ok as prog)=some (ms,a,q) →
        K.Executes C i k prog p ms a q ∧ ∃ u, q.tasks[i]?=some u ∧ u.prog=k a := by
      intro hact hb
      obtain ⟨p',hp',hb⟩:=Option.bind_eq_some_iff.mp hb
      obtain ⟨l,hs,hc,hl⟩:=pass_step hok hp' hact
      obtain ⟨hx,hu⟩:=ih hb (hs.task_stays ht hl) hp
      exact ⟨.other hs hc hl hx,hu⟩
    cases act with
    | start c => exact hother nofun h
    | run j env =>
      by_cases hj : j=i
      · subst hj
        simp only [follow,ite_true] at h
        split at h
        next op f u hu =>
          rw [ht] at hu
          cases hu
          split at h
          next r s hx =>
            split at h
            next hl =>
              obtain ⟨x,hx',he⟩:=Option.map_eq_some_iff.mp h
              obtain ⟨ms',a',q'⟩:=x
              cases he
              obtain ⟨hrest,hu⟩:=ih hx' (K.resumed_self ht op _ r s) rfl
              exact ⟨.own ht hp hx (hok _ _ hl) hrest,hu⟩
            · cases h
          · cases h
        · cases h
      · refine hother (fun env h => hj (by cases h; rfl)) ?_
        simp only [follow,if_neg hj] at h
        exact h

theorem play_call {γ : Type} (hok : ∀ p l, ok p l=true → C p l) (s₀ : State)
    (as : List (Act Call Env)) (c : Call) (hc : K.entry c=true) (hstart : ∀ p, C p (.start c))
    {first : Prog Res γ} {prog : γ → Prog Res α} {k : γ → α → Prog Res Unit}
    (hbody : K.body c=first.bind fun x => (prog x).bind (k x)) (as₁ as₂ : List (Act Call Env))
    (test : γ → List (Moment Res State Env) → α → Bool)
    (h : (K.play ok as ⟨s₀,[]⟩).any (fun p =>
      (K.follow p.tasks.length (fun x => (prog x).bind (k x)) ok as₁ first
        ⟨p.state,p.tasks++[K.newTask c]⟩).any fun x =>
      (K.follow p.tasks.length (k x.2.1) ok as₂ (prog x.2.1) x.2.2).any fun y =>
        test x.2.1 y.1 y.2.1)=true) :
    ∃ p i t x ms a q, K.Reach C s₀ p ∧ p.tasks[i]?=some t ∧
      K.Executes C i (k x) (prog x) p ms a q ∧ test x ms a=true := by
  obtain ⟨p,hp,ht⟩:=K.play_any C ok hok s₀ as _ h
  cases hf : K.follow p.tasks.length (fun x => (prog x).bind (k x)) ok as₁ first
      ⟨p.state,p.tasks++[K.newTask c]⟩ with
  | none => rw [hf] at ht; cases ht
  | some y =>
    obtain ⟨ms₁,x,p₁⟩:=y
    rw [hf] at ht
    obtain ⟨hx,u,hu,hprog⟩:=follow_executes hok hf List.getElem?_concat_length hbody
    change (K.follow p.tasks.length (k x) ok as₂ (prog x) p₁).any (fun y => test x y.1 y.2.1)=
      true at ht
    cases hg : K.follow p.tasks.length (k x) ok as₂ (prog x) p₁ with
    | none => rw [hg] at ht; cases ht
    | some z =>
      obtain ⟨ms,a,q⟩:=z
      rw [hg] at ht
      exact ⟨p₁,_,u,x,ms,a,q,hx.reach (.step hp (.start hc) (hstart p)),hu,
        (follow_executes hok hg hu hprog).1,ht⟩

end Machine

end Lib
