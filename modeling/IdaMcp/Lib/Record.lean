import IdaMcp.Lib.Pool

/-!
# A run with a record of the environment's inputs

The labels of a run do not show what the environment put into a step. The
recording machine takes the same steps, from the inputs that pass `ok`, and
keeps notes on them beside the shared state.
-/

namespace Lib

variable {Op : Type} {Res : Op → Type} {Call State Env N : Type}

/-- The pool without the record. -/
def Pool.plain (p : Pool Res Call (State × List N)) : Pool Res Call State := ⟨p.state.1,p.tasks⟩

namespace Machine
variable (K : Machine Res Call State Env) (ok : Env → Bool)
  (note : (op : Op) → Env → State → List N)

def record : Machine Res Call (State × List N) Env where
  exec i op env s := if ok env then (K.exec i op env s.1).map fun x =>
    (x.1,x.2,note op env s.1++s.2)
    else none
  body := K.body
  entry := K.entry
  forks := K.forks

theorem record_exec {i : Nat} {op : Op} {env : Env} {r : Res op} {s t : State × List N}
    (h : (K.record ok note).exec i op env s=some (r,t)) :
    ok env=true ∧ K.exec i op env s.1=some (r,t.1) ∧ t.2=note op env s.1++s.2 := by
  simp only [record] at h
  split at h
  · next ho =>
    obtain ⟨⟨r',t'⟩,hx,he⟩:=Option.map_eq_some_iff.mp h
    cases he
    exact ⟨ho,hx,rfl⟩
  · cases h

theorem record_step {p q : Pool Res Call (State × List N)} {l : Label Res Call}
    (h : (K.record ok note).Step p l q) : K.Step p.plain l q.plain := by
  cases h with
  | start he => exact .start he
  | run ht hk hx => exact .run ht hk (K.record_exec ok note hx).2.1

theorem record_reach {C : Pool Res Call State → Label Res Call → Prop} {s₀ : State}
    {p : Pool Res Call (State × List N)}
    (h : (K.record ok note).Reach (fun p l => C p.plain l) (s₀,[]) p) : K.Reach C s₀ p.plain := by
  induction h with
  | init => exact .init
  | step _ hs hc ih => exact .step ih (K.record_step ok note hs) hc

end Machine

end Lib
