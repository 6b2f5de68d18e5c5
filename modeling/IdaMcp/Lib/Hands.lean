import Mathlib.Algebra.BigOperators.Group.List.Basic
import Mathlib.Algebra.Order.Group.Multiset
import IdaMcp.Lib.Pool

/-!
# What the tasks of a pool have in hand

A monitor may say what its task has in hand. A step takes from one hand and puts
into the same hand and into those of the tasks it starts; the other hands stay as
they are. So an invariant of the shared state and of all hands together is one
equation for each step.
-/

namespace Lib

variable {Op : Type} {Res : Op → Type} {Call State Env M α : Type}
variable (A : Monitor Res M) (init : Call → M) (hold : M → Multiset α)

def hands (ts : List (Task Res Call)) : Multiset α := (ts.map fun t => hold (A.track init t)).sum

theorem hands_append (ts us : List (Task Res Call)) :
    hands A init hold (ts++us)=hands A init hold ts+hands A init hold us := by
  simp only [hands,List.map_append,List.sum_append]

theorem hands_set {ts : List (Task Res Call)} {i : Nat} {t : Task Res Call} (ht : ts[i]?=some t) :
    ∃ rest,hands A init hold ts=hold (A.track init t)+rest ∧
      ∀ u,hands A init hold (ts.set i u)=hold (A.track init u)+rest := by
  induction ts generalizing i with
  | nil => cases ht
  | cons x ts ih =>
    cases i with
    | zero =>
      obtain rfl : x=t := Option.some.inj ht
      exact ⟨hands A init hold ts,rfl,fun u => rfl⟩
    | succ i =>
      obtain ⟨rest,hall,hset⟩:=ih ht
      refine ⟨hold (A.track init x)+rest,?_,fun u => ?_⟩
      · rw [add_left_comm,← hall]
        rfl
      · rw [add_left_comm,← hset u]
        rfl

section Rule
variable (K : Machine Res Call State Env) (C : Pool Res Call State → Label Res Call → Prop)
variable (Q : Call → M → Prop)

theorem hands_resumed {p : Pool Res Call State} {i : Nat} {t : Task Res Call} {op : Op}
    (ht : p.tasks[i]?=some t) (k : Res op → Prog Res Unit) (r : Res op) (s : State) :
    ∃ rest,hands A init hold p.tasks=hold (A.track init t)+rest ∧
      hands A init hold (K.resumed p i t op k r s).tasks=
        hold (A.next (A.track init t) ⟨op,r⟩)+rest+((K.forks op r).map fun c =>
          hold (init c)).sum := by
  obtain ⟨rest,hall,hset⟩:=hands_set A init hold ht
  refine ⟨rest,hall,?_⟩
  simp only [Machine.resumed]
  rw [hands_append,hset,hands,List.map_map]
  rfl

theorem reach_hands {s₀ : State} {Ψ : State → Multiset α → Prop}
    (hbody : ∀ c,A.wp (K.body c) (fun _ m => Q c m) (init c))
    (hgood : ∀ p i e t,C p (.run i e) → p.tasks[i]?=some t → A.good (A.track init t) e)
    (h0 : Ψ s₀ 0) (hstart : ∀ c,K.entry c=true → hold (init c)=0)
    (hrun : ∀ p i t op env r s rest,K.Reach C s₀ p → Fired K A init C p i t op env r s →
      hands A init hold p.tasks=hold (A.track init t)+rest →
      Ψ p.state (hold (A.track init t)+rest) →
      Ψ s (hold (A.next (A.track init t) ⟨op,r⟩)+rest+((K.forks op r).map fun c =>
        hold (init c)).sum))
    {p : Pool Res Call State} (hr : K.Reach C s₀ p) : Ψ p.state (hands A init hold p.tasks) := by
  refine reach_pool K A init C Q
    (Ψ := fun p => Ψ p.state (hands A init hold p.tasks)) hbody hgood h0
    (fun p c _ ih he _ => ?_) (fun p i t op k env r s' hp ih hf => ?_) hr
  · rw [hands_append]
    change Ψ p.state (_+(hold (init c)+0))
    rw [hstart c he,add_zero,add_zero]
    exact ih
  · obtain ⟨rest,hall,hres⟩:=hands_resumed A init hold K hf.task k r s'
    rw [hres]
    rw [hall] at ih
    exact hrun p i t op env r s' rest hp hf hall ih

end Rule

end Lib
