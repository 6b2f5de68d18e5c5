import Mathlib.Logic.Relation

/-!
# Programs over a set of operations, and what a task may do along the way

A program is a tree: it ends with a value, or it asks for one operation and
goes on from the reply. Sequencing is `bind`, so a sequential function of the
modelled code is written with `do`. A loop of the modelled code runs on a
fuel that the environment picks; `halt` is where that fuel ends, a task that
takes no further step. Every finite run of the loop is one of these.

A monitor folds the operations one task has performed, with their replies,
into a small state of its own. `wp` is the weakest precondition over that
state: it looks at one task alone, for every reply a run may bring.
-/

namespace Lib

inductive Prog {Op : Type} (Res : Op → Type) (α : Type) where
  | ret : α → Prog Res α
  | halt : Prog Res α
  | call : (op : Op) → (Res op → Prog Res α) → Prog Res α

variable {Op : Type} {Res : Op → Type} {α β : Type}

namespace Prog

def bind : Prog Res α → (α → Prog Res β) → Prog Res β
  | .ret a,f => f a
  | .halt,_ => .halt
  | .call op k,f => .call op fun r => bind (k r) f

instance : Monad (Prog Res) where
  pure := .ret
  bind := bind

/-- One operation, answered by its own reply. -/
def perform (op : Op) : Prog Res (Res op) := .call op .ret

/-- `f` on each element in order, one after the other. -/
def forEach (f : α → Prog Res Unit) : List α → Prog Res Unit
  | [] => .ret ()
  | x::xs => bind (f x) fun _ => forEach f xs

def finished : Prog Res α → Bool
  | .ret _ => true
  | _ => false

end Prog

/-- An operation together with the reply it got. -/
structure Event {Op : Type} (Res : Op → Type) where
  op : Op
  res : Res op

/-- A task-local automaton: its state after an event, the operations it admits
in a state, and the replies a run is assumed to bring. -/
structure Monitor {Op : Type} (Res : Op → Type) (M : Type) where
  next : M → Event Res → M
  allowed : M → Op → Prop
  good : M → Event Res → Prop

variable {M : Type}

namespace Monitor

/-- From `m` the program performs only admitted operations, and ends in a
value and a state with `Q`, whatever admissible replies come. -/
def wp (A : Monitor Res M) : Prog Res α → (α → M → Prop) → M → Prop
  | .ret a,Q,m => Q a m
  | .halt,_,_ => True
  | .call op k,Q,m => A.allowed m op ∧
      ∀ r, A.good m ⟨op,r⟩ → wp A (k r) Q (A.next m ⟨op,r⟩)

/-- Whatever replies come, the program ends, in a value and a state with `Q`; it halts in a
state with `H` only. -/
def ends (A : Monitor Res M) (H : M → Prop) : Prog Res α → (α → M → Prop) → M → Prop
  | .ret a,Q,m => Q a m
  | .halt,_,m => H m
  | .call op k,Q,m => ∀ r, ends A H (k r) Q (A.next m ⟨op,r⟩)

variable (A : Monitor Res M)

theorem ends_seq {H : M → Prop} {p : Prog Res α} {f : α → Prog Res β} {Q : α → M → Prop}
    {R : β → M → Prop} {m : M} (hp : A.ends H p Q m) (hf : ∀ a m, Q a m → A.ends H (f a) R m) :
    A.ends H (p >>= f) R m := by
  change A.ends H (p.bind f) R m
  induction p generalizing m with
  | ret a => exact hf a m hp
  | halt => exact hp
  | call op k ih => exact fun r => ih r (hp r)

theorem ends_any {H : M → Prop} (hs : ∀ m e, H m → H (A.next m e)) (p : Prog Res α) {m : M}
    (hm : H m) : A.ends H p (fun _ _ => True) m := by
  induction p generalizing m with
  | ret a => trivial
  | halt => exact hm
  | call op k ih => exact fun r => ih r (hs _ _ hm)

@[simp] theorem wp_ret (a : α) (Q : α → M → Prop) (m : M) : A.wp (.ret a) Q m=Q a m := rfl
@[simp] theorem wp_pure (a : α) (Q : α → M → Prop) (m : M) : A.wp (pure a) Q m=Q a m := rfl
@[simp] theorem wp_halt (Q : α → M → Prop) (m : M) : A.wp .halt Q m=True := rfl

theorem wp_call (op : Op) (k : Res op → Prog Res α) (Q : α → M → Prop) (m : M) :
    A.wp (.call op k) Q m=(A.allowed m op ∧
      ∀ r, A.good m ⟨op,r⟩ → A.wp (k r) Q (A.next m ⟨op,r⟩)) := rfl

@[simp] theorem wp_perform (op : Op) (Q : Res op → M → Prop) (m : M) :
    A.wp (Prog.perform op) Q m=(A.allowed m op ∧
      ∀ r, A.good m ⟨op,r⟩ → Q r (A.next m ⟨op,r⟩)) := rfl

@[simp] theorem wp_bind (p : Prog Res α) (f : α → Prog Res β) (Q : β → M → Prop) (m : M) :
    A.wp (p >>= f) Q m=A.wp p (fun a m => A.wp (f a) Q m) m := by
  change A.wp (p.bind f) Q m=_
  induction p generalizing m with
  | ret a => rfl
  | halt => rfl
  | call op k ih => simp only [Prog.bind,wp_call,ih]

theorem wp_mono {p : Prog Res α} {Q R : α → M → Prop} {m : M}
    (h : A.wp p Q m) (hq : ∀ a m, Q a m → R a m) : A.wp p R m := by
  induction p generalizing m with
  | ret a => exact hq a m h
  | halt => trivial
  | call op k ih => exact ⟨h.1,fun r hg => ih r (h.2 r hg)⟩

theorem wp_fixed {m : M} (h : ∀ op, A.allowed m op ∧ ∀ r, A.next m ⟨op,r⟩=m) (p : Prog Res α)
    {Q : α → M → Prop} (hq : ∀ a, Q a m) : A.wp p Q m := by
  induction p with
  | ret a => exact hq a
  | halt => trivial
  | call op k ih => exact ⟨(h op).1,fun r _ => by rw [(h op).2 r]; exact ih r⟩

/-- Sequencing: what the first part ensures is what the second part starts from. -/
theorem wp_seq {p : Prog Res α} {f : α → Prog Res β} {Q : α → M → Prop} {R : β → M → Prop}
    {m : M} (hp : A.wp p Q m) (hf : ∀ a m, Q a m → A.wp (f a) R m) : A.wp (p >>= f) R m := by
  rw [wp_bind]
  exact A.wp_mono hp hf

/-- A loop over a list keeps what each round keeps. -/
theorem wp_forEach {f : α → Prog Res Unit} {I : List α → M → Prop} {xs : List α} {m : M}
    (h0 : I xs m) (hs : ∀ x xs m, I (x::xs) m → A.wp (f x) (fun _ m => I xs m) m) :
    A.wp (Prog.forEach f xs) (fun _ m => I [] m) m := by
  induction xs generalizing m with
  | nil => exact h0
  | cons x xs ih =>
    change A.wp (f x >>= fun _ => Prog.forEach f xs) _ m
    exact A.wp_seq (hs x xs m h0) fun _ m hm => ih hm

/-- The program goes from `I` to `I`. -/
def Keeps (I : M → Prop) (p : Prog Res α) : Prop := ∀ m, I m → A.wp p (fun _ m => I m) m

variable {A} {I : M → Prop}

theorem keeps_pure (a : α) : A.Keeps I (pure a) := fun _ h => h
theorem keeps_halt : A.Keeps I (.halt : Prog Res α) := fun _ _ => trivial

theorem keeps_perform {op : Op}
    (h : ∀ m, I m → A.allowed m op ∧ ∀ r, A.good m ⟨op,r⟩ → I (A.next m ⟨op,r⟩)) :
    A.Keeps I (Prog.perform op) := h

theorem keeps_bind {p : Prog Res α} {f : α → Prog Res β} (hp : A.Keeps I p)
    (hf : ∀ a, A.Keeps I (f a)) : A.Keeps I (p >>= f) :=
  fun m h => A.wp_seq (hp m h) fun a m h => hf a m h

theorem keeps_forEach {f : α → Prog Res Unit} (hf : ∀ a, A.Keeps I (f a)) (xs : List α) :
    A.Keeps I (Prog.forEach f xs) :=
  fun _ h => A.wp_forEach (I := fun _ m => I m) h fun x _ _ h => hf x _ h

end Monitor

end Lib
