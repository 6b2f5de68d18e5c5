import Mathlib.Logic.Function.Basic
import Mathlib.Data.List.Pairwise

/-!
# Moves run one after another

A move sets one register to a constant or to a function of another register.
A list of moves read as a parallel assignment takes every source from the
file at the start; run in order, a move sees what the moves before it wrote.
For moves in a fixed order of their destinations this file says exactly when
the run gives every destination the value it was meant to get.
-/

namespace Lib

inductive Source (R V : Type) where
  | value (v : V)
  | read (src : R) (f : V → V)

structure Move (R V : Type) where
  dst : R
  source : Source R V

def Source.eval {R V : Type} (s : Source R V) (file : R → V) : V :=
  match s with
  | .value v => v
  | .read src f => f (file src)

namespace Move
variable {R V : Type}

section
variable [DecidableEq R]

def run (m : Move R V) (file : R → V) : R → V :=
  Function.update file m.dst (m.source.eval file)

def runAll (ms : List (Move R V)) (file : R → V) : R → V := ms.foldl (fun f m => m.run f) file

@[simp] theorem runAll_nil (file : R → V) : runAll [] file=file := rfl

@[simp] theorem runAll_cons (m : Move R V) (ms : List (Move R V)) (file : R → V) :
    runAll (m::ms) file=runAll ms (m.run file) := rfl

theorem runAll_append (ms ns : List (Move R V)) (file : R → V) :
    runAll (ms++ns) file=runAll ns (runAll ms file) := List.foldl_append

theorem runAll_of_ne (ms : List (Move R V)) (file : R → V) (r : R)
    (h : ∀ m ∈ ms,m.dst≠r) : runAll ms file r=file r := by
  induction ms generalizing file with
  | nil => rfl
  | cons m ms ih =>
    rw [runAll_cons,ih (m.run file) fun n hn => h n (List.mem_cons_of_mem m hn)]
    exact Function.update_of_ne (h m List.mem_cons_self).symm _ _

theorem runAll_at (before after : List (Move R V)) (m : Move R V) (file : R → V)
    (h : ∀ n ∈ after,n.dst≠m.dst) :
    runAll (before++m::after) file m.dst=m.source.eval (runAll before file) := by
  rw [runAll_append,runAll_cons,runAll_of_ne after _ m.dst h]
  exact Function.update_self ..

end

section
variable (key : R → Nat)

/-- The destinations come in increasing order. -/
def Ordered (ms : List (Move R V)) : Prop := ms.Pairwise fun m n => key m.dst<key n.dst

/-- What the move `m` has to find in the file at the start: a constant is the
value meant, and a source still holds it and is not overwritten before. -/
def Ready (ms : List (Move R V)) (file want : R → V) (m : Move R V) : Prop :=
  match m.source with
  | .value v => v=want m.dst
  | .read src f => (∀ n ∈ ms,n.dst=src → key m.dst ≤ key src) ∧ f (file src)=want m.dst

end

variable {key : R → Nat}

theorem Ordered.after {before after : List (Move R V)} {m : Move R V}
    (h : Ordered key (before++m::after)) : ∀ n ∈ after,key m.dst<key n.dst := by
  intro n hn
  exact List.rel_of_pairwise_cons (List.pairwise_append.mp h).2.1 hn

theorem Ordered.before {before after : List (Move R V)} {m : Move R V}
    (h : Ordered key (before++m::after)) : ∀ n ∈ before,key n.dst<key m.dst := by
  intro n hn
  exact (List.pairwise_append.mp h).2.2 n hn m List.mem_cons_self

theorem Ordered.ne_after {before after : List (Move R V)} {m : Move R V}
    (h : Ordered key (before++m::after)) : ∀ n ∈ after,n.dst≠m.dst := by
  intro n hn he
  have hlt:=h.after n hn
  rw [he] at hlt
  exact Nat.lt_irrefl _ hlt

variable [DecidableEq R]

theorem Ordered.settled {before after : List (Move R V)} {m n : Move R V} (file : R → V)
    (h : Ordered key (before++m::after)) (hn : n ∈ before) :
    runAll (before++m::after) file n.dst=runAll before file n.dst := by
  have hlt:=h.before n hn
  rw [runAll_append,runAll_of_ne]
  intro k hk he
  rcases List.mem_cons.mp hk with hk | hk
  · rw [← he,hk] at hlt
    exact Nat.lt_irrefl _ hlt
  · have ha:=h.after k hk
    rw [he] at ha
    exact Nat.lt_asymm ha hlt

theorem Ordered.run_value {ms : List (Move R V)} {r : R} {v : V} (file : R → V)
    (h : Ordered key ms) (hm : ⟨r,.value v⟩ ∈ ms) : runAll ms file r=v := by
  obtain ⟨before,after,rfl⟩:=List.append_of_mem hm
  exact runAll_at before after ⟨r,.value v⟩ file h.ne_after

theorem Ordered.run_at_iff {before after : List (Move R V)} {m : Move R V} {file want : R → V}
    (h : Ordered key (before++m::after))
    (changed : ∀ src f,m.source=.read src f → ∀ n ∈ before,n.dst=src → f (want src)≠want m.dst)
    (done : ∀ n ∈ before,runAll (before++m::after) file n.dst=want n.dst) :
    runAll (before++m::after) file m.dst=want m.dst ↔
      Ready key (before++m::after) file want m := by
  rw [runAll_at before after m file h.ne_after]
  unfold Ready
  match hs : m.source with
  | .value v => rfl
  | .read src f =>
    change f (runAll before file src)=want m.dst ↔ _
    by_cases hb : ∃ n ∈ before,n.dst=src
    · -- the source was overwritten: it holds what it was meant to get
      obtain ⟨n,hn,rfl⟩:=hb
      have hv : runAll before file n.dst=want n.dst := (h.settled file hn).symm.trans (done n hn)
      rw [hv]
      constructor
      · intro he
        exact absurd he (changed n.dst f hs n hn rfl)
      · intro hr
        have hle:=hr.1 n (List.mem_append_left _ hn) rfl
        exact absurd (h.before n hn) (Nat.not_lt.mpr hle)
    · have hne : ∀ n ∈ before,n.dst≠src := fun n hn he => hb ⟨n,hn,he⟩
      rw [runAll_of_ne before file src hne]
      constructor
      · intro he
        refine ⟨?_,he⟩
        intro n hn hd
        rcases List.mem_append.mp hn with hn | hn
        · exact absurd hd (hne n hn)
        · rcases List.mem_cons.mp hn with hn | hn
          · exact Nat.le_of_eq (by rw [← hd,hn])
          · exact Nat.le_of_lt (hd ▸ h.after n hn)
      · exact fun hr => hr.2

/-- A run of ordered moves gives every destination its value exactly when
every move is ready at the start. -/
theorem Ordered.run_iff {ms : List (Move R V)} {file want : R → V} (h : Ordered key ms)
    (changed : ∀ m ∈ ms,∀ src f,m.source=.read src f → ∀ n ∈ ms,n.dst=src →
      f (want src)≠want m.dst) :
    (∀ m ∈ ms,runAll ms file m.dst=want m.dst) ↔ ∀ m ∈ ms,Ready key ms file want m := by
  constructor
  · intro hr m hm
    obtain ⟨before,after,rfl⟩:=List.append_of_mem hm
    refine (h.run_at_iff ?_ ?_).mp (hr m hm)
    · exact fun src f hs n hn => changed m hm src f hs n (List.mem_append_left _ hn)
    · exact fun n hn => hr n (List.mem_append_left _ hn)
  · intro hr
    -- by induction over the moves run so far
    have upto : ∀ k,∀ m ∈ ms.take k,runAll ms file m.dst=want m.dst := by
      intro k
      induction k with
      | zero => simp
      | succ k ih =>
        intro m hm
        rw [List.take_add_one,List.mem_append] at hm
        rcases hm with hm | hm
        · exact ih m hm
        · obtain hk : ms[k]?=some m := by simpa using hm
          obtain ⟨hl,rfl⟩:=List.getElem?_eq_some_iff.mp hk
          have hsplit : ms=ms.take k++ms[k]::ms.drop (k+1) := by
            rw [← List.drop_eq_getElem_cons hl,List.take_append_drop]
          have ho : Ordered key (ms.take k++ms[k]::ms.drop (k+1)) := hsplit ▸ h
          have hready : Ready key (ms.take k++ms[k]::ms.drop (k+1)) file want ms[k] := by
            rw [← hsplit]
            exact hr ms[k] (List.getElem_mem hl)
          have hdone : ∀ n ∈ ms.take k,
              runAll (ms.take k++ms[k]::ms.drop (k+1)) file n.dst=want n.dst := by
            rw [← hsplit]
            exact ih
          have hat:=(ho.run_at_iff (fun src f hs n hn =>
            changed ms[k] (List.getElem_mem hl) src f hs n (List.mem_of_mem_take hn))
            hdone).mpr hready
          rwa [← hsplit] at hat
    intro m hm
    refine upto ms.length m ?_
    rwa [List.take_length]

end Move
end Lib
