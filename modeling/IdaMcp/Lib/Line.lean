import Mathlib.Data.List.Sort
import Mathlib.Data.List.Range
import Mathlib.Data.List.Perm.Basic

/-!
# A waiting line with priorities

Entries stand by priority, and by the time they came among equal ones. The
line is sorted again, stably, each time one comes; the first entry that is
eligible is taken. A roster numbers the entries as they come and keeps what
became of each; its lists are tied to what a program shows of its line.
-/

namespace Lib.Line
variable {α : Type}
variable {x : Nat × α} {q : List α}

structure Order (α : Type) where
  priority : α → Nat
  stamp : α → Nat

variable {o : Order α}

def Order.Ahead (o : Order α) (a b : α) : Prop :=
  o.priority b < o.priority a ∨ (o.priority a=o.priority b ∧ o.stamp a ≤ o.stamp b)

instance (o : Order α) : DecidableRel o.Ahead := fun a b =>
  inferInstanceAs (Decidable
    (o.priority b < o.priority a ∨ (o.priority a=o.priority b ∧ o.stamp a ≤ o.stamp b)))

/-- An entry comes. -/
def Order.enter (o : Order α) (q : List α) (a : α) : List α := (q++[a]).insertionSort o.Ahead

/-- The same on entries with their number. -/
def Order.tagged (o : Order α) : Order (Nat × α) := ⟨fun x => o.priority x.2,fun x => o.stamp x.2⟩

theorem map_enter (o : Order α) (q : List (Nat × α)) (n : Nat) (a : α) :
    (o.tagged.enter q (n,a)).map Prod.snd=o.enter (q.map Prod.snd) a := by
  rw [Order.enter,Order.enter,List.map_insertionSort o.tagged.Ahead o.Ahead Prod.snd]
  · rw [List.map_append]
    rfl
  · intro x _ y _
    exact Iff.rfl

inductive Turn (α : Type)
  | stay
  | enter (a : α)
  | start (i : Nat)
  | remove (i : Nat)

def Order.move (o : Order α) (q : List α) : Turn α → List α
  | .stay => q
  | .enter a => o.enter q a
  | .start i | .remove i => q.eraseIdx i

/-- What a program shows: the entries that came, were started and were removed. -/
structure Shown (α : Type) where
  came : List α := []
  started : List α := []
  removed : List α := []

def Turn.shown (q : List α) : Turn α → Shown α
  | .stay => {}
  | .enter a => {came:=[a]}
  | .start i => {started:=q[i]?.toList}
  | .remove i => {removed:=q[i]?.toList}

/-- One thing after the other. -/
def Shown.append (x y : Shown α) : Shown α :=
  ⟨x.came++y.came,x.started++y.started,x.removed++y.removed⟩

/-- Higher priority, or the same and an earlier number. -/
def Precedes (o : Order α) (x y : Nat × α) : Prop :=
  o.priority y.2 < o.priority x.2 ∨
    (o.priority x.2=o.priority y.2 ∧ x.1 < y.1 ∧ o.stamp x.2 ≤ o.stamp y.2)

theorem Precedes.ahead {y : Nat × α} (h : Precedes o x y) : o.tagged.Ahead x y := by
  rcases h with h | ⟨hp,-,hs⟩
  · exact .inl h
  · exact .inr ⟨hp,hs⟩

theorem Precedes.trans {y z : Nat × α} (h : Precedes o x y) (k : Precedes o y z) :
    Precedes o x z := by
  rcases h with h | ⟨h,ht,hs⟩ <;> rcases k with k | ⟨k,kt,ks⟩
  · exact .inl (k.trans h)
  · exact .inl (k ▸ h)
  · exact .inl (h ▸ k)
  · exact .inr ⟨h.trans k,ht.trans kt,hs.trans ks⟩

theorem pairwise_orderedInsert {β : Type} {r R : β → β → Prop} [DecidableRel r]
    (htrans : ∀ x y z,R x y → R y z → R x z) (x : β) (l : List β) (hl : l.Pairwise R)
    (hr : ∀ y∈l,r x y → R x y) (hn : ∀ y∈l,¬r x y → R y x) :
    (l.orderedInsert r x).Pairwise R := by
  induction l with
  | nil => exact List.pairwise_singleton ..
  | cons y l ih =>
    have hyl:=List.pairwise_cons.mp hl
    by_cases hxy : r x y
    · rw [List.orderedInsert_cons,if_pos hxy,List.pairwise_cons]
      have hRxy:=hr y List.mem_cons_self hxy
      refine ⟨fun z hz => ?_,hl⟩
      rcases List.mem_cons.mp hz with rfl | hz
      · exact hRxy
      · exact htrans x y z hRxy (hyl.1 z hz)
    · rw [List.orderedInsert_cons,if_neg hxy,List.pairwise_cons]
      refine ⟨fun z hz => ?_,ih hyl.2 (fun z hz => hr z (List.mem_cons_of_mem _ hz))
        fun z hz => hn z (List.mem_cons_of_mem _ hz)⟩
      rcases (List.mem_orderedInsert _).mp hz with rfl | hz
      · exact hn y List.mem_cons_self hxy
      · exact hyl.1 z hz

theorem enter_perm (o : Order α) (q : List α) (a : α) : (o.enter q a).Perm (q++[a]) :=
  List.perm_insertionSort ..

theorem pairwise_enter (o : Order α) (q : List (Nat × α)) (n : Nat) (a : α)
    (hq : q.Pairwise (Precedes o)) (hn : ∀ x∈q,x.1 < n ∧ o.stamp x.2 ≤ o.stamp a) :
    (o.tagged.enter q (n,a)).Pairwise (Precedes o) := by
  induction q with
  | nil => exact List.pairwise_singleton ..
  | cons x q ih =>
    rw [List.pairwise_cons] at hq
    have hx:=hn x List.mem_cons_self
    have hmem : ∀ y∈o.tagged.enter q (n,a),Precedes o x y ∨ y=(n,a) := by
      intro y hy
      rcases List.mem_append.mp ((enter_perm _ _ _).mem_iff.mp hy) with hy | hy
      · exact .inl (hq.1 y hy)
      · exact .inr (List.mem_singleton.mp hy)
    refine pairwise_orderedInsert (fun _ _ _ => .trans) x _
      (ih hq.2 fun y hy => hn y (List.mem_cons_of_mem _ hy)) (fun y hy hr => ?_) fun y hy hr => ?_
    · rcases hmem y hy with h | rfl
      · exact h
      · rcases hr with h | ⟨h,-⟩
        · exact .inl h
        · exact .inr ⟨h,hx⟩
    · rcases hmem y hy with h | rfl
      · exact absurd h.ahead hr
      · refine .inl (Nat.lt_of_not_le fun hle => hr ?_)
        rcases Nat.lt_or_eq_of_le hle with h | h
        · exact .inl h
        · exact .inr ⟨h.symm,hx.2⟩

theorem precedes_of_findIdx {q : List (Nat × α)} (hq : q.Pairwise (Precedes o)) {p : Nat × α → Bool}
    {i : Nat} (hi : q.findIdx? p=some i) (hx : q[i]?=some x) :
    p x=true ∧ ∀ y∈q,p y=true → y=x ∨ Precedes o x y := by
  obtain ⟨hlt,hp,hbefore⟩ := List.findIdx?_eq_some_iff_getElem.mp hi
  obtain rfl : q[i]=x := by rw [List.getElem?_eq_getElem hlt] at hx; exact Option.some.inj hx
  refine ⟨hp,fun y hy hpy => ?_⟩
  obtain ⟨j,hj,rfl⟩ := List.getElem_of_mem hy
  rcases Nat.lt_trichotomy i j with h | h | h
  · exact .inr (List.pairwise_iff_getElem.mp hq i j hlt hj h)
  · subst h
    exact .inl rfl
  · exact absurd hpy (hbefore j h)

/-- The entries in the order in which they came, with their numbers. -/
def numbered (came : List α) : List (Nat × α) := came.mapIdx Prod.mk

/-- Entries with their numbers, and what became of each. -/
structure Roster (α : Type) where
  queued : List (Nat × α)
  started : List (Nat × α)
  removed : List (Nat × α)

namespace Roster

/-- The line `q` is in order, and every entry that came is in one place: it waits, or it was shown
as started or as removed. -/
structure Kept (o : Order α) (L : Roster α) (q : List α) (h : Shown α) : Prop where
  line : L.queued.map Prod.snd=q
  ordered : L.queued.Pairwise (Precedes o)
  placed : (L.queued++L.started++L.removed).Perm (numbered h.came)
  started : L.started.map Prod.snd=h.started.reverse
  removed : L.removed.map Prod.snd=h.removed.reverse

theorem Kept.lt {L : Roster α} {h : Shown α} (hk : Kept o L q h)
    (hx : x∈L.queued) : x.1 < h.came.length := by
  have hm:=hk.placed.mem_iff.mp (List.mem_append_left _ (List.mem_append_left _ hx))
  obtain ⟨i,hi,rfl⟩:=List.mem_mapIdx.mp hm
  exact hi

theorem eraseIdx_perm {β : Type} (q xs : List β) (i : Nat) :
    (q.eraseIdx i++(q[i]?.toList++xs)).Perm (q++xs) := by
  rcases Nat.lt_or_ge i q.length with hi | hi
  · rw [List.getElem?_eq_getElem hi]
    have hq:=(List.getElem_cons_eraseIdx_perm hi).append_right xs
    exact (List.perm_append_comm_assoc _ [q[i]] xs).trans hq
  · rw [List.getElem?_eq_none hi,List.eraseIdx_of_length_le hi]
    exact List.Perm.refl _

theorem Kept.move {L : Roster α} {h : Shown α} (hk : Kept o L q h) (m : Turn α)
    (hm : ∀ a,m=.enter a → ∀ x∈q,o.stamp x ≤ o.stamp a) :
    ∃ L',Kept o L' (o.move q m) (h.append (m.shown q)) := by
  obtain ⟨hline,hord,hplaced,hs,hr⟩:=hk
  subst hline
  have hfound : ∀ (i : Nat) (xs : List α),(L.queued[i]?.toList.map Prod.snd)++xs.reverse=
      (xs++(L.queued.map Prod.snd)[i]?.toList).reverse := by
    intro i xs
    rw [List.getElem?_map,List.reverse_append]
    cases L.queued[i]? <;> rfl
  cases m with
  | stay => exact ⟨L,rfl,hord,by simpa only [Shown.append,Turn.shown,List.append_nil],
      by simpa [Shown.append,Turn.shown],by simpa [Shown.append,Turn.shown]⟩
  | enter a =>
    have hlt : ∀ x∈L.queued,x.1 < h.came.length ∧ o.stamp x.2 ≤ o.stamp a := fun x hx =>
      ⟨Kept.lt ⟨rfl,hord,hplaced,hs,hr⟩ hx,hm a rfl x.2 (List.mem_map_of_mem hx)⟩
    refine ⟨⟨o.tagged.enter L.queued (h.came.length,a),L.started,L.removed⟩,map_enter ..,
      pairwise_enter o L.queued h.came.length a hord hlt,?_,by simpa [Shown.append,Turn.shown],
      by simpa [Shown.append,Turn.shown]⟩
    change (o.tagged.enter L.queued (h.came.length,a)++L.started++L.removed).Perm
      (numbered (h.came++[a]))
    rw [numbered,List.mapIdx_concat]
    refine List.Perm.trans ?_ (hplaced.append_right _)
    have hq:=(enter_perm o.tagged L.queued (h.came.length,a)).append_right (L.started++L.removed)
    rw [← List.append_assoc,← List.append_assoc] at hq
    refine hq.trans ?_
    simp only [List.append_assoc]
    refine List.Perm.append_left _ ?_
    exact List.perm_append_comm.trans (by rw [List.append_assoc])
  | start i =>
    refine ⟨⟨L.queued.eraseIdx i,L.queued[i]?.toList++L.started,L.removed⟩,
      (List.eraseIdx_map ..).symm,hord.sublist (List.eraseIdx_sublist ..),?_,
      by rw [List.map_append,hs]; exact hfound i _,
      by simpa [Shown.append,Turn.shown]⟩
    simp only [Shown.append,Turn.shown,List.append_nil]
    exact ((eraseIdx_perm L.queued L.started i).append_right _).trans hplaced
  | remove i =>
    refine ⟨⟨L.queued.eraseIdx i,L.started,L.queued[i]?.toList++L.removed⟩,
      (List.eraseIdx_map ..).symm,hord.sublist (List.eraseIdx_sublist ..),?_,
      by simpa [Shown.append,Turn.shown],
      by rw [List.map_append,hr]; exact hfound i _⟩
    simp only [Shown.append,Turn.shown,List.append_nil]
    refine List.Perm.trans ?_ hplaced
    rw [List.append_assoc,List.append_assoc]
    refine ((List.perm_append_comm_assoc _ _ _).append_left _).trans ?_
    exact eraseIdx_perm L.queued (L.started++L.removed) i

end Roster

/-- A program that keeps a line: what it shows of each input, and the time at which the
input is read. -/
structure Scheduler (Input State α : Type) where
  order : Order α
  queued : State → List α
  step : Input → State → State
  shown : Input → State → Shown α
  time : Input → Nat
  moves : ∀ x s,∃ m : Turn α,queued (step x s)=order.move (queued s) m ∧
    shown x s=m.shown (queued s) ∧ ∀ a,m=.enter a → order.stamp a=time x

namespace Scheduler
variable {Input State : Type} (S : Scheduler Input State α)

def after (s : State) (xs : List Input) : State := xs.foldl (fun s x => S.step x s) s

/-- All that is shown from `s` on. -/
def history : State → List Input → Shown α
  | _,[] => {}
  | s,x::xs => (S.shown x s).append (history (S.step x s) xs)

theorem after_append (s : State) (xs : List Input) (x : Input) :
    S.after s (xs++[x])=S.step x (S.after s xs) := by
  rw [after,List.foldl_append]
  rfl

theorem history_append (s : State) (xs : List Input) (x : Input) :
    S.history s (xs++[x])=(S.history s xs).append (S.shown x (S.after s xs)) := by
  induction xs generalizing s with
  | nil => simp [history,after,Shown.append]
  | cons y xs ih => simp [history,ih,after,Shown.append]

theorem mem_move {m : Turn α} {x : α} (h : x∈o.move q m) : x∈q ∨ m=.enter x := by
  cases m with
  | stay => exact .inl h
  | enter a =>
    rcases List.mem_append.mp ((enter_perm _ _ _).mem_iff.mp h) with h | h
    · exact .inl h
    · exact .inr (by rw [List.mem_singleton.mp h])
  | start i | remove i => exact .inl (List.mem_of_mem_eraseIdx h)

theorem stamp_time {s : State} (hs : S.queued s=[]) (xs : List Input) {a : α}
    (ha : a∈S.queued (S.after s xs)) : S.order.stamp a∈xs.map S.time := by
  induction xs using List.reverseRecOn with
  | nil =>
    rw [after,List.foldl_nil,hs] at ha
    cases ha
  | append_singleton xs e ih =>
    obtain ⟨m,hq,-,hm⟩:=S.moves e (S.after s xs)
    rw [after_append,hq] at ha
    rw [List.map_append]
    rcases mem_move ha with ha | ha
    · exact List.mem_append_left _ (ih ha)
    · rw [hm a ha]
      exact List.mem_append_right _ List.mem_cons_self

theorem kept {s : State} (hs : S.queued s=[]) (xs : List Input)
    (hclock : (xs.map S.time).Pairwise (· ≤ ·)) :
    ∃ L,Roster.Kept S.order L (S.queued (S.after s xs)) (S.history s xs) := by
  induction xs using List.reverseRecOn with
  | nil => exact ⟨⟨[],[],[]⟩,hs.symm,.nil,List.Perm.refl _,rfl,rfl⟩
  | append_singleton xs e ih =>
    rw [List.map_append,List.pairwise_append] at hclock
    obtain ⟨L,hL⟩:=ih hclock.1
    obtain ⟨m,hq,hshown,hm⟩:=S.moves e (S.after s xs)
    rw [after_append,history_append,hq,hshown]
    refine hL.move m fun a ha x hx => ?_
    rw [hm a ha]
    exact hclock.2.2 _ (S.stamp_time hs xs hx) _ List.mem_cons_self

/- The entry with number `k` waits in `L` and is eligible; whoever else is eligible has a
lower priority, or the same and came later. -/
def FirstServed (o : Order α) (L : List (Nat × α)) (eligible : α → Bool) (k : Nat) (t : α) : Prop :=
  (k,t)∈L ∧ eligible t=true ∧ ∀ y∈L,eligible y.2=true →
    o.priority y.2 < o.priority t ∨ (o.priority y.2=o.priority t ∧ k ≤ y.1)

theorem first_served {L : List (Nat × α)} (hL : L.Pairwise (Precedes o)) {eligible : α → Bool}
    {i : Nat} {t : α} (hi : (L.map Prod.snd).findIdx? eligible=some i)
    (ht : (L.map Prod.snd)[i]?=some t) : ∃ k,FirstServed o L eligible k t := by
  rw [List.findIdx?_map] at hi
  rw [List.getElem?_map] at ht
  obtain ⟨⟨k,t'⟩,hx,rfl⟩ := Option.map_eq_some_iff.mp ht
  obtain ⟨hp,hbest⟩ := precedes_of_findIdx hL hi hx
  refine ⟨k,List.mem_of_getElem? hx,hp,fun y hy he => ?_⟩
  rcases hbest y hy he with rfl | h | ⟨h,hk,-⟩
  · exact .inr ⟨rfl,Nat.le_refl _⟩
  · exact .inl h
  · exact .inr ⟨h.symm,hk.le⟩

/-- With numbers as they came, the entries that wait, those shown as started and those shown as
removed are together all that came, and what starts next is served first. -/
def Orderly (s : State) (h : Shown α) (eligible : α → Bool) (starts : α → Prop) : Prop :=
  ∃ queued started removed : List (Nat × α),
    queued.map Prod.snd=S.queued s ∧ started.map Prod.snd=h.started.reverse ∧
      removed.map Prod.snd=h.removed.reverse ∧
      (queued++started++removed).Perm (numbered h.came) ∧
      ∀ t,starts t → ∃ k,FirstServed S.order queued eligible k t

theorem orderly {s : State} (hs : S.queued s=[]) (xs : List Input)
    (hclock : (xs.map S.time).Pairwise (· ≤ ·)) {eligible : α → Bool} {starts : α → Prop}
    (hstarts : ∀ t,starts t → ∃ i,(S.queued (S.after s xs)).findIdx? eligible=some i ∧
      (S.queued (S.after s xs))[i]?=some t) :
    S.Orderly (S.after s xs) (S.history s xs) eligible starts := by
  obtain ⟨L,hk⟩:=S.kept hs xs hclock
  refine ⟨_,_,_,hk.line,hk.started,hk.removed,hk.placed,fun t ht => ?_⟩
  obtain ⟨i,hi,ht⟩:=hstarts t ht
  rw [← hk.line] at hi ht
  exact first_served hk.ordered hi ht

end Scheduler
end Lib.Line
