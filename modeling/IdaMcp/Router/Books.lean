import IdaMcp.Router.Changes

/-!
# Registered requests and what is sent to them

One change of `RouterInner` against the list of requests registered so far and
the list of answers sent so far.
-/

namespace Router
open Lib (Map)
variable {h : DbHandle} {w : WorkerProcess}

/-- The cause is the answer line of that worker with that id, or the drain of that worker. -/
def Cause.Answers (c : Cause) (g : Registration) : Prop :=
  c=.line g.handle g.id ∨ c=.stdoutClosed g.handle ∨ c=.stdoutFailed g.handle ∨
    c=.workerClosed g.handle

structure Books (reg : List Registration) (sent : List Delivery) (s : RouterInner) : Prop where
  pending : ∀ h w id c, s.workers.get h=some w → w.pending.get id=some c → ⟨h,id,c⟩∈reg
  waiting : ∀ h w id c, s.workers.get h=some w → w.pending.get id=some c →
    c∉sent.map Delivery.chan
  caused : ∀ d∈sent, ∃ g∈reg, g.chan=d.chan ∧ d.cause.Answers g
  once : (sent.map Delivery.chan).Nodup

/-- Each channel belongs to one request. -/
def OneEach (reg : List Registration) : Prop := ∀ g∈reg, ∀ k∈reg, g.chan=k.chan → g=k

namespace Books
variable {reg : List Registration} {sent : List Delivery} {s t : RouterInner}

theorem new : Books [] [] .new :=
  ⟨fun _ _ _ _ h => (by cases h),fun _ _ _ _ h => (by cases h),fun _ h => (by cases h),.nil⟩

variable (hb : Books reg sent s)
include hb

/-- Nothing is registered or sent, and every pending entry was one before. -/
theorem shrink (h : ∀ x w id c, t.workers.get x=some w → w.pending.get id=some c →
      ∃ v, s.workers.get x=some v ∧ v.pending.get id=some c) : Books reg sent t where
  pending x w id c hw hc := by
    obtain ⟨v,hv,hp⟩:=h x w id c hw hc
    exact hb.pending x v id c hv hp
  waiting x w id c hw hc := by
    obtain ⟨v,hv,hp⟩:=h x w id c hw hc
    exact hb.waiting x v id c hv hp
  caused := hb.caused
  once := hb.once

theorem pended {g : Registration}
    (h : ∀ x w id c, t.workers.get x=some w → w.pending.get id=some c →
      (∃ v, s.workers.get x=some v ∧ v.pending.get id=some c) ∨ ⟨x,id,c⟩∈[g])
    (hnew : ∀ k∈reg, k.chan≠g.chan) : Books (g::reg) sent t where
  pending x w id c hw hc := by
    rcases h x w id c hw hc with ⟨v,hv,hp⟩ | hg
    · exact List.mem_cons_of_mem _ (hb.pending x v id c hv hp)
    · rw [List.mem_singleton.mp hg]; exact List.mem_cons_self
  waiting x w id c hw hc := by
    rcases h x w id c hw hc with ⟨v,hv,hp⟩ | hg
    · exact hb.waiting x v id c hv hp
    · intro hm
      obtain ⟨d,hd,he⟩:=List.mem_map.mp hm
      obtain ⟨k,hk,hkc,-⟩:=hb.caused d hd
      have hgc : g.chan=c := by rw [← List.mem_singleton.mp hg]
      exact hnew k hk (by rw [hkc,he,hgc])
  caused d hd := by
    obtain ⟨k,hk,hr⟩:=hb.caused d hd
    exact ⟨k,List.mem_cons_of_mem _ hk,hr⟩
  once := hb.once

/-- Answers `ds` go out, to pairwise different pending entries, and those entries go. -/
theorem answer {ds : List Delivery}
    (hds : ∀ d∈ds, ∃ h w id, s.workers.get h=some w ∧ w.pending.get id=some d.chan ∧
      d.cause.Answers ⟨h,id,d.chan⟩) (honce : (ds.map Delivery.chan).Nodup)
    (h : ∀ x w id c, t.workers.get x=some w → w.pending.get id=some c →
      c∉ds.map Delivery.chan ∧ ∃ v, s.workers.get x=some v ∧ v.pending.get id=some c) :
    Books reg (ds++sent) t where
  pending x w id c hw hc := by
    obtain ⟨-,v,hv,hp⟩:=h x w id c hw hc
    exact hb.pending x v id c hv hp
  waiting x w id c hw hc := by
    obtain ⟨hn,v,hv,hp⟩:=h x w id c hw hc
    simp only [List.map_append,List.mem_append,not_or]
    exact ⟨hn,hb.waiting x v id c hv hp⟩
  caused d hd := by
    rcases List.mem_append.mp hd with hd | hd
    · obtain ⟨x,w,id,hw,hp,ha⟩:=hds d hd
      exact ⟨⟨x,id,d.chan⟩,hb.pending x w id d.chan hw hp,rfl,ha⟩
    · exact hb.caused d hd
  once := by
    rw [List.map_append,List.nodup_append]
    refine ⟨honce,hb.once,fun a ha b hbm hab => ?_⟩
    subst hab
    obtain ⟨d,hd,rfl⟩:=List.mem_map.mp ha
    obtain ⟨x,w,id,hw,hp,-⟩:=hds d hd
    exact hb.waiting x w id d.chan hw hp hbm

/-- Two pending entries with one channel are the same entry. -/
theorem entry_unique (hone : OneEach reg) {x : DbHandle} {v : WorkerProcess} {id i : ReqId}
    {c : Chan} (hw : s.workers.get h=some w) (hc : w.pending.get id=some c)
    (hv : s.workers.get x=some v) (hi : v.pending.get i=some c) : x=h ∧ i=id := by
  have he:=hone _ (hb.pending x v i c hv hi) _ (hb.pending h w id c hw hc) rfl
  cases he
  exact ⟨rfl,rfl⟩

theorem answered (hone : OneEach reg) {id : ReqId} {c : Chan} {a : Answer}
    (hw : s.workers.get h=some w)
    (hc : w.pending.get id=some c) : Books reg ([⟨c,.line h id,a⟩]++sent)
      (s.putWorker h {w with pending := w.pending.remove id}) := by
  refine hb.answer ?_ (by simp) fun x v i b hv hb' => ?_
  · intro d hd
    obtain rfl:=List.mem_singleton.mp hd
    exact ⟨h,w,id,hw,hc,.inl rfl⟩
  · simp only [RouterInner.putWorker,Map.get_insert] at hv
    split at hv
    · next hx =>
      subst hx
      cases hv
      simp only [Map.get_remove] at hb'
      split at hb'
      · cases hb'
      · next hi =>
        refine ⟨fun hm => ?_,w,hw,hb'⟩
        obtain rfl : b=c := by simpa using hm
        exact hi (hb.entry_unique hone hw hc hw hb').2
    · next hx =>
      refine ⟨fun hm => ?_,v,hv,hb'⟩
      obtain rfl : b=c := by simpa using hm
      exact hx (hb.entry_unique hone hw hc hv hb').1

theorem drained (hone : OneEach reg) {cause : Cause} {ends : List DbHandle} {message : String}
    {pick : Nat} (hw : s.workers.get h=some w) (hd : Drained h cause ends) :
    Books reg (RouterInner.drain w cause message++sent) (s.without h w pick) := by
  have hans (id : ReqId) (c : Chan) : cause.Answers ⟨h,id,c⟩ := by
    cases hd
    · exact .inr (.inl rfl)
    · exact .inr (.inr (.inl rfl))
    · exact .inr (.inr (.inr rfl))
  have hmap : (RouterInner.drain w cause message).map Delivery.chan=
      w.pending.entries.map Sigma.snd := by
    simp [RouterInner.drain,Function.comp_def]
  refine hb.answer ?_ ?_ fun x v i b hv hb' => ?_
  · intro d hm
    obtain ⟨e,he,rfl⟩:=List.mem_map.mp hm
    exact ⟨h,w,e.1,hw,(w.pending.get_eq_some_iff e.1 e.2).mpr he,hans _ _⟩
  · -- distinct ids stand for distinct channels
    rw [hmap]
    have hn : (w.pending.entries.map Sigma.fst).Nodup := w.pending.nodupKeys
    refine List.Nodup.map_on ?_ (List.Nodup.of_map _ hn)
    intro e he k hk hek
    have h1:=(w.pending.get_eq_some_iff e.1 e.2).mpr he
    have h2:=(w.pending.get_eq_some_iff k.1 k.2).mpr hk
    rw [hek] at h1
    have hid:=(hb.entry_unique hone hw h2 hw h1).2
    exact Sigma.ext hid (heq_of_eq hek)
  · rw [RouterInner.without_workers,Map.get_remove] at hv
    split at hv
    · cases hv
    · next hx =>
      refine ⟨fun hm => ?_,v,hv,hb'⟩
      rw [hmap] at hm
      obtain ⟨e,he,rfl⟩:=List.mem_map.mp hm
      exact hx (hb.entry_unique hone hw ((w.pending.get_eq_some_iff e.1 e.2).mpr he) hv hb').1

/-- Every change keeps the books, if a request is registered under a new channel. -/
theorem change {cfg : RouterConfig} {tr : Trace} (hone : OneEach reg) (hc : Change cfg s tr t)
    (hnew : ∀ g∈tr.registers, ∀ k∈reg, k.chan≠g.chan) :
    Books (tr.registers++reg) (tr.sends++sent) t := by
  have horigin : ∀ x w id c, t.workers.get x=some w → w.pending.get id=some c →
      (∃ v, s.workers.get x=some v ∧ v.pending.get id=some c) ∨ ⟨x,id,c⟩∈tr.registers :=
    fun _ _ _ _ => hc.pending_origin
  cases hc with
  | pended => exact hb.pended horigin (hnew _ (List.mem_singleton_self _))
  | answered hw hc => exact hb.answered hone hw hc
  | removed hw hd => exact hb.drained hone hw hd
  | _ =>
    refine hb.shrink fun x w id c hw hc => ?_
    rcases horigin x w id c hw hc with h | h
    · exact h
    · cases h

end Books

end Router
