import IdaMcp.Router.Purse
import IdaMcp.Router.Registry

/-!
# References that the server takes for itself come back

A token that an operation took stays in `ref_tokens` only as long as the operation
holds it, has handed it to a release task, or has left it with the warm pool.
-/

namespace Router
open Lib (Map Monitor Holds Fired)
variable {u : Token} {p : Service}

namespace RouterInner
variable {s : RouterInner} {t : Token}

def Referenced (s : RouterInner) (t : Token) : Prop := ∃ h, t∈s.refs h

theorem referenced_iff : (s.refTokens.entries.any fun e => t∈e.2)=true ↔ s.Referenced t := by
  simp only [List.any_eq_true,decide_eq_true_eq]
  constructor
  · rintro ⟨e,he,ht⟩
    refine ⟨e.1,?_⟩
    rw [refs,(Map.get_eq_some_iff _ _ _).mpr he]
    exact ht
  · rintro ⟨h,ht⟩
    unfold refs at ht
    cases hg : s.refTokens.get h with
    | none => rw [hg] at ht; cases ht
    | some ts =>
      rw [hg] at ht
      exact ⟨⟨h,ts⟩,(Map.get_eq_some_iff _ _ _).mp hg,ht⟩

instance (s : RouterInner) (t : Token) : Decidable (s.Referenced t) :=
  decidable_of_iff _ referenced_iff

end RouterInner

theorem Registry.referenced {s : RouterInner} (hr : Registry s) {t : Token} {h : DbHandle}
    (ht : t∈s.refs h) : s.tokenToHandle.get t=some h := by
  rw [hr.tokens]
  unfold RouterInner.refs at ht
  cases hg : s.refTokens.get h with
  | none => rw [hg] at ht; cases ht
  | some ts => rw [hg] at ht; exact ⟨ts,rfl,ht⟩

theorem Registry.release_clears {s : RouterInner} (hr : Registry s) (t : Token) :
    ¬(s.releaseRefToken t).2.Referenced t := by
  rintro ⟨x,hx⟩
  unfold RouterInner.releaseRefToken at hx
  split at hx
  · next hn =>
    rw [hr.referenced hx] at hn
    cases hn
  · next h hh =>
    obtain ⟨ts,hts,-⟩:=(hr.tokens t h).mp hh
    simp only [hts] at hx
    by_cases hxh : x=h
    · subst hxh
      simp [RouterInner.refs] at hx
    · have hx' : t∈s.refs x := by simpa [RouterInner.refs,Map.get_insert,hxh] using hx
      have hs:=hr.referenced hx'
      rw [hh] at hs
      exact hxh (Option.some.inj hs).symm

theorem Change.referenced_before {cfg : RouterConfig} {s t : RouterInner} {tr : Trace}
    (hc : Change cfg s tr t) (hn : ∀ x∈tr.issued, x.2≠u) (hu : t.Referenced u) :
    s.Referenced u := by
  obtain ⟨h,hh⟩:=hu
  rcases hc.refs_origin hh with hs | hi
  · exact ⟨h,hs⟩
  · exact absurd rfl (hn _ hi)

namespace Purse

def In (t : Token) (x : Purse) : Prop := t∈x.held ∨ t∈x.handed ∨ t∈x.lent

theorem Empty.not_in {t : Token} {x : Purse} (h : x.Empty) : ¬x.In t := by
  obtain ⟨h1,h2,h3⟩:=h
  simp [In,h1,h2,h3]

theorem In.drop {t : Token} {x : Purse} (h : x.In t) (hu : t≠u) : (x.drop u).In t :=
  h.imp_left fun hm => List.mem_filter.mpr ⟨hm,by simpa using hu⟩

/-- What one step can do to a purse. -/
inductive Moved (x : Purse) (op : Op) (r : op.Res) : Purse → Prop
  | lost : requestFailed ⟨op,r⟩=true → Moved x op r x.lose
  | delivered : Moved x op r x.deliver
  | issued : Moved x op r {x with held := issuedTo ⟨op,r⟩++x.held}
  | released {t : Token} {b : Bool} : op=.inner (.releaseRefToken t b) → Moved x op r (x.drop t)
  | handed {t : Token} : op=.spawn (.releaseRef t) →
      Moved x op r {x.drop t with handed := t::x.handed}
  | lent {t : Token} : Moved x op r {x.drop t with lent := t::x.lent}

theorem next_moved (x : Purse) (op : Op) (r : op.Res) : Moved x op r (x.next ⟨op,r⟩) := by
  by_cases hf : requestFailed ⟨op,r⟩=true
  · rw [show x.next ⟨op,r⟩=x.lose from if_pos hf]
    exact .lost hf
  cases op with
  | receive c =>
    rw [show x.next _=x.deliver from if_neg hf]
    exact .delivered
  | inner o => cases o with
    | releaseRefToken u b => exact .released rfl
    | routeTarget | routeRegister =>
      rw [show x.next _=x from if_neg hf]
      exact .issued
    | _ => exact .issued
  | spawn job => cases job with
    | releaseRef u => exact .handed rfl
    | _ => exact .issued
  | warm o => cases o with
    | insert => exact .lent
    | _ => exact .issued
  | _ => exact .issued

theorem deliver_tokens (x : Purse) :
    x.deliver.held=x.held ∧ x.deliver.handed=x.handed ∧ x.deliver.lent=x.lent := by
  unfold deliver
  split <;> exact ⟨rfl,rfl,rfl⟩

theorem lose_tokens (x : Purse) : x.lose.handed=x.handed ∧ x.lose.lent=x.lent ∧
    ((x.strict=true ∧ x.lose.held=[]) ∨ x.lose.held=x.held) := by
  unfold lose
  split
  · next hs => exact ⟨rfl,rfl,.inl ⟨hs,rfl⟩⟩
  · exact ⟨rfl,rfl,.inr rfl⟩

section Next
variable {x y : Purse} {op : Op} {r : op.Res} {t : Token}

theorem Moved.stays (hm : Moved x op r y) (h : x.In t) :
    y.In t ∨ (requestFailed ⟨op,r⟩=true ∧ x.strict=true ∧ t∈x.held) ∨
      ∃ b, op=.inner (.releaseRefToken t b) := by
  cases hm with
  | lost hf =>
    obtain ⟨hh,hl,hheld⟩:=x.lose_tokens
    rcases h with h | h
    · rcases hheld with ⟨hs,-⟩ | he
      · exact .inr (.inl ⟨hf,hs,h⟩)
      · exact .inl (.inl (by rw [he]; exact h))
    · exact .inl (.inr (by rw [hh,hl]; exact h))
  | delivered =>
    obtain ⟨h1,h2,h3⟩:=x.deliver_tokens
    exact .inl (by rw [In,h1,h2,h3]; exact h)
  | issued => exact .inl (h.imp_left fun hm => List.mem_append_right _ hm)
  | @released u b ho =>
    by_cases hu : t=u
    · exact .inr (.inr ⟨b,by rw [hu]; exact ho⟩)
    · exact .inl (h.drop hu)
  | @handed u ho =>
    by_cases hu : t=u
    · exact .inl (.inr (.inl (hu ▸ List.mem_cons_self)))
    · exact .inl ((h.drop hu).imp_right (Or.imp_left fun hm => List.mem_cons_of_mem _ hm))
  | @lent u =>
    by_cases hu : t=u
    · exact .inl (.inr (.inr (hu ▸ List.mem_cons_self)))
    · exact .inl ((h.drop hu).imp_right (Or.imp_right fun hm => List.mem_cons_of_mem _ hm))

theorem Moved.held (hm : Moved x op r y) (h : t∈y.held) : t∈issuedTo ⟨op,r⟩ ∨ t∈x.held := by
  cases hm with
  | lost =>
    rcases x.lose_tokens.2.2 with ⟨-,he⟩ | he
    · rw [he] at h; cases h
    · exact .inr (he ▸ h)
  | delivered => exact .inr (x.deliver_tokens.1 ▸ h)
  | issued => exact List.mem_append.mp h
  | released | handed | lent => exact .inr (List.mem_of_mem_filter h)

theorem Moved.handedOver (hm : Moved x op r y) (h : t∈y.handed) :
    t∈x.handed ∨ op=.spawn (.releaseRef t) := by
  cases hm with
  | lost => exact .inl (x.lose_tokens.1 ▸ h)
  | delivered => exact .inl (x.deliver_tokens.2.1 ▸ h)
  | handed ho =>
    rcases List.mem_cons.mp h with rfl | h
    · exact .inr ho
    · exact .inl h
  | issued | released | lent => exact .inl h

theorem next_takes (h : t∈issuedTo ⟨op,r⟩) : t∈(x.next ⟨op,r⟩).held := by
  cases op with
  | inner o => cases o with
    | spawnLookup | spawnRegister | issueRef => exact List.mem_append_left _ h
    | _ => cases h
  | _ => cases h

end Next

end Purse

def takingOf (t : Lib.Task Op.Res Job) : Taking := purseMonitor.track Purse.start t

/-- The tokens that are lost if the request of task `i` fails now. -/
def atStake (p : Service) (i : Nat) : List Token := match p.tasks[i]? with
  | some t => if (takingOf t).purse.strict then (takingOf t).purse.held else []
  | none => []

/-- Where a request fails that a queued task or `open_idb_routed` took its token for, the
worker is gone already and the token with it. -/
def NoLoss (p : Service) (l : Move) : Prop := match l with
  | .run i e => requestFailed e=true → ∀ t∈atStake p i, ¬p.state.inner.Referenced t
  | .start _ => True

instance (p : Service) (l : Move) : Decidable (NoLoss p l) := by
  unfold NoLoss
  split <;> infer_instance

def Returning (p : Service) (l : Move) : Prop := Fresh p l ∧ NoLoss p l

instance (p : Service) (l : Move) : Decidable (Returning p l) :=
  inferInstanceAs (Decidable (Fresh p l ∧ NoLoss p l))

/-- Where the tokens of a task are. -/
structure Accounted (s : Shared) (m : Taking) : Prop where
  taken : ∀ t∈m.taken, t∈s.tokens
  held : ∀ t∈m.purse.held, t∈m.taken
  kept : ∀ t∈m.taken, s.inner.Referenced t → m.purse.In t

section Step
variable {cfg : RouterConfig} {i : Nat} {op : Op} {env : Env} {r : op.Res} {s t : Shared}

theorem exec_tokens (hx : exec cfg i op env s=some (r,t)) :
    t.tokens=issuedTo ⟨op,r⟩++s.tokens := by
  by_cases ho : ∃ o, op=.inner o
  · obtain ⟨o,rfl⟩:=ho
    obtain ⟨sends,inner,-,rfl⟩:=exec_inner cfg hx
    rfl
  · rw [(exec_outer cfg hx fun o he => ho ⟨o,he⟩).tokens]
    cases op with
    | inner o => exact absurd ⟨o,rfl⟩ ho
    | _ => rfl

theorem exec_referenced (hx : exec cfg i op env p.state=some (r,t))
    (hf : FreshTokens p (.run i ⟨op,r⟩)) (hu : u∈p.state.tokens)
    (hr : t.inner.Referenced u) : p.state.inner.Referenced u := by
  by_cases ho : ∃ o, op=.inner o
  · obtain ⟨o,rfl⟩:=ho
    obtain ⟨sends,inner,hc,rfl⟩:=exec_inner cfg hx
    exact hc.referenced_before (fun x hm he => hf x hm (he ▸ hu)) hr
  · rw [(exec_outer cfg hx fun o he => ho ⟨o,he⟩).inner] at hr
    exact hr

theorem Accounted.other {m : Taking} (ha : Accounted p.state m)
    (hx : exec cfg i op env p.state=some (r,t)) (hf : FreshTokens p (.run i ⟨op,r⟩)) :
    Accounted t m where
  taken u hu := by
    rw [exec_tokens hx]
    exact List.mem_append_right _ (ha.taken u hu)
  held := ha.held
  kept u hu hr := ha.kept u hu (exec_referenced hx hf (ha.taken u hu) hr)

theorem Accounted.self {m : Taking} (hreg : Registry p.state.inner) (ha : Accounted p.state m)
    (hx : exec cfg i op env p.state=some (r,t)) (hf : FreshTokens p (.run i ⟨op,r⟩))
    (hl : requestFailed ⟨op,r⟩=true → m.purse.strict=true →
      ∀ u∈m.purse.held, ¬p.state.inner.Referenced u) :
    Accounted t (purseMonitor.next m ⟨op,r⟩) where
  taken u hu := by
    rw [exec_tokens hx]
    rcases List.mem_append.mp hu with hu | hu
    · exact List.mem_append_left _ hu
    · exact List.mem_append_right _ (ha.taken u hu)
  held u hu := by
    rcases (m.purse.next_moved op r).held hu with hu | hu
    · exact List.mem_append_left _ hu
    · exact List.mem_append_right _ (ha.held u hu)
  kept u hu hr := by
    rcases List.mem_append.mp hu with hu | hu
    · exact .inl (Purse.next_takes hu)
    have hb:=exec_referenced hx hf (ha.taken u hu) hr
    rcases (m.purse.next_moved op r).stays (ha.kept u hu hb) with h | ⟨hq,hs,hh⟩ | ⟨b,rfl⟩
    · exact h
    · exact absurd hb (hl hq hs u hh)
    · cases hx
      exact absurd hr (hreg.release_clears u)

end Step

theorem Accounted.start {s : Shared} {job : Job} (h : ∀ t, job=.releaseRef t → t∈s.tokens) :
    Accounted s (Purse.start job) := by
  cases job with
  | releaseRef t =>
    refine ⟨fun u hu => ?_,fun u hu => hu,fun u hu _ => .inl hu⟩
    rw [List.mem_singleton.mp hu]
    exact h t rfl
  | _ => exact ⟨fun _ h => (by cases h),fun _ h => (by cases h),fun _ h => (by cases h)⟩

theorem accounts_hold (cfg : RouterConfig) (hr : (service cfg).Reach Returning (.new cfg) p) :
    Holds purseMonitor Purse.start (fun _ => True) (fun s _ _ m => Accounted s m) p := by
  refine Lib.reach_holds (service cfg) purseMonitor Purse.start Returning Purse.Done Purse.body
    (fun _ _ _ _ _ _ => trivial) trivial ?_ ?_ ?_ ?_ hr
  · intro p job _ _ he _
    refine .start fun t hj => ?_
    rw [hj] at he
    exact Bool.noConfusion (show false=true from he)
  · intro p i t op env r s hp hi hf
    have hreg:=(registry_holds cfg (fun _ _ h => h.1) hp).1.1
    refine ⟨trivial,(hi.2 i t hf.task).self hreg hf.exec hf.cond.1.2 fun hq hs u hu => ?_⟩
    refine hf.cond.2 hq u ?_
    simp only [atStake,hf.task]
    rw [if_pos (show (takingOf t).purse.strict=true from hs)]
    exact hu
  · intro p i t op env r s j u _ hi hf _ hu
    exact (hi.2 j u hu).other hf.exec hf.cond.1.2
  · intro p i t op env r s job j _ hi hf hj _
    refine .start fun u hu => ?_
    subst hu
    -- a release task is started only for a token that is held
    have hme:=hi.2 i t hf.task
    rw [exec_tokens hf.exec]
    cases op with
    | spawn child =>
      obtain rfl:=List.mem_singleton.mp hj
      exact List.mem_append_right _ (hme.taken u (hme.held u hf.allowed))
    | inner o =>
      obtain ⟨x,-,hx⟩:=List.mem_map.mp hj
      cases hx
    | _ => cases hj

theorem handed_released (cfg : RouterConfig) {C : Service → Move → Prop}
    (hr : (service cfg).Reach C (.new cfg) p) : ∀ (i : Nat) t, p.tasks[i]?=some t →
    ∀ u∈(takingOf t).purse.handed, ∃ c∈p.tasks, c.call=.releaseRef u := by
  have hnew (job : Job) (u : Token) : u∉(Purse.start job).purse.handed := by
    intro hu
    cases job <;> cases hu
  induction hr with
  | init => intro i t ht; simp at ht
  | @step p q l hp hs hc ih =>
    intro i t ht u hu
    have hold {j : Nat} {v : Lib.Task Op.Res Job} (hv : p.tasks[j]?=some v)
        (hm : u∈(takingOf v).purse.handed) : ∃ c∈q.tasks, c.call=.releaseRef u :=
      hs.call_stays (ih j v hv u hm)
    cases l with
    | start job =>
      cases hs with
      | start he =>
        rcases Lib.append_getElem? ht with ht | ⟨-,rfl⟩
        · exact hold ht hu
        · exact absurd hu (hnew job u)
    | run j e =>
      have hfork:=fun hm => hs.fork_starts (c := .releaseRef u) hm
      cases hs with
      | @run j v op k env r s hv hk hx =>
        rcases Lib.set_append_getElem? ht with ⟨-,-,rfl⟩ | ⟨-,ht⟩ | ⟨-,hm⟩
        · rcases ((takingOf v).purse.next_moved op r).handedOver hu with hu | rfl
          · exact hold hv hu
          · exact hfork (List.mem_singleton_self _)
        · exact hold ht hu
        · obtain ⟨job,-,rfl⟩:=List.mem_map.mp hm
          exact absurd hu (hnew job u)

theorem finished_done (cfg : RouterConfig) {C : Service → Move → Prop}
    (hr : (service cfg).Reach C (.new cfg) p) {i : Nat} {t : Lib.Task Op.Res Job}
    (ht : p.tasks[i]?=some t) (hf : t.prog.finished=true) : Purse.Done t.call (takingOf t) := by
  have hw:=Lib.conforms (service cfg) purseMonitor Purse.start C Purse.Done Purse.body
    (fun _ _ _ _ _ _ => trivial) hr i t ht
  cases hp : t.prog with
  | ret a => rw [hp] at hw; exact hw
  | halt | call => rw [hp] at hf; cases hf

theorem taken_grows (t : Lib.Task Op.Res Job) :
    ∀ u∈(Purse.start t.call).taken, u∈(takingOf t).taken := by
  intro u hu
  unfold takingOf Monitor.track
  induction t.log with
  | nil => exact hu
  | cons e es ih => exact List.mem_append_right _ ih

def Job.releases : Job → Option Token
  | .releaseRef t => some t
  | _ => none

/-- The operations that have ended, and for which token they must have given it back. -/
def Concluded (p : Service) (t : Lib.Task Op.Res Job) (u : Token) : Prop := match t.call with
  | .routeTask _ => True
  | .prewarmTask task => task.keepWarm=false
  -- the client got an error
  | .openIdb _ => (takingOf t).failed=true
  -- the release task of the guard has run
  | .cli method params => ¬(method="prewarm" ∧ boolParam params "keep_warm"=true) ∧
      ∀ c∈p.tasks, c.call.releases=some u → c.prog.finished=true
  | _ => False

instance (p : Service) (t : Lib.Task Op.Res Job) (u : Token) : Decidable (Concluded p t u) := by
  unfold Concluded
  split <;> infer_instance

/-- With fresh handles and tokens, and where a failing request finds its worker gone, no
token of an operation that has ended is in any worker's set. -/
theorem references_returned (cfg : RouterConfig) {p : Service} {t : Lib.Task Op.Res Job}
    {u : Token} (hr : (service cfg).Reach Returning (.new cfg) p) (ht : t∈p.tasks)
    (hf : t.prog.finished=true) (hu : u∈(takingOf t).taken) (he : Concluded p t u) :
    ¬p.state.inner.Referenced u := by
  intro href
  obtain ⟨i,hi⟩:=List.mem_iff_getElem?.mp ht
  have hdone:=finished_done cfg hr hi hf
  have hacc {j : Nat} {c : Lib.Task Op.Res Job} (hc : p.tasks[j]?=some c)
      (hu : u∈(takingOf c).taken) : (takingOf c).purse.In u :=
    ((accounts_hold cfg hr).2 j c hc).kept u hu href
  have hempty : ¬(takingOf t).purse.Empty := fun h => h.not_in (hacc hi hu)
  unfold Concluded at he
  cases hj : t.call with
  | routeTask task => rw [hj] at hdone; exact hempty hdone
  | prewarmTask task => rw [hj] at hdone he; exact hempty (hdone he)
  | openIdb req => rw [hj] at hdone he; exact hempty (hdone he)
  | cli method params =>
    rw [hj] at hdone he
    obtain ⟨-,hheld,hlent⟩:=hdone he.1
    have hhanded : u∈(takingOf t).purse.handed := by
      have hin:=hacc hi hu
      simpa [Purse.In,hheld,hlent] using hin
    -- the release task has run, and holds nothing any more
    obtain ⟨c,hc,hcj⟩:=handed_released cfg hr i t hi u hhanded
    obtain ⟨j,hjc⟩:=List.mem_iff_getElem?.mp hc
    have hcd:=finished_done cfg hr hjc (he.2 c hc (by rw [hcj]; rfl))
    have hcu : u∈(takingOf c).taken :=
      taken_grows c u (by rw [hcj]; exact List.mem_singleton_self _)
    rw [hcj] at hcd
    exact Purse.Empty.not_in hcd (hacc hjc hcu)
  | _ => rw [hj] at he; exact he

/-- The tokens of task `i` that it must have given back. -/
def due (p : Service) (i : Nat) : List Token := match p.tasks[i]? with
  | some t => if t.prog.finished then (takingOf t).taken.filter fun u => Concluded p t u else []
  | none => []

theorem mem_due {i : Nat} (h : u∈due p i) : ∃ t∈p.tasks,
    t.prog.finished=true ∧ u∈(takingOf t).taken ∧ Concluded p t u := by
  unfold due at h
  split at h
  · next t ht =>
    split at h
    · next hf =>
      obtain ⟨hu,hc⟩:=List.mem_filter.mp h
      exact ⟨t,List.mem_of_getElem? ht,hf,hu,of_decide_eq_true hc⟩
    · cases h
  · cases h

/-- A CLI request that fails, and the release task of its guard. -/
theorem references_returned_cli :
    ∃ p, (service sampleConfig).Reach Returning (.new sampleConfig) p ∧ "cli-2-1"∈due p 2 ∧
      ¬p.state.inner.Referenced "cli-2-1" := by
  obtain ⟨p,hp,ht⟩:=(service sampleConfig).play_when Returning (.new sampleConfig)
    (.start (.openIdb (openRequest "/a"))::steps 0 (idles 2++spawnInputs "/a" 1)++
      .start (.cli "list_functions" (.obj [("path",.str "/a")]))::
      steps 2 (idles 1++{path := "/a"}::{canonical := some "/a"}::{path := "/a"}::
        {canonical := some "/a"}::idles 4++{now := 2}::idles 9++{written := .pipeClosed}::idles 3)++
      steps 3 (idles 3))
    (fun p => "cli-2-1"∈due p 2) (by decide)
  have hd:=of_decide_eq_true ht
  obtain ⟨t,hm,hf,hu,hc⟩:=mem_due hd
  exact ⟨p,hp,hd,references_returned sampleConfig hp hm hf hu hc⟩

/-- Models `open_idb` whose open request fails: the client gets an error, and the token stays. -/
theorem open_error_keeps_reference :
    ∃ p, (service sampleConfig).Reach Fresh (.new sampleConfig) p ∧ "1-0-1"∈due p 0 ∧
      p.state.inner.Referenced "1-0-1" := by
  obtain ⟨p,hp,ht⟩:=(service sampleConfig).play_when Fresh (.new sampleConfig)
    (.start (.openIdb (openRequest "/a"))::steps 0 (idles 2++spawnInputs "/a" 1++idles 8++
      {written := .pipeClosed}::idles 2))
    (fun p => "1-0-1"∈due p 0 && p.state.inner.Referenced "1-0-1") (by decide)
  simp only [Bool.and_eq_true,decide_eq_true_eq] at ht
  exact ⟨p,hp,ht.1,ht.2⟩

end Router
