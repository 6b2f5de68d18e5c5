import IdaMcp.Router.Registry

/-!
# References belong to workers

`issue_ref_for_handle` does not look at `workers`. A reference is given to a
worker that is there as long as nobody removes a worker that another task has
picked for a reference.
-/

namespace Router
open Lib (Map Monitor Holds Fired)

def RouterInner.HasWorker (s : RouterInner) (h : DbHandle) : Prop := ∃ w, s.workers.get h=some w

/-- The handles that tasks other than `i` have picked for a reference. -/
def targetsBesides (p : Service) (i : Nat) : List DbHandle :=
  (p.tasks.eraseIdx i).filterMap (targetMonitor.track fun _ => none)

def Spares (p : Service) (l : Move) : Prop := match l with
  | .run i ⟨.inner o,_⟩ => ∀ h∈o.removes, h∉targetsBesides p i
  | _ => True

instance (p : Service) (l : Move) : Decidable (Spares p l) := by
  unfold Spares
  split <;> infer_instance

/-- Fresh handles and tokens, and no step removes what another task has picked. -/
def Careful (p : Service) (l : Move) : Prop := Fresh p l ∧ Spares p l

instance (p : Service) (l : Move) : Decidable (Careful p l) :=
  inferInstanceAs (Decidable (Fresh p l ∧ Spares p l))

/-- Every key of `ref_tokens` is a worker. -/
def RefsAlive (s : RouterInner) : Prop := ∀ h ts, s.refTokens.get h=some ts → s.HasWorker h

theorem RefsAlive.change {cfg : RouterConfig} {s t : RouterInner} {tr : Trace} (hg : RefsAlive s)
    (hr : Registry s) (hc : Change cfg s tr t) (hd : ∀ h∈tr.direct, s.HasWorker h) :
    RefsAlive t := by
  -- a worker that is not removed is still there
  have hstays {x : DbHandle} (hx : s.HasWorker x) (hn : x∉tr.removes) : t.HasWorker x := by
    obtain ⟨w,hw⟩:=hx
    exact (hc.worker_stays hw).resolve_right hn
  intro x ts hx
  cases hc with
  | same | ticked | named | gone | unbound => exact hg x ts hx
  | pended | answered | touched => exact hstays (hg x ts hx) List.not_mem_nil
  | @reused key h u hk =>
    simp only [RouterInner.tick,RouterInner.bindToken,Map.get_insert] at hx
    split at hx
    · next he => rw [he]; exact hr.path_worker hk
    · exact hg x ts hx
  | @issued h u =>
    simp only [RouterInner.tick,RouterInner.bindToken,Map.get_insert] at hx
    split at hx
    · next he => exact he ▸ hd h (List.mem_singleton_self _)
    · exact hg x ts hx
  | registered =>
    simp only [RouterInner.register,RouterInner.tick,Map.get_insert] at hx
    split at hx
    · next he => exact he ▸ ⟨_,Map.get_insert_self _ _ _⟩
    · exact hstays (hg x ts hx) List.not_mem_nil
  | @removed h w cause ends message pick hw _ =>
    rw [RouterInner.without_refTokens] at hx
    obtain ⟨us,hus⟩:=(Known.dropTokens_le s h).1 x ts hx
    refine hstays (hg x us hus) fun hm => ?_
    rw [List.mem_singleton.mp hm] at hx
    rw [RouterInner.dropTokens_refTokens_self] at hx
    cases hx
  | @orphaned h pick hw =>
    rw [RouterInner.repoint_refTokens] at hx
    obtain ⟨us,hus⟩:=(Known.dropTokens_le s h).1 x ts hx
    obtain ⟨w,hw⟩:=hg x us hus
    exact ⟨w,by simpa using hw⟩
  | @released u h us hu hus =>
    simp only [Map.get_insert] at hx
    split at hx
    · next he => exact he ▸ hg h us hus
    · exact hg x ts hx

theorem targets_alive (cfg : RouterConfig) {p : Service}
    (hr : (service cfg).Reach Careful (.new cfg) p) :
    Holds targetMonitor (fun _ => none) (fun s => RefsAlive s.inner)
      (fun s _ _ m => ∀ h, m=some h → s.inner.HasWorker h) p := by
  refine Lib.reach_holds (service cfg) targetMonitor (fun _ => none) Careful (fun _ m => m=none)
    (fun c => Targets.body c none rfl) (fun _ _ _ _ _ _ => trivial) (fun _ _ h => (by cases h))
    (fun _ _ _ _ _ _ _ h => (by cases h)) ?_ ?_
    (fun _ _ _ _ _ _ _ _ _ _ _ _ _ _ _ h => (by cases h)) hr
  · intro p i t op env r s hp hi hf
    have hreg:=(registry_holds cfg (fun _ _ h => h.1) hp).1.1
    have hme:=hi.2 i t hf.task
    by_cases ho : ∃ o, op=.inner o
    · obtain ⟨o,rfl⟩:=ho
      obtain ⟨sends,inner,hc,rfl⟩:=exec_inner cfg hf.exec
      have hstays {h : DbHandle} (hw : p.state.inner.HasWorker h) (hn : h∉o.removes) :
          inner.HasWorker h := by
        obtain ⟨w,hw⟩:=hw
        exact (hc.worker_stays hw).resolve_right hn
      refine ⟨hi.1.change hreg hc fun h hh => ?_,fun h hn => ?_⟩
      · cases o with
        | issueRef x =>
          rw [List.mem_singleton.mp hh]
          exact hme x hf.allowed
        | _ => cases hh
      · rcases target_origin hf.exec hf.allowed hn with ⟨hm,hnr⟩ | ⟨hnil,⟨key,hk⟩ | hmade⟩
        · exact hstays (hme h hm) hnr
        · exact hstays (hreg.path_worker hk) (by rw [hnil]; exact List.not_mem_nil)
        · exact hc.made_there h hmade
    · have hs:=exec_outer cfg hf.exec fun o he => ho ⟨o,he⟩
      refine ⟨by rw [hs.inner]; exact hi.1,fun h hn => ?_⟩
      rw [hs.inner]
      refine hme h ?_
      cases op with
      | inner o => exact absurd ⟨o,rfl⟩ ho
      | _ => exact hn
  · intro p i t op env r s j u _ hi hf hji hu h hh
    have hyou:=hi.2 j u hu h hh
    by_cases ho : ∃ o, op=.inner o
    · obtain ⟨o,rfl⟩:=ho
      obtain ⟨sends,inner,hc,rfl⟩:=exec_inner cfg hf.exec
      obtain ⟨w,hw⟩:=hyou
      refine (hc.worker_stays hw).resolve_right fun hm => ?_
      -- the handle is the target of task `j`
      refine hf.cond.2 h hm (List.mem_filterMap.mpr ⟨u,?_,hh⟩)
      exact List.mem_eraseIdx_iff_getElem?.mpr ⟨j,hji,hu⟩
    · rw [(exec_outer cfg hf.exec fun o he => ho ⟨o,he⟩).inner]
      exact hyou

/-- The worker for which the task stands at `issue_ref_for_handle`. -/
def issuing? (t : Lib.Task Op.Res Job) : Option DbHandle := match t.prog with
  | .call (.inner (.issueRef h)) _ => some h
  | _ => none

structure NoDeadRefs (p : Service) : Prop where
  issuing : ∀ (i : Nat) t h, p.tasks[i]?=some t → issuing? t=some h → p.state.inner.HasWorker h
  refs : ∀ h ts, p.state.inner.refTokens.get h=some ts → p.state.inner.HasWorker h
  tokens : ∀ t h, p.state.inner.tokenToHandle.get t=some h → p.state.inner.HasWorker h

/-- As long as nobody removes a worker that another task has picked for a reference, tokens
are issued for workers that are there, and every referenced handle is a worker. -/
theorem no_dead_refs (cfg : RouterConfig) {p : Service}
    (hr : (service cfg).Reach Careful (.new cfg) p) : NoDeadRefs p := by
  have ha:=targets_alive cfg hr
  have hreg:=(registry_holds cfg (fun _ _ h => h.1) hr).1.1
  refine ⟨fun i t h ht hn => ?_,ha.1,fun t h ht => ?_⟩
  · have hc:=Lib.conforms (service cfg) targetMonitor (fun _ => none) Careful (fun _ m => m=none)
      (fun c => Targets.body c none rfl) (fun _ _ _ _ _ _ => trivial) hr i t ht
    unfold issuing? at hn
    split at hn
    · next x k hp =>
      cases hn
      rw [hp,Monitor.wp_call] at hc
      exact ha.2 i t ht h hc.1
    · cases hn
  · obtain ⟨ts,hts,-⟩:=(hreg.tokens t h).mp ht
    exact ha.1 h ts hts

/-- A CLI request for a path that is already open; `between` happens after its lookup and
before it takes its reference. -/
def cliReference (between : List (Lib.Act Job Env)) : List (Lib.Act Job Env) :=
  .start (.openIdb (openRequest "/a"))::steps 0 (idles 2++spawnInputs "/a" 1)++
    .start (.cli "list_functions" (.obj [("path",.str "/a")]))::
    steps 2 (idles 1++{path := "/a"}::{canonical := some "/a"}::{path := "/a"}::
      {canonical := some "/a"}::idles 3)++between++steps 2 (idles 1++{now := 2}::idles 1)

theorem no_dead_refs_cli :
    ∃ p, (service sampleConfig).Reach Careful (.new sampleConfig) p ∧
      p.state.inner.refCount "0000000000000001"=2 ∧ NoDeadRefs p := by
  obtain ⟨p,hp,ht⟩:=(service sampleConfig).play_when Careful (.new sampleConfig) (cliReference [])
    (fun p => p.state.inner.refCount "0000000000000001"=2) (by decide)
  exact ⟨p,hp,of_decide_eq_true ht,no_dead_refs sampleConfig hp⟩

/-- The worker's stdout closes after the lookup: the token is issued for a worker that is
gone, and stays in both maps. -/
theorem reference_to_dead_worker :
    ∃ p, (service sampleConfig).Reach Fresh (.new sampleConfig) p ∧
      p.state.inner.refCount "0000000000000001"=1 ∧ ¬NoDeadRefs p := by
  obtain ⟨p,hp,ht⟩:=(service sampleConfig).play_when Fresh (.new sampleConfig)
    (cliReference (steps 1 ({rounds := 1}::{line := .closed}::idles 3)))
    (fun p => (p.state.inner.refTokens.get "0000000000000001").isSome &&
      (p.state.inner.workers.get "0000000000000001").isNone &&
      p.state.inner.refCount "0000000000000001"=1) (by decide)
  simp only [Bool.and_eq_true] at ht
  refine ⟨p,hp,of_decide_eq_true ht.2,fun hn => ?_⟩
  obtain ⟨ts,hts⟩:=Option.isSome_iff_exists.mp ht.1.1
  obtain ⟨w,hw⟩:=hn.refs _ ts hts
  have hnone:=ht.1.2
  rw [hw] at hnone
  cases hnone

end Router
