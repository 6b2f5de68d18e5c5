import IdaMcp.Router.Changes

/-!
# Admission limits

The check of each limit and the insertion it admits stand in one section, so no
interleaving can get past a limit; not even a repeated handle could.
-/

namespace Router
open Lib (Map)

structure Limits (cfg : RouterConfig) (s : RouterInner) : Prop where
  workers : s.workers.size ≤ cfg.maxWorkers
  tenant : ∀ tenant, s.tenantWorkers tenant ≤ cfg.maxWorkersPerTenant
  pending : ∀ h w, s.workers.get h=some w → w.pending.size ≤ cfg.maxPendingPerWorker
  tenantPending : ∀ tenant, s.tenantPending tenant ≤ cfg.maxPendingPerTenant

namespace Limits
variable {cfg : RouterConfig} {s : RouterInner}

theorem new : Limits cfg .new :=
  ⟨Nat.zero_le _,fun _ => Nat.zero_le _,fun _ _ h => (by cases h),fun _ => Nat.zero_le _⟩

/-- The limits are about `workers` only. -/
theorem congr {t : RouterInner} (hl : Limits cfg s) (h : t.workers=s.workers) : Limits cfg t := by
  refine ⟨?_,fun tenant => ?_,?_,fun tenant => ?_⟩
  · rw [h]; exact hl.workers
  · unfold RouterInner.tenantWorkers; rw [h]; exact hl.tenant tenant
  · rw [h]; exact hl.pending
  · unfold RouterInner.tenantPending; rw [h]; exact hl.tenantPending tenant

/-- A worker's new record of the same tenant: only the number of pending requests counts. -/
theorem putWorker {h : DbHandle} {w v : WorkerProcess} (hl : Limits cfg s)
    (hw : s.workers.get h=some w) (ht : v.tenantId=w.tenantId)
    (hp : v.pending.size ≤ cfg.maxPendingPerWorker)
    (hs : s.tenantPending w.tenantId+v.pending.size ≤ cfg.maxPendingPerTenant+w.pending.size) :
    Limits cfg (s.putWorker h v) := by
  refine ⟨?_,fun tenant => ?_,fun x u hu => ?_,fun tenant => ?_⟩
  · have h1:=hl.workers
    simp only [RouterInner.putWorker,Map.size_eq_sum,Map.sum_insert,Map.sum_of_get hw] at h1 ⊢
    exact h1
  · have h1:=hl.tenant tenant
    simp only [RouterInner.tenantWorkers,RouterInner.putWorker,Map.sum_insert,Map.sum_of_get hw,ht]
      at h1 ⊢
    exact h1
  · simp only [RouterInner.putWorker,Map.get_insert] at hu
    split at hu
    · cases hu; exact hp
    · exact hl.pending x u hu
  · have h1:=hl.tenantPending tenant
    simp only [RouterInner.tenantPending,RouterInner.putWorker,Map.sum_insert,Map.sum_of_get hw,ht]
      at h1 hs ⊢
    split
    · next he => subst he; simp only [ite_true] at hs; omega
    · next he => simp only [he,ite_false] at h1; omega

theorem change {tr : Trace} {t : RouterInner} (hl : Limits cfg s) (hc : Change cfg s tr t) :
    Limits cfg t := by
  cases hc with
  | same | gone => exact hl
  | ticked | named | reused | issued | released | unbound => exact hl.congr rfl
  | orphaned => exact hl.congr (by simp)
  | @registered key backend h token instant htenant hworkers _ =>
    refine ⟨?_,fun tenant => ?_,fun x u hu => ?_,fun tenant => ?_⟩
    · have h1:=s.workers.sum_insert_le h ⟨backend,key.tenantId,∅,some token,some key.path,instant⟩
        fun _ => 1
      simp only [Map.size_eq_sum] at hworkers
      simp only [RouterInner.register,RouterInner.tick,Map.size_eq_sum]
      omega
    · have h1:=s.workers.sum_insert_le h ⟨backend,key.tenantId,∅,some token,some key.path,instant⟩
        fun w => if w.tenantId=tenant then 1 else 0
      have h2:=hl.tenant tenant
      simp only [RouterInner.tenantWorkers,RouterInner.register,RouterInner.tick] at *
      by_cases he : key.tenantId=tenant
      · subst he
        simp only [ite_true] at h1
        omega
      · simp only [he,ite_false] at h1
        omega
    · simp only [RouterInner.register,RouterInner.tick,Map.get_insert] at hu
      split at hu
      · cases hu; exact Nat.zero_le _
      · exact hl.pending x u hu
    · have h1:=s.workers.sum_insert_le h ⟨backend,key.tenantId,∅,some token,some key.path,instant⟩
        fun w => if w.tenantId=tenant then w.pending.size else 0
      have h2:=hl.tenantPending tenant
      have h3 : (∅ : Map ReqId Chan).size=0 := rfl
      simp only [RouterInner.tenantPending,RouterInner.register,RouterInner.tick,h3,ite_self] at *
      omega
  | @pended h w id c instant hw htenant hworker =>
    have h1:=w.pending.sum_insert_le id c fun _ => 1
    simp only [← Map.size_eq_sum] at h1
    exact hl.putWorker hw rfl (by dsimp only; omega) (by dsimp only; omega)
  | @answered h w id c a hw hc =>
    have h1:=w.pending.sum_remove_le id fun _ => 1
    simp only [← Map.size_eq_sum] at h1
    have h2:=hl.pending h w hw
    have h3:=hl.tenantPending w.tenantId
    exact hl.putWorker hw rfl (by dsimp only; omega) (by dsimp only; omega)
  | @touched h w instant hw =>
    have h3:=hl.tenantPending w.tenantId
    exact hl.putWorker hw rfl (hl.pending h w hw) (by dsimp only; omega)
  | @removed h w cause ends message pick hw hd =>
    refine ⟨?_,fun tenant => ?_,fun x u hu => ?_,fun tenant => ?_⟩
    · have h1:=s.workers.sum_remove_le h fun _ => 1
      have h2:=hl.workers
      simp only [RouterInner.without_workers,Map.size_eq_sum] at *
      omega
    · have h1:=s.workers.sum_remove_le h fun w => if w.tenantId=tenant then 1 else 0
      have h2:=hl.tenant tenant
      simp only [RouterInner.tenantWorkers,RouterInner.without_workers] at *
      omega
    · simp only [RouterInner.without_workers,Map.get_remove] at hu
      split at hu
      · cases hu
      · exact hl.pending x u hu
    · have h1:=s.workers.sum_remove_le h fun w => if w.tenantId=tenant then w.pending.size else 0
      have h2:=hl.tenantPending tenant
      simp only [RouterInner.tenantPending,RouterInner.without_workers] at *
      omega

end Limits

/-- In every state of every run all four limits hold. -/
theorem admission_limits (cfg : RouterConfig) {p : Service}
    (hr : (service cfg).Reach (fun _ _ => True) (.new cfg) p) : Limits cfg p.state.inner :=
  inner_invariant cfg .new (fun _ _ _ => Limits.change) hr

/-- A run that opens a database and has the open request pending. -/
theorem admission_limits_pending :
    ∃ p, (service sampleConfig).Reach (fun _ _ => True) (.new sampleConfig) p ∧
      p.state.inner.tenantPending "default"=1 ∧ Limits sampleConfig p.state.inner := by
  obtain ⟨p,hp,ht⟩:=(service sampleConfig).play_free (.new sampleConfig)
    (.start (.openIdb (openRequest "/a"))::steps 0 (idles 2++spawnInputs "/a" 1++idles 10))
    (fun p => p.state.inner.tenantPending "default"=1) (by decide)
  exact ⟨p,hp,of_decide_eq_true ht,admission_limits sampleConfig hp⟩

end Router
