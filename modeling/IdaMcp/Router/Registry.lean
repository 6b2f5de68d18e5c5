import IdaMcp.Router.Changes
import IdaMcp.Router.Targets

/-!
# The registry is consistent

The four maps and the active pointer of `RouterInner` agree in every state of
every run in which the handles and tokens made up by the router are new.
-/

namespace Router
open Lib (Map Holds Fired)
variable {h : DbHandle} {t : Token} {key : WorkerKey} {w : WorkerProcess} {ts : Finset Token}

/-- The handles a step makes. -/
def madeBy : Move → List DbHandle
  | .run _ ⟨.inner o,r⟩ => o.made r
  | _ => []

/-- The references a step gives out. -/
def issuedBy : Move → List (DbHandle × Token)
  | .run _ ⟨.inner o,r⟩ => o.issued r
  | _ => []

/-- A handle made by this step was never made before. -/
def FreshHandles (p : Service) (l : Move) : Prop := ∀ h∈madeBy l, h∉p.state.handles

/-- A token made by this step was never made before. -/
def FreshTokens (p : Service) (l : Move) : Prop := ∀ x∈issuedBy l, x.2∉p.state.tokens

def Fresh (p : Service) (l : Move) : Prop := FreshHandles p l ∧ FreshTokens p l

instance (p : Service) (l : Move) : Decidable (FreshHandles p l) :=
  inferInstanceAs (Decidable (∀ h∈madeBy l, h∉p.state.handles))
instance (p : Service) (l : Move) : Decidable (FreshTokens p l) :=
  inferInstanceAs (Decidable (∀ x∈issuedBy l, x.2∉p.state.tokens))
instance (p : Service) (l : Move) : Decidable (Fresh p l) :=
  inferInstanceAs (Decidable (FreshHandles p l ∧ FreshTokens p l))

structure Registry (s : RouterInner) : Prop where
  paths : ∀ key h, s.pathToHandle.get key=some h ↔
    ∃ w, s.workers.get h=some w ∧ w.tenantId=key.tenantId ∧ w.openPath=some key.path
  tokens : ∀ t h, s.tokenToHandle.get t=some h ↔ ∃ ts, s.refTokens.get h=some ts ∧ t∈ts
  idle : s.active=none ↔ s.workers.size=0
  active : ∀ h, s.active=some h → ∃ w, s.workers.get h=some w

/-- What the maps hold was made by the router. -/
structure Known (s : Shared) : Prop where
  workers : ∀ h w, s.inner.workers.get h=some w → h∈s.handles
  refs : ∀ h ts, s.inner.refTokens.get h=some ts → h∈s.handles
  tokens : ∀ t h, s.inner.tokenToHandle.get t=some h → t∈s.tokens

namespace Known
variable {s : Shared} (hk : Known s) (i : Nat)
include hk

theorem bind (hh : h∈s.handles) (tr : Trace)
    (htr : tr.issued=[(h,t)]) : Known (s.commit i tr (s.inner.tick.bindToken h t)) where
  workers x w hw := List.mem_append_right _ (hk.workers x w hw)
  refs x ts hx := by
    change (s.inner.refTokens.insert h _).get x=some ts at hx
    rw [Map.get_insert] at hx
    split at hx
    · next he => exact List.mem_append_right _ (he ▸ hh)
    · exact List.mem_append_right _ (hk.refs x ts hx)
  tokens u x hx := by
    change (s.inner.tokenToHandle.insert t h).get u=some x at hx
    rw [Map.get_insert] at hx
    simp only [Shared.commit,htr]
    split at hx
    · next he => simp [he]
    · exact List.mem_append_right _ (hk.tokens u x hx)

theorem register {backend : WorkerBackendKind} {instant : Instant} :
    Known (s.commit i {issued := [(h,t)],made := [h]}
      (s.inner.tick.register key backend h t instant)) where
  workers x w hw := by
    change (s.inner.workers.insert h _).get x=some w at hw
    rw [Map.get_insert] at hw
    simp only [Shared.commit]
    split at hw
    · next he => simp [he]
    · exact List.mem_append_right _ (hk.workers x w hw)
  refs x ts hx := by
    change (s.inner.refTokens.insert h _).get x=some ts at hx
    rw [Map.get_insert] at hx
    simp only [Shared.commit]
    split at hx
    · next he => simp [he]
    · exact List.mem_append_right _ (hk.refs x ts hx)
  tokens u x hx := by
    change (s.inner.tokenToHandle.insert t h).get u=some x at hx
    rw [Map.get_insert] at hx
    simp only [Shared.commit]
    split at hx
    · next he => simp [he]
    · exact List.mem_append_right _ (hk.tokens u x hx)

/-- A change that adds no key to the three maps. -/
theorem shrink (tr : Trace) {t : RouterInner}
    (hw : ∀ h w, t.workers.get h=some w → ∃ v, s.inner.workers.get h=some v)
    (hf : ∀ h ts, t.refTokens.get h=some ts → ∃ us, s.inner.refTokens.get h=some us)
    (ht : ∀ u h, t.tokenToHandle.get u=some h → s.inner.tokenToHandle.get u=some h) :
    Known (s.commit i tr t) where
  workers h w hh := by
    obtain ⟨v,hv⟩:=hw h w hh
    exact List.mem_append_right _ (hk.workers h v hv)
  refs h ts hh := by
    obtain ⟨us,hu⟩:=hf h ts hh
    exact List.mem_append_right _ (hk.refs h us hu)
  tokens u h hh := List.mem_append_right _ (hk.tokens u h (ht u h hh))

theorem put {v : WorkerProcess} (hw : s.inner.workers.get h=some w)
    (tr : Trace) : Known (s.commit i tr (s.inner.putWorker h v)) :=
  hk.shrink i tr (fun x u hu => by
    change (s.inner.workers.insert h v).get x=some u at hu
    rw [Map.get_insert] at hu
    split at hu
    · next he => exact ⟨w,he ▸ hw⟩
    · exact ⟨u,hu⟩) (fun _ ts h => ⟨ts,h⟩) fun _ _ h => h

omit hk in
theorem dropTokens_le (s : RouterInner) (x : DbHandle) :
    (∀ h ts, (s.dropTokens x).refTokens.get h=some ts → ∃ us, s.refTokens.get h=some us) ∧
      ∀ u h, (s.dropTokens x).tokenToHandle.get u=some h → s.tokenToHandle.get u=some h := by
  unfold RouterInner.dropTokens
  split
  · refine ⟨fun h ts hh => ?_,fun u h hh => ((Map.get_keep _ _ _ _).mp hh).1⟩
    simp only [Map.get_remove] at hh
    split at hh
    · cases hh
    · exact ⟨ts,hh⟩
  · exact ⟨fun _ ts h => ⟨ts,h⟩,fun _ _ h => h⟩

theorem without {pick : Nat} (tr : Trace) : Known (s.commit i tr (s.inner.without h w pick)) := by
  refine hk.shrink i tr (fun x u hu => ?_) (fun x ts hx => ?_) fun u x hx => ?_
  · rw [RouterInner.without_workers,Map.get_remove] at hu
    split at hu
    · cases hu
    · exact ⟨u,hu⟩
  · rw [RouterInner.without_refTokens] at hx
    exact (dropTokens_le s.inner h).1 x ts hx
  · rw [RouterInner.without_tokenToHandle] at hx
    exact (dropTokens_le s.inner h).2 u x hx

theorem orphan {pick : Nat} (tr : Trace) :
    Known (s.commit i tr ((s.inner.dropTokens h).repoint h pick)) := by
  refine hk.shrink i tr (fun x u hu => ⟨u,by simpa using hu⟩) (fun x ts hx => ?_) fun u x hx => ?_
  · exact (dropTokens_le s.inner h).1 x ts (by simpa using hx)
  · exact (dropTokens_le s.inner h).2 u x (by simpa using hx)

theorem release (tr : Trace) (hts : s.inner.refTokens.get h=some ts) :
    Known (s.commit i tr {s.inner with
      tokenToHandle := s.inner.tokenToHandle.remove t
      refTokens := s.inner.refTokens.insert h (ts.erase t)}) := by
  refine hk.shrink i tr (fun _ w h => ⟨w,h⟩) (fun x us hx => ?_) fun u x hx => ?_
  · simp only [Map.get_insert] at hx
    split at hx
    · next he => exact ⟨ts,he ▸ hts⟩
    · exact ⟨us,hx⟩
  · simp only [Map.get_remove] at hx
    split at hx
    · cases hx
    · exact hx

end Known

namespace Registry
variable {s : RouterInner}

theorem new : Registry .new where
  paths key h := by simp [RouterInner.new]
  tokens t h := by simp [RouterInner.new]
  idle := by simp [RouterInner.new,Map.size]
  active h hh := by cases hh

variable (hr : Registry s)
include hr

/-- The handle under a path is that of a worker. -/
theorem path_worker (hk : s.pathToHandle.get key=some h) : ∃ w, s.workers.get h=some w := by
  obtain ⟨w,hw,-,-⟩:=(hr.paths key h).mp hk
  exact ⟨w,hw⟩

/-- A token stands in one set only. -/
theorem token_unique {x : DbHandle} {us : Finset Token} (h1 : s.refTokens.get h=some ts) (ht : t∈ts)
    (h2 : s.refTokens.get x=some us) (hu : t∈us) : x=h := by
  have ha:=(hr.tokens t h).mpr ⟨ts,h1,ht⟩
  have hb:=(hr.tokens t x).mpr ⟨us,h2,hu⟩
  rw [ha] at hb
  exact (Option.some.inj hb).symm

theorem bindToken (ht : s.tokenToHandle.get t=none) : Registry (s.tick.bindToken h t) where
  paths := hr.paths
  idle := hr.idle
  active := hr.active
  tokens t' h' := by
    change (s.tokenToHandle.insert t h).get t'=some h' ↔
      ∃ ts, (s.refTokens.insert h (insert t (s.refs h))).get h'=some ts ∧ t'∈ts
    rw [Map.get_insert,Map.get_insert]
    have hmem : t'∈s.refs h ↔ s.tokenToHandle.get t'=some h := by
      rw [hr.tokens t' h]
      unfold RouterInner.refs
      cases s.refTokens.get h <;> simp
    by_cases he : t'=t
    · subst he
      rw [if_pos rfl]
      constructor
      · rintro ⟨⟩
        exact ⟨_,if_pos rfl,Finset.mem_insert_self _ _⟩
      · rintro ⟨ts,hts,hm⟩
        split at hts
        · next hh => rw [hh]
        · -- the token would already stand in another worker's set
          have hx:=(hr.tokens t' h').mpr ⟨ts,hts,hm⟩
          rw [ht] at hx
          cases hx
    · rw [if_neg he]
      by_cases hh : h'=h
      · subst hh
        simp only [ite_true,Option.some.injEq,exists_eq_left',Finset.mem_insert,he,false_or]
        exact hmem.symm
      · simp only [hh,ite_false]
        exact hr.tokens t' h'

theorem putWorker {v : WorkerProcess} (hw : s.workers.get h=some w) (ht : v.tenantId=w.tenantId)
    (hp : v.openPath=w.openPath) : Registry (s.putWorker h v) where
  tokens := hr.tokens
  paths key x := by
    rw [show (s.putWorker h v).pathToHandle=s.pathToHandle from rfl,hr.paths key x]
    simp only [RouterInner.putWorker,Map.get_insert]
    by_cases hx : x=h
    · subst hx
      simp [hw,ht,hp]
    · simp [hx]
  idle := by
    change s.active=none ↔ _
    rw [hr.idle,Map.size_eq_zero_iff,Map.size_eq_zero_iff]
    simp only [RouterInner.putWorker,Map.get_insert]
    constructor
    · intro h0
      rw [h0 h] at hw
      cases hw
    · intro h0
      have:=h0 h
      simp at this
  active x hx := by
    obtain ⟨u,hu⟩:=hr.active x hx
    simp only [RouterInner.putWorker,Map.get_insert]
    split
    · exact ⟨v,rfl⟩
    · exact ⟨u,hu⟩

theorem register {backend : WorkerBackendKind} {instant : Instant}
    (hk : s.pathToHandle.get key=none) (hw : s.workers.get h=none) (hf : s.refTokens.get h=none)
    (ht : s.tokenToHandle.get t=none) : Registry (s.tick.register key backend h t instant) where
  paths key' h' := by
    simp only [RouterInner.register,RouterInner.tick,Map.get_insert]
    by_cases hx : h'=h
    · subst hx
      simp only [ite_true,Option.some.injEq,exists_eq_left']
      split
      · next he => simp [he]
      · next he =>
        rw [hr.paths key' h']
        simp only [hw,reduceCtorEq,false_and,exists_false,false_iff]
        rintro ⟨h1,h2⟩
        exact he (by cases key'; cases key; simp_all)
    · simp only [hx,ite_false]
      split
      · next he =>
        subst he
        simp only [Option.some.injEq]
        constructor
        · exact fun he => absurd he.symm hx
        · intro hex
          have:=(hr.paths key' h').mpr hex
          rw [hk] at this
          cases this
      · exact hr.paths key' h'
  tokens t' h' := by
    simp only [RouterInner.register,RouterInner.tick,Map.get_insert]
    by_cases hx : h'=h
    · subst hx
      simp only [ite_true,Option.some.injEq,exists_eq_left',Finset.mem_singleton]
      split
      · next he => simp [he]
      · next he =>
        rw [hr.tokens t' h']
        simp [hf,he]
    · simp only [hx,ite_false]
      split
      · next he =>
        subst he
        simp only [Option.some.injEq]
        constructor
        · exact fun he => absurd he.symm hx
        · intro hex
          have:=(hr.tokens t' h').mpr hex
          rw [ht] at this
          cases this
      · exact hr.tokens t' h'
  idle := by
    rw [Map.size_eq_zero_iff]
    simp only [RouterInner.register,RouterInner.tick,Map.get_insert]
    constructor
    · intro h0; cases h0
    · intro h0
      have:=h0 h
      simp at this
  active x hx := by
    cases hx
    exact ⟨_,Map.get_insert_self _ _ _⟩

theorem dropTokens_tokens (x : DbHandle) (t : Token) (h : DbHandle) :
    (s.dropTokens x).tokenToHandle.get t=some h ↔
      ∃ ts, (s.dropTokens x).refTokens.get h=some ts ∧ t∈ts := by
  unfold RouterInner.dropTokens
  split
  · next us hus =>
    simp only [Map.get_keep,Map.get_remove,decide_eq_true_eq]
    rw [hr.tokens t h]
    constructor
    · rintro ⟨⟨ts,hts,hm⟩,hn⟩
      refine ⟨ts,?_,hm⟩
      rw [if_neg]
      · exact hts
      · rintro rfl
        rw [hus] at hts
        cases hts
        exact hn hm
    · rintro ⟨ts,hts,hm⟩
      split at hts
      · cases hts
      · next hx => exact ⟨⟨ts,hts,hm⟩,fun hu => hx (hr.token_unique hus hu hts hm)⟩
  · exact hr.tokens t h

/-- Nothing is active without a worker, so a handle without a worker is not active. -/
theorem repoint_absent (hw : s.workers.get h=none) (pick : Nat) :
    (s.dropTokens h).repoint h pick=s.dropTokens h := by
  unfold RouterInner.repoint
  rw [if_neg]
  rw [RouterInner.dropTokens_active]
  intro ha
  obtain ⟨w,hx⟩:=hr.active h ha
  rw [hw] at hx
  cases hx

theorem orphan (hw : s.workers.get h=none) (pick : Nat) :
    Registry ((s.dropTokens h).repoint h pick) := by
  rw [hr.repoint_absent hw pick]
  refine ⟨?_,hr.dropTokens_tokens h,?_,?_⟩
  · simpa using hr.paths
  · simpa using hr.idle
  · simpa using hr.active

theorem without_active (hw : s.workers.get h=some w) (pick : Nat) :
    ((s.without h w pick).active=none ↔ (s.without h w pick).workers.size=0) ∧
      ∀ x, (s.without h w pick).active=some x → ∃ u, (s.without h w pick).workers.get x=some u := by
  rw [RouterInner.without_workers]
  by_cases ha : s.active=some h
  · have he : (s.without h w pick).active=
        (s.workers.remove h).keysOf[pick%(s.workers.remove h).size]? := by
      simp [RouterInner.without,RouterInner.unregister,RouterInner.repoint,ha]
    rw [he]
    refine ⟨⟨Map.keysOf_pick_none _ _,fun h0 => ?_⟩,fun x hx => Map.keysOf_pick _ _ hx⟩
    have hl : (s.workers.remove h).keysOf.length=0 := by rw [← h0]; exact List.length_map ..
    rw [List.length_eq_zero_iff.mp hl]
    rfl
  · have he : (s.without h w pick).active=s.active := by
      simp [RouterInner.without,RouterInner.unregister,RouterInner.repoint,ha]
    rw [he]
    cases hact : s.active with
    | none =>
      have h0:=(Map.size_eq_zero_iff _).mp (hr.idle.mp hact) h
      rw [hw] at h0
      cases h0
    | some x =>
      have hx : x≠h := fun hxh => ha (by rw [hact,hxh])
      obtain ⟨u,hu⟩:=hr.active x hact
      have hg : (s.workers.remove h).get x=some u := by rw [Map.get_remove,if_neg hx]; exact hu
      refine ⟨⟨fun h0 => (by cases h0),fun h0 => ?_⟩,fun y hy => ?_⟩
      · rw [(Map.size_eq_zero_iff _).mp h0 x] at hg
        cases hg
      · cases hy
        exact ⟨u,hg⟩

theorem without (hw : s.workers.get h=some w) (pick : Nat) : Registry (s.without h w pick) where
  idle := (hr.without_active hw pick).1
  active := (hr.without_active hw pick).2
  tokens t x := by
    rw [RouterInner.without_tokenToHandle,RouterInner.without_refTokens]
    exact hr.dropTokens_tokens h t x
  paths key x := by
    rw [RouterInner.without_workers,Map.get_remove]
    have hp : (s.without h w pick).pathToHandle=(s.unregister h w).pathToHandle := by
      simp only [RouterInner.without,RouterInner.repoint_pathToHandle,
        RouterInner.dropTokens_pathToHandle]
    rw [hp]
    simp only [RouterInner.unregister]
    by_cases hx : x=h
    · subst hx
      simp only [ite_true,reduceCtorEq,false_and,exists_false,iff_false]
      intro hk
      cases hpath : w.openPath with
      | none =>
        rw [hpath] at hk
        obtain ⟨u,hu,-,hup⟩:=(hr.paths key x).mp hk
        rw [hw] at hu
        cases hu
        rw [hpath] at hup
        cases hup
      | some p =>
        rw [hpath] at hk
        simp only [Map.get_remove] at hk
        split at hk
        · cases hk
        · next hne =>
          obtain ⟨u,hu,hut,hup⟩:=(hr.paths key x).mp hk
          rw [hw] at hu
          cases hu
          rw [hpath] at hup
          cases hup
          exact hne (by cases key; simp_all [workerKey])
    · simp only [hx,ite_false]
      rw [← hr.paths key x]
      cases hpath : w.openPath with
      | none => rfl
      | some p =>
        simp only [Map.get_remove]
        split
        · next he =>
          -- the key of the worker that goes was mapped to it, not to `x`
          have hh:=(hr.paths key h).mpr ⟨w,hw,by rw [he]; rfl,by rw [he]; exact hpath⟩
          rw [hh]
          simp [Ne.symm hx]
        · rfl

theorem release (ht : s.tokenToHandle.get t=some h)
    (hts : s.refTokens.get h=some ts) : Registry {s with
      tokenToHandle := s.tokenToHandle.remove t
      refTokens := s.refTokens.insert h (ts.erase t)} where
  paths := hr.paths
  idle := hr.idle
  active := hr.active
  tokens t' h' := by
    simp only [Map.get_remove,Map.get_insert]
    by_cases he : t'=t
    · subst he
      simp only [ite_true,reduceCtorEq,false_iff]
      rintro ⟨us,hus,hm⟩
      split at hus
      · cases hus
        exact absurd hm (Finset.notMem_erase _ _)
      · next hx =>
        have hu:=(hr.tokens t' h').mpr ⟨us,hus,hm⟩
        rw [ht] at hu
        exact hx (Option.some.inj hu).symm
    · simp only [he,ite_false]
      rw [hr.tokens t' h']
      by_cases hx : h'=h
      · subst hx
        simp [hts,he]
      · simp [hx]

omit hr in
/-- Every change keeps the registry, when what it makes is new and what it issues a
token for is known. -/
theorem change {cfg : RouterConfig} {s : Shared} {tr : Trace} {t : RouterInner} {i : Nat}
    (hr : Registry s.inner) (hk : Known s) (hc : Change cfg s.inner tr t)
    (hhandle : ∀ h∈tr.made, h∉s.handles) (htoken : ∀ x∈tr.issued, x.2∉s.tokens)
    (hdirect : ∀ h∈tr.direct, h∈s.handles) : Registry t ∧ Known (s.commit i tr t) := by
  have hfree {x : DbHandle} {t : Token} (hx : (x,t)∈tr.issued) :
    s.inner.tokenToHandle.get t=none := by
    cases hg : s.inner.tokenToHandle.get t with
    | none => rfl
    | some y => exact absurd (hk.tokens t y hg) (htoken _ hx)
  cases hc with
  | same | gone | ticked | named =>
    exact ⟨⟨hr.paths,hr.tokens,hr.idle,hr.active⟩,⟨hk.workers,hk.refs,hk.tokens⟩⟩
  | @reused key h token hkey =>
    obtain ⟨w,hw⟩:=hr.path_worker hkey
    exact ⟨hr.bindToken (hfree (List.mem_singleton_self _)),hk.bind i (hk.workers h w hw) _ rfl⟩
  | @issued h token => exact ⟨hr.bindToken (hfree (List.mem_singleton_self _)),
      hk.bind i (hdirect h (List.mem_singleton_self _)) _ rfl⟩
  | @registered key backend h token instant _ _ hkey =>
    have hnew : h∉s.handles := hhandle h (by simp)
    have hw : s.inner.workers.get h=none := by
      cases hg : s.inner.workers.get h with
      | none => rfl
      | some w => exact absurd (hk.workers h w hg) hnew
    have hf : s.inner.refTokens.get h=none := by
      cases hg : s.inner.refTokens.get h with
      | none => rfl
      | some ts => exact absurd (hk.refs h ts hg) hnew
    exact ⟨hr.register hkey hw hf (hfree (List.mem_singleton_self _)),hk.register i⟩
  | pended hw _ _ | answered hw _ | touched hw =>
    exact ⟨hr.putWorker hw rfl rfl,hk.put i hw _⟩
  | removed hw _ => exact ⟨hr.without hw _,hk.without i _⟩
  | orphaned hw => exact ⟨hr.orphan hw _,hk.orphan i _⟩
  | released ht hts => exact ⟨hr.release ht hts,hk.release i _ hts⟩
  | unbound ht hts =>
    -- a mapped token stands in its worker's set
    obtain ⟨ts,hx,-⟩:=(hr.tokens _ _).mp ht
    rw [hts] at hx
    cases hx

end Registry

/-- A handle is picked where it is mapped to a path, or where it is made, and given up
where its task removes it. -/
theorem target_origin {cfg : RouterConfig} {i : Nat} {o : InnerOp} {env : Env} {r : o.Res}
    {s t : Shared} (hx : exec cfg i (.inner o) env s=some (r,t)) {m : Option DbHandle}
    (ha : targetMonitor.allowed m (.inner o)) (hn : targetMonitor.next m ⟨.inner o,r⟩=some h) :
    (m=some h ∧ h∉o.removes) ∨
      (o.removes=[] ∧ ((∃ key, s.inner.pathToHandle.get key=some h) ∨ h∈o.made r)) := by
  cases hx
  cases o with
  | ensureLookup key =>
    refine .inr ⟨rfl,.inl ⟨key,?_⟩⟩
    change (s.inner.ensureLookup key env.instant).1=some h at hn
    unfold RouterInner.ensureLookup at hn
    split at hn
    · next hk => rw [hk]; exact hn
    · cases hn
  | spawnLookup key b =>
    cases b with
    | false => exact .inl ⟨hn,List.not_mem_nil⟩
    | true =>
      refine .inr ⟨rfl,.inl ⟨key,?_⟩⟩
      change (s.inner.spawnLookup key env.now env.pid).1.map Prod.fst=some h at hn
      unfold RouterInner.spawnLookup at hn
      split at hn
      · next hk => rw [hk]; exact hn
      · cases hn
  | spawnRegister key backend b =>
    cases b with
    | false => exact .inl ⟨hn,List.not_mem_nil⟩
    | true =>
      generalize hq : (InnerOp.run cfg (.spawnRegister key backend true) env s.inner).1=q at hn ⊢
      cases q with
      | refused e => cases hn
      | reused x u => cases hn; exact .inr ⟨rfl,.inl ⟨key,RouterInner.spawnRegister_reused hq⟩⟩
      | fresh x u => cases hn; exact .inr ⟨rfl,.inr (List.mem_singleton_self _)⟩
  | issueRef => cases hn
  | closeRemove x why =>
    change (if m=some x then none else m)=some h at hn
    split at hn
    · cases hn
    · next hne => exact .inl ⟨hn,fun hm => hne (by rw [hn,List.mem_singleton.mp hm])⟩
  | readerEof | readerError =>
    rw [show m=none from ha] at hn
    cases hn
  | _ => exact .inl ⟨hn,List.not_mem_nil⟩

/-- The registry, and that what is picked for a reference was made by the router. -/
theorem registry_holds (cfg : RouterConfig) {C : Service → Move → Prop}
    (hC : ∀ p l, C p l → Fresh p l) {p : Service} (hr : (service cfg).Reach C (.new cfg) p) :
    Holds targetMonitor (fun _ => none) (fun s => Registry s.inner ∧ Known s)
      (fun s _ _ m => ∀ h, m=some h → h∈s.handles) p := by
  refine Lib.reach_holds (service cfg) targetMonitor (fun _ => none) C (fun _ m => m=none)
    (fun c => Targets.body c none rfl) (fun _ _ _ _ _ _ => trivial) ?_ ?_ ?_ ?_ ?_ hr
  · exact ⟨.new,⟨fun _ _ h => (by cases h),fun _ _ h => (by cases h),fun _ _ h => (by cases h)⟩⟩
  · intro _ _ _ _ _ _ h hh
    cases hh
  · intro p i t op env r s _ hi hf
    obtain ⟨⟨hreg,hk⟩,htask⟩:=hi
    have hme:=htask i t hf.task
    by_cases ho : ∃ o, op=.inner o
    · obtain ⟨o,rfl⟩:=ho
      obtain ⟨sends,inner,hc,rfl⟩:=exec_inner cfg hf.exec
      have hfresh:=hC _ _ hf.cond
      refine ⟨hreg.change hk hc hfresh.1 hfresh.2 fun h hh => ?_,fun h hn => ?_⟩
      · cases o with
        | issueRef x =>
          have hx : h=x := by simpa [InnerOp.trace,InnerOp.direct] using hh
          exact hme h (hx ▸ hf.allowed)
        | _ => cases hh
      · rcases target_origin hf.exec hf.allowed hn with ⟨hm,-⟩ | ⟨-,⟨key,hkey⟩ | hmade⟩
        · exact List.mem_append_right _ (hme h hm)
        · obtain ⟨w,hw⟩:=hreg.path_worker hkey
          exact List.mem_append_right _ (hk.workers h w hw)
        · exact List.mem_append_left _ hmade
    · have hs:=exec_outer cfg hf.exec fun o he => ho ⟨o,he⟩
      refine ⟨⟨hs.inner ▸ hreg,⟨?_,?_,?_⟩⟩,fun h hn => ?_⟩
      · rw [hs.inner,hs.handles]; exact hk.workers
      · rw [hs.inner,hs.handles]; exact hk.refs
      · rw [hs.inner,hs.tokens]; exact hk.tokens
      · rw [hs.handles]
        have hm : targetMonitor.next (targetMonitor.track (fun _ => none) t) ⟨op,r⟩=
            targetMonitor.track (fun _ => none) t := by
          cases op <;> first | rfl | exact absurd ⟨_,rfl⟩ ho
        exact hme h (hm ▸ hn)
  · intro p i t op env r s j u _ hi hf _ hu h hh
    have hyou:=hi.2 j u hu h hh
    by_cases ho : ∃ o, op=.inner o
    · obtain ⟨o,rfl⟩:=ho
      obtain ⟨sends,inner,-,rfl⟩:=exec_inner cfg hf.exec
      exact List.mem_append_right _ hyou
    · rw [(exec_outer cfg hf.exec fun o he => ho ⟨o,he⟩).handles]
      exact hyou
  · intro _ _ _ _ _ _ _ _ _ _ _ _ _ _ h hh
    cases hh

/-- With fresh handles and tokens the four maps and the active pointer agree in every
state of every run. -/
theorem registry_consistent (cfg : RouterConfig) {p : Service}
    (hr : (service cfg).Reach Fresh (.new cfg) p) : Registry p.state.inner :=
  (registry_holds cfg (fun _ _ h => h) hr).1.1

/-- A run of two opens of one path, whose second reuses the worker of the first. -/
theorem registry_consistent_reuse :
    ∃ p, (service sampleConfig).Reach Fresh (.new sampleConfig) p ∧
      p.state.inner.refCount "0000000000000001"=2 ∧ Registry p.state.inner := by
  obtain ⟨p,hp,ht⟩:=(service sampleConfig).play_when Fresh (.new sampleConfig)
    (.start (.openIdb (openRequest "/a"))::.start (.openIdb (openRequest "/a"))::
      steps 0 (idles 2++spawnInputs "/a" 1)++
      steps 1 (idles 2++{path := "/a"}::{canonical := some "/a"}::idles 1++[{now := 2}]))
    (fun p => p.state.inner.refCount "0000000000000001"=2) (by decide)
  exact ⟨p,hp,of_decide_eq_true ht,registry_consistent sampleConfig hp⟩

end Router
