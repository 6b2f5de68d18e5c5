import Mathlib.Data.Nat.Bitwise
import IdaMcp.Lib.Hex
import IdaMcp.Lib.Record
import IdaMcp.Router.Registry

/-!
# The names the router makes up

Handles and tokens are put together from a reading of the wall clock, the
process id and the shared counter. `clocked` are the runs of one process with
a record of what went into each name; whether a new name is new is read off
that record.
-/

namespace Router
open Lib (Map hexValue)
variable {now now' pid c c' : Nat} {cfg : RouterConfig} {s : RouterInner}

/-- The generators of `mod.rs`: lines 649-659, 511-522 with 625-636, 690-699, 1201-1207. -/
inductive Maker where
  | handle | reuse | close | cli
  deriving Repr,DecidableEq

/-- What a name is made from. -/
structure Stamp where
  maker : Maker
  now : Nat
  counter : Nat
  deriving Repr,DecidableEq

variable {x y : Stamp}

namespace Stamp

def name (pid : Nat) (x : Stamp) : String := match x.maker with
  | .handle => handleName x.now pid x.counter
  | .reuse | .close => refToken x.now pid x.counter
  | .cli => cliToken x.now x.counter

/-- The name is in use: as a handle, or as a token. -/
def live (pid : Nat) (s : RouterInner) (x : Stamp) : Bool := match x.maker with
  | .handle => (s.workers.get (x.name pid)).isSome
  | _ => (s.tokenToHandle.get (x.name pid)).isSome

end Stamp

/-- The names a section generates. The handle of a worker that fails to start is one. -/
def InnerOp.stamps (cfg : RouterConfig) (env : Env) (s : RouterInner) : InnerOp → List Stamp
  | .spawnLookup key _ =>
    if (s.pathToHandle.get key).isSome then [⟨.reuse,env.now,s.reqCounter⟩] else []
  | .spawnRegister key _ _ =>
    if cfg.maxWorkersPerTenant ≤ s.tenantWorkers key.tenantId ∨
      cfg.maxWorkers ≤ s.workers.size then []
    else if (s.pathToHandle.get key).isSome then [⟨.reuse,env.now,s.reqCounter⟩]
    else ⟨.handle,env.now,s.reqCounter⟩::
      if env.spawnError.isSome then [] else [⟨.close,env.tokenNow,s.reqCounter+1⟩]
  | .issueRef _ => [⟨.cli,env.now,s.reqCounter⟩]
  | _ => []

theorem run_stamps (cfg : RouterConfig) (o : InnerOp) (env : Env) (s : RouterInner) :
    (∀ h∈o.made (o.run cfg env s).1,
      ∃ x∈o.stamps cfg env s,x.maker=.handle ∧ x.name env.pid=h) ∧
    ∀ y∈o.issued (o.run cfg env s).1,
      ∃ x∈o.stamps cfg env s,x.maker≠.handle ∧ x.name env.pid=y.2 := by
  cases o with
  | spawnLookup key b =>
    refine ⟨by rintro _ ⟨⟩,?_⟩
    simp only [InnerOp.run,InnerOp.issued,InnerOp.stamps,RouterInner.spawnLookup]
    cases s.pathToHandle.get key with
    | none => rintro _ ⟨⟩
    | some h =>
      intro y hy
      obtain rfl:=List.mem_singleton.mp hy
      exact ⟨_,List.mem_singleton_self _,by rintro ⟨⟩,rfl⟩
  | spawnRegister key backend b =>
    simp only [InnerOp.run,InnerOp.issued,InnerOp.made,InnerOp.stamps,RouterInner.spawnRegister]
    by_cases ht : cfg.maxWorkersPerTenant ≤ s.tenantWorkers key.tenantId
    · simp [ht]
    by_cases hw : cfg.maxWorkers ≤ s.workers.size
    · simp [ht,hw]
    simp only [ht,hw,ite_false,or_self]
    cases s.pathToHandle.get key with
    | some h =>
      refine ⟨by rintro _ ⟨⟩,fun y hy => ?_⟩
      obtain rfl:=List.mem_singleton.mp hy
      exact ⟨_,List.mem_singleton_self _,by rintro ⟨⟩,rfl⟩
    | none =>
      cases env.spawnError with
      | some e => constructor <;> rintro _ ⟨⟩
      | none =>
        refine ⟨fun h hh => ?_,fun y hy => ?_⟩
        · obtain rfl:=List.mem_singleton.mp hh
          exact ⟨_,List.mem_cons_self,rfl,rfl⟩
        · obtain rfl:=List.mem_singleton.mp hy
          exact ⟨_,List.mem_cons_of_mem _ (List.mem_singleton_self _),by rintro ⟨⟩,rfl⟩
  | issueRef h =>
    refine ⟨by rintro _ ⟨⟩,fun y hy => ?_⟩
    obtain rfl:=List.mem_singleton.mp hy
    exact ⟨_,List.mem_singleton_self _,by rintro ⟨⟩,rfl⟩
  | _ => constructor <;> rintro _ ⟨⟩

theorem handleName_value (now pid counter : Nat) :
    hexValue (handleName now pid counter).toList=now%UInt64.size ^^^ (pid <<< 32) ^^^ counter := by
  simp [handleName]

theorem handleName_eq_iff : handleName now pid c=handleName now' pid c' ↔
      now%UInt64.size ^^^ c=now'%UInt64.size ^^^ c' := by
  have hxor : ∀ a b : Nat,a ^^^ (pid <<< 32) ^^^ b=(a ^^^ b) ^^^ (pid <<< 32) := fun a b => by
    rw [Nat.xor_assoc,Nat.xor_comm (pid <<< 32) b,← Nat.xor_assoc]
  constructor
  · intro h
    have hv:=congrArg (fun n : String => hexValue n.toList) h
    simp only [handleName_value,hxor] at hv
    exact Nat.xor_left_inj.mp hv
  · intro h
    simp only [handleName,hxor,h]

theorem dash_not_mem (n : Nat) : '-'∉Nat.toDigits 16 n := Lib.not_mem_toDigits (by decide) n

theorem toDigits_injective {m n : Nat} (h : Nat.toDigits 16 m=Nat.toDigits 16 n) : m=n := by
  simpa using congrArg hexValue h

theorem refToken_toList (now pid nonce : Nat) : (refToken now pid nonce).toList=
    Nat.toDigits 16 now++ '-'::(Nat.toDigits 16 pid++ '-'::Nat.toDigits 16 nonce) := by
  simp [refToken,hex]

theorem cliToken_toList (now nonce : Nat) : (cliToken now nonce).toList=
    ['c','l','i']++ '-'::(Nat.toDigits 16 now++ '-'::Nat.toDigits 16 nonce) := by
  simp [cliToken,hex]

theorem refToken_injective (h : refToken now pid c=refToken now' pid c') : now=now' ∧ c=c' := by
  have hl:=congrArg String.toList h
  rw [refToken_toList,refToken_toList] at hl
  obtain ⟨hn,hl⟩:=Lib.split_unique (dash_not_mem _) (dash_not_mem _) hl
  obtain ⟨-,hc⟩:=Lib.split_unique (dash_not_mem _) (dash_not_mem _) hl
  exact ⟨toDigits_injective hn,toDigits_injective hc⟩

theorem cliToken_injective (h : cliToken now c=cliToken now' c') : now=now' ∧ c=c' := by
  have hl:=congrArg String.toList h
  rw [cliToken_toList,cliToken_toList] at hl
  obtain ⟨-,hl⟩:=Lib.split_unique (by decide) (by decide) hl
  obtain ⟨hn,hc⟩:=Lib.split_unique (dash_not_mem _) (dash_not_mem _) hl
  exact ⟨toDigits_injective hn,toDigits_injective hc⟩

theorem refToken_ne_cliToken (now pid c now' c' : Nat) : refToken now pid c≠cliToken now' c' := by
  intro h
  have hl:=congrArg String.toList h
  rw [refToken_toList,cliToken_toList] at hl
  obtain ⟨hn,-⟩:=Lib.split_unique (dash_not_mem _) (by decide) hl
  have hm : 'l'∉Nat.toDigits 16 now := Lib.not_mem_toDigits (by decide) now
  rw [hn] at hm
  exact hm (by decide)

/-- Runs of a router with the process id `pid`. -/
def clocked (cfg : RouterConfig) (pid : Nat) : Lib.Machine Op.Res Job (Shared × List Stamp) Env :=
  (service cfg).record (fun env => env.pid=pid) fun op env s => match op with
    | .inner o => o.stamps cfg env s.inner
    | _ => []

/-- The counter a name was made with has been passed since, but the one of a close token:
the next name may still be made with it. -/
def Stamp.past (counter : Nat) (x : Stamp) : Prop :=
  x.counter < counter ∨ (x.maker=.close ∧ x.counter=counter)

theorem Stamp.past_mono {m n : Nat} (h : m ≤ n) (hx : x.past m) : x.past n := by
  rcases hx with hx | ⟨hm,hx⟩
  · exact .inl (Nat.lt_of_lt_of_le hx h)
  · rcases Nat.lt_or_eq_of_le h with h | rfl
    · exact .inl (hx ▸ h)
    · exact .inr ⟨hm,hx⟩

/-- Every name in use is in the record. -/
structure Recorded (pid : Nat) (s : RouterInner) (record : List Stamp) : Prop where
  past : ∀ x∈record,x.past s.reqCounter
  workers : ∀ h w,s.workers.get h=some w → ∃ x∈record,x.maker=.handle ∧ x.name pid=h
  tokens : ∀ t h,s.tokenToHandle.get t=some h → ∃ x∈record,x.maker≠.handle ∧ x.name pid=t

theorem Recorded.new (pid : Nat) : Recorded pid .new [] :=
  ⟨by rintro _ ⟨⟩,by rintro _ _ ⟨⟩,by rintro _ _ ⟨⟩⟩

theorem Change.token_origin {t : RouterInner} {tr : Trace} (hc : Change cfg s tr t) {u : Token}
    {x : DbHandle} (hu : t.tokenToHandle.get u=some x) :
    s.tokenToHandle.get u=some x ∨ (x,u)∈tr.issued := by
  cases hc with
  | same | ticked | named | gone | pended | answered | touched => exact .inl hu
  | reused | issued | registered =>
    simp only [RouterInner.bindToken,RouterInner.register,RouterInner.tick,Map.get_insert] at hu
    split at hu
    · next he => cases hu; exact .inr (he ▸ List.mem_singleton_self _)
    · exact .inl hu
  | removed =>
    rw [RouterInner.without_tokenToHandle] at hu
    exact .inl ((Known.dropTokens_le _ _).2 u x hu)
  | orphaned =>
    rw [RouterInner.repoint_tokenToHandle] at hu
    exact .inl ((Known.dropTokens_le _ _).2 u x hu)
  | released | unbound =>
    simp only [Map.get_remove] at hu
    split at hu
    · cases hu
    · exact .inl hu

theorem stamps_past (cfg : RouterConfig) (o : InnerOp) (env : Env) (s : RouterInner) :
    ∀ x∈o.stamps cfg env s,x.past (o.run cfg env s).2.2.reqCounter := by
  cases o with
  | spawnLookup key b =>
    simp only [InnerOp.run,InnerOp.stamps,RouterInner.spawnLookup]
    cases s.pathToHandle.get key with
    | none => rintro _ ⟨⟩
    | some h =>
      intro x hx
      obtain rfl:=List.mem_singleton.mp hx
      exact .inl (Nat.lt_succ_self _)
  | spawnRegister key backend b =>
    simp only [InnerOp.run,InnerOp.stamps,RouterInner.spawnRegister]
    by_cases ht : cfg.maxWorkersPerTenant ≤ s.tenantWorkers key.tenantId
    · simp [ht]
    by_cases hw : cfg.maxWorkers ≤ s.workers.size
    · simp [ht,hw]
    simp only [ht,hw,ite_false,or_self]
    intro x hx
    cases hk : s.pathToHandle.get key with
    | some h =>
      rw [hk] at hx
      obtain rfl:=List.mem_singleton.mp hx
      exact .inl (Nat.lt_succ_self _)
    | none =>
      rw [hk] at hx
      cases he : env.spawnError with
      | some e =>
        rw [he] at hx
        obtain rfl:=List.mem_singleton.mp hx
        exact .inl (Nat.lt_succ_self _)
      | none =>
        rw [he] at hx
        rcases List.mem_cons.mp hx with rfl | hx
        · exact .inl (Nat.lt_succ_self _)
        · obtain rfl:=List.mem_singleton.mp hx
          exact .inr ⟨rfl,rfl⟩
  | issueRef h =>
    intro x hx
    obtain rfl:=List.mem_singleton.mp hx
    exact .inl (Nat.lt_succ_self _)
  | _ => rintro _ ⟨⟩

theorem Recorded.run {o : InnerOp} {env : Env} {record : List Stamp}
    (h : Recorded env.pid s record) :
    Recorded env.pid (o.run cfg env s).2.2 (o.stamps cfg env s++record) := by
  have hc:=run_change cfg s o env
  obtain ⟨hmade,hissued⟩:=run_stamps cfg o env s
  have hle : s.reqCounter ≤ (o.run cfg env s).2.2.reqCounter := by
    rcases hc.counter with ⟨-,h⟩ | ⟨-,h⟩
    · exact h
    · exact h ▸ Nat.le_succ _
  refine ⟨fun x hx => ?_,fun y w hw => ?_,fun t y hy => ?_⟩
  · rcases List.mem_append.mp hx with hx | hx
    · exact stamps_past cfg o env s x hx
    · exact Stamp.past_mono hle (h.past x hx)
  · rcases hc.worker_origin hw with ⟨u,hu⟩ | hm
    · obtain ⟨x,hx,hxn⟩:=h.workers y u hu
      exact ⟨x,List.mem_append_right _ hx,hxn⟩
    · obtain ⟨x,hx,hxn⟩:=hmade y hm
      exact ⟨x,List.mem_append_left _ hx,hxn⟩
  · rcases hc.token_origin hy with hu | hm
    · obtain ⟨x,hx,hxn⟩:=h.tokens t y hu
      exact ⟨x,List.mem_append_right _ hx,hxn⟩
    · obtain ⟨x,hx,hxn⟩:=hissued (y,t) hm
      exact ⟨x,List.mem_append_left _ hx,hxn⟩

theorem recorded (cfg : RouterConfig) (pid : Nat) {p : Lib.Pool Op.Res Job (Shared × List Stamp)}
    (hr : (clocked cfg pid).Reach (fun _ _ => True) (.new cfg,[]) p) :
    Recorded pid p.state.1.inner p.state.2 := by
  refine Lib.reach_state (clocked cfg pid) (fun _ _ => True)
    (G := fun s => Recorded pid s.1.inner s.2) (.new pid) ?_ hr
  intro p i op env r ⟨s,record⟩ hg hr _
  obtain ⟨hp,hx,hn⟩:=Lib.Machine.record_exec _ _ _ hr
  obtain rfl:=of_decide_eq_true hp
  by_cases ho : ∃ o,op=.inner o
  · obtain ⟨o,rfl⟩:=ho
    cases hx
    cases hn
    exact hg.run
  · have hs:=exec_outer cfg hx fun o he => ho ⟨o,he⟩
    have hnone : record=p.state.2 := by
      cases op with
      | inner o => exact absurd ⟨o,rfl⟩ ho
      | _ => exact hn
    rw [hs.inner,hnone]
    exact hg

/-- What `x` was made from gives the name `y` already has: a handle, when clock and counter
cancel out the same way; a reuse token, when the clock and the counter have not moved
since the close token was made. -/
def Stamp.Echoes (x y : Stamp) : Prop := match x.maker with
  | .handle => y.maker=.handle ∧ x.now%UInt64.size ^^^ x.counter=y.now%UInt64.size ^^^ y.counter
  | .reuse => y.maker=.close ∧ x.now=y.now ∧ x.counter=y.counter
  | .close | .cli => False

theorem Stamp.Echoes.name_eq (h : x.Echoes y) (pid : Nat) :
    x.name pid=y.name pid ∧ (x.maker=.handle ↔ y.maker=.handle) := by
  obtain ⟨mx,nx,cx⟩:=x
  obtain ⟨my,ny,cy⟩:=y
  cases mx with
  | handle =>
    obtain ⟨rfl,h⟩:=h
    exact ⟨handleName_eq_iff.mpr h,Iff.rfl⟩
  | reuse =>
    obtain ⟨rfl,rfl,rfl⟩:=h
    exact ⟨rfl,by simp⟩
  | close | cli => cases h

theorem Stamp.echoes_of_name_eq {counter : Nat} (hx : counter ≤ x.counter)
    (hc : x.maker=.close → counter < x.counter) (hy : y.past counter)
    (hm : x.maker=.handle ↔ y.maker=.handle) (h : x.name pid=y.name pid) : x.Echoes y := by
  obtain ⟨mx,nx,cx⟩:=x
  obtain ⟨my,ny,cy⟩:=y
  have hlt : my≠.close → cy < counter := fun hn => hy.resolve_right fun hc => hn hc.1
  have hle : cy ≤ counter := hy.elim Nat.le_of_lt fun hc => Nat.le_of_eq hc.2
  cases mx with
  | handle =>
    obtain rfl:=hm.mp rfl
    exact ⟨rfl,handleName_eq_iff.mp h⟩
  | reuse =>
    cases my with
    | handle => cases hm.mpr rfl
    | reuse =>
      obtain rfl : cx=cy := (refToken_injective h).2
      exact absurd (hlt (by rintro ⟨⟩)) (Nat.not_lt.mpr hx)
    | close => exact ⟨rfl,refToken_injective h⟩
    | cli => exact (refToken_ne_cliToken _ _ _ _ _ h).elim
  | close =>
    cases my with
    | handle => cases hm.mpr rfl
    | reuse | close =>
      obtain rfl : cx=cy := (refToken_injective h).2
      exact absurd (hc rfl) (Nat.not_lt.mpr hle)
    | cli => exact (refToken_ne_cliToken _ _ _ _ _ h).elim
  | cli =>
    cases my with
    | handle => cases hm.mpr rfl
    | reuse | close => exact (refToken_ne_cliToken _ _ _ _ _ h.symm).elim
    | cli =>
      obtain rfl : cx=cy := (cliToken_injective h).2
      exact absurd (hlt (by rintro ⟨⟩)) (Nat.not_lt.mpr hx)

theorem stamps_ahead {o : InnerOp} {env : Env} (hx : x∈o.stamps cfg env s) :
    s.reqCounter ≤ x.counter ∧ (x.maker=.close → s.reqCounter < x.counter) := by
  cases o with
  | spawnLookup key b =>
    simp only [InnerOp.stamps] at hx
    split at hx
    · obtain rfl:=List.mem_singleton.mp hx
      exact ⟨Nat.le_refl _,by rintro ⟨⟩⟩
    · cases hx
  | spawnRegister key backend b =>
    simp only [InnerOp.stamps] at hx
    split at hx
    · cases hx
    split at hx
    · obtain rfl:=List.mem_singleton.mp hx
      exact ⟨Nat.le_refl _,by rintro ⟨⟩⟩
    rcases List.mem_cons.mp hx with rfl | hx
    · exact ⟨Nat.le_refl _,by rintro ⟨⟩⟩
    split at hx
    · cases hx
    · obtain rfl:=List.mem_singleton.mp hx
      exact ⟨Nat.le_succ _,fun _ => Nat.lt_succ_self _⟩
  | issueRef h =>
    obtain rfl:=List.mem_singleton.mp hx
    exact ⟨Nat.le_refl _,by rintro ⟨⟩⟩
  | _ => cases hx

theorem Recorded.live {record : List Stamp} (h : Recorded pid s record) (hx : x.live pid s=true) :
    ∃ y∈record,(x.maker=.handle ↔ y.maker=.handle) ∧ x.name pid=y.name pid := by
  unfold Stamp.live at hx
  split at hx
  · next hm =>
    obtain ⟨w,hw⟩:=Option.isSome_iff_exists.mp hx
    obtain ⟨y,hy,hym,hn⟩:=h.workers _ w hw
    exact ⟨y,hy,iff_of_true hm hym,hn.symm⟩
  · next hm =>
    obtain ⟨w,hw⟩:=Option.isSome_iff_exists.mp hx
    obtain ⟨y,hy,hym,hn⟩:=h.tokens _ w hw
    exact ⟨y,hy,iff_of_false hm hym,hn.symm⟩

theorem Stamp.live_congr (hm : x.maker=.handle ↔ y.maker=.handle) (hn : x.name pid=y.name pid)
    (s : RouterInner) : x.live pid s=y.live pid s := by
  obtain ⟨mx,nx,cx⟩:=x
  obtain ⟨my,ny,cy⟩:=y
  unfold Stamp.live
  rw [hn]
  cases mx <;> cases my <;> first
    | rfl
    | cases hm.mp rfl
    | cases hm.mpr rfl

/-- The names a section generates are new exactly when what they are made from echoes no
name in use. -/
theorem names_new (cfg : RouterConfig) {p : Lib.Pool Op.Res Job (Shared × List Stamp)} {pid : Nat}
    (hr : (clocked cfg pid).Reach (fun _ _ => True) (.new cfg,[]) p) (o : InnerOp) (env : Env)
    (hp : env.pid=pid) :
    (service cfg).Reach (fun _ _ => True) (.new cfg) p.plain ∧
    ((∀ h∈o.made (o.run cfg env p.state.1.inner).1,
        ∃ x∈o.stamps cfg env p.state.1.inner,x.maker=.handle ∧ x.name pid=h) ∧
      ∀ y∈o.issued (o.run cfg env p.state.1.inner).1,
        ∃ x∈o.stamps cfg env p.state.1.inner,x.maker≠.handle ∧ x.name pid=y.2) ∧
    ((∀ x∈o.stamps cfg env p.state.1.inner,x.live pid p.state.1.inner=false) ↔
      ∀ x∈o.stamps cfg env p.state.1.inner,∀ y∈p.state.2,
        x.Echoes y → y.live pid p.state.1.inner=false) := by
  subst hp
  refine ⟨Lib.Machine.record_reach _ _ _ hr,run_stamps cfg o env _,fun h x hx y _ he => ?_,
    fun h x hx => ?_⟩
  · obtain ⟨hn,hm⟩:=he.name_eq env.pid
    rw [← Stamp.live_congr hm hn]
    exact h x hx
  · by_contra hl
    have hrec:=recorded cfg env.pid hr
    obtain ⟨y,hy,hm,hn⟩:=hrec.live (Bool.not_eq_false _ ▸ hl)
    obtain ⟨hle,hc⟩:=stamps_ahead hx
    have he:=Stamp.echoes_of_name_eq hle hc (hrec.past y hy) hm hn
    rw [Stamp.live_congr hm hn] at hl
    exact hl (h x hx y hy he)

/-- The second worker starts one tick of the clock and one of the counter after the first. -/
def handleEcho : List (Lib.Act Job Env) :=
  .start (.openIdb (openRequest "/a"))::steps 0 (idles 2++spawnInputs "/a" 0)++
    .start (.openIdb (openRequest "/b"))::
      steps 2 (idles 2++{path := "/b"}::{canonical := some "/b"}::idles 7++{rounds := 1}::idles 4)

/-- The same path is opened twice at one reading of the clock. -/
def tokenEcho : List (Lib.Act Job Env) :=
  .start (.openIdb (openRequest "/a"))::steps 0 (idles 2++spawnInputs "/a" 1)++
    .start (.openIdb (openRequest "/a"))::
      steps 2 (idles 2++{path := "/a"}::{canonical := some "/a"}::idles 1)

theorem names_new_handle : ∃ p : Lib.Pool Op.Res Job (Shared × List Stamp),
    (clocked sampleConfig 0).Reach (fun _ _ => True) (.new sampleConfig,[]) p ∧ p.state.2.length=2 ∧
    ∀ o : InnerOp,
      ((∀ x∈o.stamps sampleConfig {now := 3} p.state.1.inner,x.live 0 p.state.1.inner=false) ↔
      ∀ x∈o.stamps sampleConfig {now := 3} p.state.1.inner,∀ y∈p.state.2,
        x.Echoes y → y.live 0 p.state.1.inner=false) := by
  obtain ⟨p,hp,ht⟩:=(clocked sampleConfig 0).play_free (.new sampleConfig,[]) handleEcho
    (fun p => p.state.2.length=2) (by decide +kernel)
  exact ⟨p,hp,of_decide_eq_true ht,fun o => (names_new sampleConfig hp o {now := 3} rfl).2.2⟩

/-- A clock that stands still gives a handle and a token out again. -/
theorem names_repeat :
    (∃ p l q,(clocked sampleConfig 0).Reach (fun _ _ => True) (.new sampleConfig,[]) p ∧
      (clocked sampleConfig 0).Step p l q ∧
        ∃ h∈madeBy l,(p.state.1.inner.workers.get h).isSome=true) ∧
    ∃ p l q,(clocked sampleConfig 0).Reach (fun _ _ => True) (.new sampleConfig,[]) p ∧
      (clocked sampleConfig 0).Step p l q ∧
        ∃ x∈issuedBy l,(p.state.1.inner.tokenToHandle.get x.2).isSome=true := by
  constructor
  · obtain ⟨p,l,q,hp,hs,h⟩:=(clocked sampleConfig 0).play_step (fun _ _ => True) (fun _ _ => true)
      (fun _ _ _ => trivial) (.new sampleConfig,[]) handleEcho (.run 2 {now := 1,tokenNow := 1})
      (fun p l => (madeBy l).any fun h => (p.state.1.inner.workers.get h).isSome)
      (by decide +kernel)
    exact ⟨p,l,q,hp,hs,List.any_eq_true.mp h⟩
  · obtain ⟨p,l,q,hp,hs,h⟩:=(clocked sampleConfig 0).play_step (fun _ _ => True) (fun _ _ => true)
      (fun _ _ _ => trivial) (.new sampleConfig,[]) tokenEcho (.run 2 {now := 1})
      (fun p l => (issuedBy l).any fun x => (p.state.1.inner.tokenToHandle.get x.2).isSome)
      (by decide +kernel)
    exact ⟨p,l,q,hp,hs,List.any_eq_true.mp h⟩

end Router
