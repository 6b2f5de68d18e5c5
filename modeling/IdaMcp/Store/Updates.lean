import IdaMcp.Store.Index

/-!
# Updates of the index that are kept

A call that reads the index while another stands between its read and its rename
may write back a copy without what the other wrote. As long as none does, the
index is what the calls make of it one after the other.
-/

namespace IndexFile
open Lib Store
variable {hash : Text} {copy : Index} {t : Task Op.Res Call} {n : Inode} {s : Disk} {i : Nat}
  {op : Op} {env : Env}

/-- The effects of a history, newest first, on the index that was there before. -/
def replay (history : List Effect) (index : Index) : Index := history.foldr Effect.apply index

theorem get_replay_append {h : Text} (later : List Effect) (hl : ∀ e∈later, h∉e.hashes)
    (earlier : List Effect) (m : Index) :
    (replay (later++earlier) m).get h=(replay earlier m).get h := by
  induction later with
  | nil => rfl
  | cons e later ih =>
    have he : h∉e.hashes:=hl e List.mem_cons_self
    calc (e.apply (replay (later++earlier) m)).get h
        = (replay (later++earlier) m).get h := Effect.get_apply_other he _
      _ = (replay earlier m).get h := ih fun e' he' => hl e' (List.mem_cons_of_mem _ he')

theorem get_replay_put {history : List Effect} (hd : ∀ hs, Effect.drop hs∈history → hash∉hs)
    (m : Index) (hp : ∃ path kind size now, Effect.put hash path kind size now∈history) :
    ∃ path kind size now created, Effect.put hash path kind size now∈history ∧
      (replay history m).get hash=some ⟨hash,path,kind,size,created,now⟩ := by
  induction history with
  | nil => obtain ⟨_,_,_,_,h⟩:=hp; cases h
  | cons e history ih =>
    have hd' : ∀ hs, Effect.drop hs∈history → hash∉hs:=
      fun hs h => hd hs (List.mem_cons_of_mem _ h)
    by_cases he : hash∈e.hashes
    · cases e with
      | drop hs => exact absurd he (hd hs List.mem_cons_self)
      | put x path kind size now =>
        obtain rfl:=List.mem_singleton.mp he
        exact ⟨path,kind,size,now,_,List.mem_cons_self,Map.get_insert_self _ _ _⟩
    · have hp' : ∃ path kind size now, Effect.put hash path kind size now∈history := by
        obtain ⟨path,kind,size,now,h⟩:=hp
        rcases List.mem_cons.mp h with rfl | h
        · exact absurd (List.mem_singleton.mpr rfl) he
        · exact ⟨path,kind,size,now,h⟩
      obtain ⟨path,kind,size,now,created,hm,hg⟩:=ih hd' hp'
      exact ⟨path,kind,size,now,created,List.mem_cons_of_mem _ hm,
        (Effect.get_apply_other he _).trans hg⟩

inductive Phase
  | fresh
  | held (index : Index)
  | opened (index : Index) (file : Inode)
  | written (index : Index) (file : Inode) (copy : Index)
  | done (effect : Effect)

def Phase.next : Phase → Event Op.Res → Phase
  | _,⟨.read,index⟩ => .held index
  | .held index,⟨.create,file⟩ => .opened index file
  | .opened index file,⟨.write _ copy,_⟩ => .written index file copy
  | _,⟨.rename effect,_⟩ => .done effect
  | m,_ => m

/-- Every call reads, then writes its copy to the file it has opened, and renames that:
the copy is what it read with the effect of the call. -/
def Phase.Allowed : Phase → Op → Prop
  | .fresh,.read => True
  | .held _,.lookup _ | .held _,.removeFiles _ | .held _,.create => True
  | .opened _ file,.write n _ => n=file
  | .written index _ copy,.rename effect => copy=effect.apply index
  | _,_ => False

def phases : Monitor Op.Res Phase where
  next := Phase.next
  allowed := Phase.Allowed
  good _ _ := True

/-- A call ends with its effect or, other than `record`, where it found nothing to do. -/
def Call.Ends : Call → Phase → Prop
  | .record hash path kind size now,m => m=.done (.put hash path kind size now)
  | _,m => (∃ index,m=.held index) ∨ ∃ effect,m=.done effect

theorem writeBack_wp {index : Index} {effect : Effect} (h : copy=effect.apply index) :
    phases.wp (writeBack copy effect) (fun _ m => m=.done effect) (.held index) := by
  simp only [writeBack,Monitor.wp_bind,Monitor.wp_perform]
  exact ⟨trivial,fun _ _ => ⟨rfl,fun _ _ => ⟨h,fun _ _ => rfl⟩⟩⟩

theorem orphans_wp (index : Index) (es : List ((_ : Text) × IdbEntry)) :
    phases.wp (orphans es) (fun _ m => m=.held index) (.held index) := by
  induction es with
  | nil => rfl
  | cons e es ih =>
    simp only [orphans,Monitor.wp_bind,Monitor.wp_perform,Monitor.wp_pure]
    exact ⟨trivial,fun _ _ => phases.wp_mono ih fun _ m hm => hm⟩

theorem remove_wp (hash : Text) :
    phases.wp (remove hash) (fun _ m => (Call.remove hash).Ends m) .fresh := by
  rw [remove,Monitor.wp_bind,Monitor.wp_perform]
  refine ⟨trivial,fun index _ => ?_⟩
  cases index.get hash with
  | none => exact .inl ⟨index,rfl⟩
  | some e =>
    simp only [Monitor.wp_bind,Monitor.wp_perform,Monitor.wp_pure]
    refine ⟨trivial,fun _ _ => phases.wp_mono (writeBack_wp rfl) fun _ m hm => ?_⟩
    exact .inr ⟨_,hm⟩

theorem clean_wp : phases.wp clean (fun _ m => Call.clean.Ends m) .fresh := by
  rw [clean,Monitor.wp_bind,Monitor.wp_perform]
  refine ⟨trivial,fun index _ => phases.wp_seq (orphans_wp index _) fun orphaned m hm => ?_⟩
  subst hm
  dsimp only
  split
  · exact .inl ⟨index,rfl⟩
  · exact phases.wp_seq (writeBack_wp rfl) fun _ m hm => .inr ⟨_,hm⟩

theorem body_wp (c : Call) : phases.wp c.body (fun _ m => c.Ends m) .fresh := by
  cases c with
  | record hash path kind size now =>
    exact ⟨trivial,fun index _ => writeBack_wp rfl⟩
  | remove hash => exact phases.wp_seq (remove_wp hash) fun _ _ hm => hm
  | clean => exact phases.wp_seq clean_wp fun _ _ hm => hm

/-- A call between its first step and its end. -/
def busy (t : Task Op.Res Call) : Bool := !t.log.isEmpty && !t.prog.finished

/-- The index is read only while no other call is under way. -/
def Exclusive (p : Pool Op.Res Call Disk) : Label Op.Res Call → Prop
  | .run i ⟨.read,_⟩ => ∀ u∈p.tasks.eraseIdx i, busy u=false
  | _ => True

instance (p : Pool Op.Res Call Disk) : (l : Label Op.Res Call) → Decidable (Exclusive p l)
  | .run i ⟨.read,_⟩ => inferInstanceAs (Decidable (∀ u∈p.tasks.eraseIdx i, busy u=false))
  | .run _ ⟨.lookup _,_⟩ | .run _ ⟨.removeFiles _,_⟩ | .run _ ⟨.create,_⟩ |
    .run _ ⟨.write _ _,_⟩ | .run _ ⟨.rename _,_⟩ | .start _ => inferInstanceAs (Decidable True)

def Disk.Parses (d : Disk) : Prop := ∀ n, d.index=some n → ∃ m, d.inodes n=.doc m

abbrev phase (t : Task Op.Res Call) : Phase := phases.track (fun _ => .fresh) t

theorem phase_fresh (h : t.log.isEmpty=true) : phase t=.fresh := by
  rw [phase,Monitor.track,List.isEmpty_iff.mp h]
  rfl

/-- The directory between two calls, and while one is writing its copy. -/
structure Disk.Sound (found : Index) (d : Disk) : Prop where
  parses : d.Parses
  replayed : d.load=replay d.history found
  index_lt : ∀ n, d.index=some n → n < d.nextInode
  temp_lt : ∀ n, d.temp=some n → n < d.nextInode
  temp_ne : ∀ n, d.temp=some n → d.index≠some n

/-- What a call under way knows of the directory. -/
def Phase.Knows (d : Disk) : Phase → Prop
  | .fresh | .done _ => True
  | .held m => m=d.load
  | .opened m file => m=d.load ∧ d.temp=some file ∧ d.inodes file=.empty
  | .written m file copy => m=d.load ∧ d.temp=some file ∧ d.inodes file=.doc copy

namespace Disk
variable {found : Index} {d : Disk}

theorem load_set (h : d.index≠some n) (c : Content) : (d.set n c).load=d.load := by
  unfold load set
  cases hi : d.index with
  | none => rfl
  | some i =>
    have hne : i≠n:=fun he => h (by rw [hi,he])
    simp only [Option.map_some,if_neg hne]

theorem Sound.set (hs : d.Sound found) (h : d.index≠some n) (c : Content) :
    (d.set n c).Sound found where
  parses i hi := by
    have hne : i≠n:=fun he => h (he ▸ hi)
    obtain ⟨m,hm⟩:=hs.parses i hi
    exact ⟨m,(if_neg hne).trans hm⟩
  replayed := (load_set h c).trans hs.replayed
  index_lt := hs.index_lt
  temp_lt := hs.temp_lt
  temp_ne := hs.temp_ne

theorem create_sound (hs : d.Sound found) :
    d.create.2.Sound found ∧ d.create.2.load=d.load ∧ d.create.2.temp=some d.create.1 ∧
      d.create.2.inodes d.create.1=.empty ∧ d.create.2.history=d.history := by
  unfold create
  cases ht : d.temp with
  | some n =>
    have hne:=hs.temp_ne n ht
    exact ⟨hs.set hne _,load_set hne _,ht,if_pos rfl,rfl⟩
  | none =>
    have hne : d.index≠some d.nextInode:=fun h => Nat.lt_irrefl _ (hs.index_lt _ h)
    have hset:=hs.set hne .empty
    refine ⟨⟨hset.parses,hset.replayed,fun n hn => ?_,fun n hn => ?_,fun n hn => ?_⟩,load_set hne _,
      rfl,if_pos rfl,rfl⟩
    · exact Nat.lt_succ_of_lt (hs.index_lt n hn)
    · exact Option.some.inj hn ▸ Nat.lt_succ_self _
    · exact Option.some.inj hn ▸ hne

theorem write_eq (h : d.inodes n=.empty) (copy : Index) (longer : Bool) :
    d.write n copy longer=d.set n (.doc copy) := by
  rw [write,h]

theorem load_rename (ht : d.temp=some n) (hn : d.inodes n=.doc copy)
    (effect : Effect) : (d.rename effect).load=copy := by
  rw [rename,ht]
  simp only [load,Option.map_some,hn]
  rfl

theorem rename_sound {effect : Effect} (hs : d.Sound found) (ht : d.temp=some n)
    (hn : d.inodes n=.doc copy)
    (hc : copy=effect.apply d.load) : (d.rename effect).Sound found := by
  have hl:=load_rename ht hn effect
  rw [rename,ht] at hl ⊢
  refine ⟨fun i hi => ?_,?_,fun i hi => ?_,nofun,nofun⟩
  · exact ⟨copy,Option.some.inj hi ▸ hn⟩
  · rw [hl,hc,hs.replayed]
    rfl
  · exact Option.some.inj hi ▸ hs.temp_lt n ht

theorem new_sound (found : Option Index) (left : Option Content) :
    (Disk.new found left).Sound (found.getD ∅) := by
  have hi : ∀ n, (Disk.new found left).index=some n → n=0 ∧ ∃ m, found=some m := by
    intro n hn
    obtain ⟨m,hm,rfl⟩:=Option.map_eq_some_iff.mp hn
    exact ⟨rfl,m,hm⟩
  have ht : ∀ n, (Disk.new found left).temp=some n → n=1 := by
    intro n hn
    obtain ⟨_,_,rfl⟩:=Option.map_eq_some_iff.mp hn
    rfl
  refine ⟨fun n hn => ?_,?_,fun n hn => ?_,fun n hn => ?_,fun n hn hx => ?_⟩
  · obtain ⟨rfl,m,rfl⟩:=hi n hn
    exact ⟨m,rfl⟩
  · cases found <;> rfl
  · exact (hi n hn).1 ▸ Nat.two_pos
  · exact ht n hn ▸ Nat.one_lt_two
  · exact absurd ((ht n hn).symm.trans (hi n hx).1) (by decide)

end Disk

/-- The whole of the run: the directory, what the call under way knows of it, that there
is at most one, and that a call that is done left its effect in the history. -/
structure Orderly (found : Index) (p : Pool Op.Res Call Disk) : Prop where
  sound : p.state.Sound found
  knows : ∀ t∈p.tasks, busy t=true → (phase t).Knows p.state
  alone : ∀ (i j : Nat) t u, p.tasks[i]?=some t → p.tasks[j]?=some u → busy t=true → busy u=true →
    i=j
  done : ∀ t∈p.tasks, ∀ e, phase t=.done e → e∈p.state.history

theorem step_knows {found : Index} {d : Disk} {m : Phase} {r : op.Res} (hs : d.Sound found)
    (hm : m.Knows d) (ha : m.Allowed op) (hx : exec i op env d=some (r,s)) :
    s.Sound found ∧ (m.next ⟨op,r⟩).Knows s ∧ (∀ e∈d.history, e∈s.history) ∧
      ∀ e, m.next ⟨op,r⟩=.done e → e∈s.history := by
  cases m with
  | fresh =>
    cases op <;> cases ha
    cases hx
    exact ⟨hs,rfl,fun _ h => h,nofun⟩
  | held index =>
    cases op <;> cases ha
    case lookup.intro => cases hx; exact ⟨hs,hm,fun _ h => h,nofun⟩
    case removeFiles.intro => cases hx; exact ⟨hs,hm,fun _ h => h,nofun⟩
    case create.intro =>
      have hc:=Disk.create_sound hs
      rw [show d.create=(r,s) from Option.some.inj hx] at hc
      obtain ⟨hsound,hload,htemp,hempty,hh⟩:=hc
      exact ⟨hsound,⟨hm.trans hload.symm,htemp,hempty⟩,fun e he => hh ▸ he,nofun⟩
  | opened index file =>
    cases op <;> cases ha
    cases hx
    obtain ⟨hl,ht,he⟩:=hm
    rw [Disk.write_eq he]
    have hne:=hs.temp_ne file ht
    exact ⟨hs.set hne _,⟨hl.trans (Disk.load_set hne _).symm,ht,if_pos rfl⟩,fun _ h => h,nofun⟩
  | written index file copy =>
    cases op
    case rename effect =>
      cases hx
      obtain ⟨hl,ht,hc⟩:=hm
      have hh : (d.rename effect).history=effect::d.history := by rw [Disk.rename,ht]
      refine ⟨Disk.rename_sound hs ht hc (hl ▸ ha),trivial,fun e he => ?_,fun e he => ?_⟩
      · exact hh ▸ List.mem_cons_of_mem _ he
      · cases he
        exact hh ▸ List.mem_cons_self
    all_goals cases ha
  | done e => cases op <;> cases ha

section Runs
variable {found : Option Index} {left : Option Content} {p : Pool Op.Res Call Disk}

theorem orderly_start {found : Index} (h : Orderly found p) (c : Call) :
    Orderly found ⟨p.state,p.tasks++[processes.newTask c]⟩ where
  sound := h.sound
  knows t ht hb := by
    rcases List.mem_append.mp ht with ht | ht
    · exact h.knows t ht hb
    · cases List.mem_singleton.mp ht
      cases hb
  alone i j t u ht hu hb hc := by
    rcases append_getElem? ht with ht | ⟨-,rfl⟩
    · rcases append_getElem? hu with hu | ⟨-,rfl⟩
      · exact h.alone i j t u ht hu hb hc
      · cases hc
    · cases hb
  done t ht e he := by
    rcases List.mem_append.mp ht with ht | ht
    · exact h.done t ht e he
    · cases List.mem_singleton.mp ht
      cases he

theorem others_idle {found : Index} (h : Orderly found p) {r : op.Res}
    (hf : Fired processes phases (fun _ => .fresh) Exclusive p i t op env r s) {j : Nat}
    {u : Task Op.Res Call} (hu : p.tasks[j]?=some u) (hj : j≠i) : busy u=false := by
  cases hl : t.log.isEmpty with
  | true =>
    have ha : (Phase.fresh).Allowed op:=phase_fresh hl ▸ hf.allowed
    cases op <;> cases ha
    exact hf.cond u (List.mem_eraseIdx_iff_getElem?.mpr ⟨j,hj,hu⟩)
  | false =>
    have hb : busy t=true := by rw [busy,hl,hf.unfinished]; rfl
    rw [← Bool.not_eq_true]
    exact fun hc => hj (h.alone j i u t hu hf.task hc hb)

theorem orderly_run {found : Index} (h : Orderly found p) (k : op.Res → Run Unit) {r : op.Res}
    (hf : Fired processes phases (fun _ => .fresh) Exclusive p i t op env r s) :
    Orderly found (processes.resumed p i t op k r s) := by
  have hk : (phase t).Knows p.state := by
    cases hl : t.log.isEmpty with
    | true => rw [phase_fresh hl]; trivial
    | false => exact h.knows t (List.mem_of_getElem? hf.task) (by rw [busy,hl,hf.unfinished]; rfl)
  obtain ⟨hsound,hknows,hmono,hdone⟩:=step_knows (i := i) h.sound hk hf.allowed hf.exec
  have split : ∀ {j : Nat} {u}, (processes.resumed p i t op k r s).tasks[j]?=some u →
      (j=i ∧ phase u=(phase t).next ⟨op,r⟩) ∨ (busy u=false ∧ u∈p.tasks) := by
    intro j u hu
    rcases set_append_getElem? hu with ⟨rfl,-,rfl⟩ | ⟨hj,hu⟩ | ⟨-,hu⟩
    · exact .inl ⟨rfl,rfl⟩
    · exact .inr ⟨others_idle h hf hu hj,List.mem_of_getElem? hu⟩
    · cases hu
  refine ⟨hsound,fun u hu hb => ?_,fun j₁ j₂ u₁ u₂ h₁ h₂ b₁ b₂ => ?_,fun u hu e he => ?_⟩
  · obtain ⟨j,hj⟩:=List.mem_iff_getElem?.mp hu
    rcases split hj with ⟨-,hp⟩ | ⟨hn,-⟩
    · rw [hp]
      exact hknows
    · rw [hn] at hb
      cases hb
  · rcases split h₁ with ⟨e₁,-⟩ | ⟨hn,-⟩
    · rcases split h₂ with ⟨e₂,-⟩ | ⟨hn,-⟩
      · exact e₁.trans e₂.symm
      · rw [hn] at b₂
        cases b₂
    · rw [hn] at b₁
      cases b₁
  · obtain ⟨j,hj⟩:=List.mem_iff_getElem?.mp hu
    rcases split hj with ⟨-,hp⟩ | ⟨-,hm⟩
    · exact hdone e (hp ▸ he)
    · exact hmono e (h.done u hm e he)

theorem orderly (hr : processes.Reach Exclusive (Disk.new found left) p) :
    Orderly (found.getD ∅) p :=
  reach_pool processes phases (fun _ => .fresh) Exclusive Call.Ends
    (Ψ := Orderly (found.getD ∅)) body_wp
    (fun _ _ _ _ _ _ => trivial) ⟨Disk.new_sound found left,nofun,nofun,nofun⟩
      (fun _ c _ h _ _ => orderly_start h c)
    (fun _ _ _ _ k _ _ _ _ h hf => orderly_run h k hf) hr

theorem record_done (hr : processes.Reach Exclusive (Disk.new found left) p) (ht : t∈p.tasks)
    {path : Text} {kind : BinaryType} {size now : Nat} (hc : t.call=.record hash path kind size now)
    (hf : t.prog.finished=true) : Effect.put hash path kind size now∈p.state.history := by
  obtain ⟨i,hi⟩:=List.mem_iff_getElem?.mp ht
  have hw:=conforms processes phases (fun _ => .fresh) Exclusive Call.Ends body_wp
    (fun _ _ _ _ _ _ => trivial) hr i t hi
  cases hp : t.prog with
  | ret a =>
    rw [hp,hc] at hw
    exact (orderly hr).done t ht _ hw
  | halt => rw [hp] at hf; cases hf
  | call op k => rw [hp] at hf; cases hf

/-- Once every call has finished: the index parses, has an entry of each hash that was recorded
and not removed since, and shows the last effect on each hash whatever was done to others. -/
structure Kept (found : Index) (p : Pool Op.Res Call Disk) : Prop where
  parses : p.state.Parses
  recorded : ∀ t∈p.tasks, ∀ hash path kind size now, t.call=.record hash path kind size now →
    (∀ hs, Effect.drop hs∈p.state.history → hash∉hs) →
    ∃ path kind size now created, Effect.put hash path kind size now∈p.state.history ∧
      p.state.load.get hash=some ⟨hash,path,kind,size,created,now⟩
  stands : ∀ later e earlier hash, p.state.history=later++e::earlier → hash∈e.hashes →
    (∀ e'∈later, hash∉e'.hashes) →
    p.state.load.get hash=(e.apply (replay earlier found)).get hash

def Quiet (p : Pool Op.Res Call Disk) : Prop := ∀ t∈p.tasks, t.prog.finished=true

/-- No update is lost while one call at a time works on the index. -/
theorem updates_kept (hr : processes.Reach Exclusive (Disk.new found left) p) (hq : Quiet p) :
    Kept (found.getD ∅) p := by
  have ho:=orderly hr
  refine ⟨ho.sound.parses,fun t ht hash path kind size now hc hd => ?_,
    fun later e earlier hash hh _ hl => ?_⟩
  · have hm:=record_done hr ht hc (hq t ht)
    rw [ho.sound.replayed]
    exact get_replay_put hd _ ⟨path,kind,size,now,hm⟩
  · rw [ho.sound.replayed,hh]
    exact get_replay_append later hl (e::earlier) _

end Runs

def hashA : Text := ['a']
def hashB : Text := ['b']

def recordOf (hash : Text) (now : Nat) : Call := .record hash [] .native 0 now

def runs (i n : Nat) : List (Act Call Env) := List.replicate n (.run i ⟨false,false⟩)

instance (p : Pool Op.Res Call Disk) : Decidable (Quiet p) :=
  inferInstanceAs (Decidable (∀ t∈p.tasks, t.prog.finished=true))

/-- Two calls and a third that removes what the first has recorded, one after the other. -/
theorem updates_kept_three : ∃ p, processes.Reach Exclusive (Disk.new none none) p ∧ Quiet p ∧
    (p.tasks.length=3 ∧ p.state.history.length=3) ∧ Kept ∅ p := by
  obtain ⟨p,hp,ht⟩:=processes.play_when Exclusive (Disk.new none none)
    ([.start (recordOf hashA 1),.start (recordOf hashB 2),.start (.remove hashA)]++runs 0 4++
      runs 1 4++
      runs 2 5)
    (fun p => decide (Quiet p ∧ p.tasks.length=3 ∧ p.state.history.length=3)) (by decide +kernel)
  obtain ⟨hq,hl⟩:=of_decide_eq_true ht
  exact ⟨p,hp,hq,hl,updates_kept hp hq⟩

def missing (hash : Text) (d : Disk) : Bool := (d.load.get hash).isNone

def onlyPuts (history : List Effect) : Bool := history.all fun
  | .put _ _ _ _ _ => true
  | .drop _ => false

def isRecord (hash : Text) : Call → Bool
  | .record h _ _ _ _ => h==hash
  | _ => false

theorem isRecord_eq {c : Call} (h : isRecord hash c=true) :
    ∃ path kind size now, c=.record hash path kind size now := by
  cases c with
  | record x path kind size now => exact ⟨path,kind,size,now,by rw [beq_iff_eq.mp h]⟩
  | remove => cases h
  | clean => cases h

theorem onlyPuts_not_mem {history : List Effect} (h : onlyPuts history=true) (hs : List Text) :
    Effect.drop hs∉history := by
  intro hm
  exact absurd (List.all_eq_true.mp h _ hm) Bool.false_ne_true

/-- Both read before either writes: the second rename puts an index in place that lacks the
entry of the first. -/
theorem updates_lost : ∃ p, processes.Reach (fun _ _ => True) (Disk.new none none) p ∧ Quiet p ∧
    p.state.load.get hashA=none ∧ ¬Kept ∅ p := by
  obtain ⟨p,hp,ht⟩:=processes.play_free (Disk.new none none)
    ([.start (recordOf hashA 1),.start (recordOf hashB 2)]++runs 0 1++runs 1 1++runs 0 3++runs 1 3)
    (fun p => decide (Quiet p) && missing hashA p.state && onlyPuts p.state.history &&
      p.tasks.any fun t => isRecord hashA t.call) (by decide +kernel)
  simp only [Bool.and_eq_true] at ht
  obtain ⟨⟨⟨hq,hm⟩,ho⟩,ht⟩:=ht
  have hn:=Option.isNone_iff_eq_none.mp hm
  refine ⟨p,hp,of_decide_eq_true hq,hn,fun hk => ?_⟩
  obtain ⟨t,ht,hc⟩:=List.any_eq_true.mp ht
  obtain ⟨path,kind,size,now,hc⟩:=isRecord_eq hc
  obtain ⟨_,_,_,_,_,-,hg⟩:=hk.recorded t ht hashA path kind size now hc
    fun hs h => absurd h (onlyPuts_not_mem ho hs)
  rw [hg] at hn
  cases hn

end IndexFile
