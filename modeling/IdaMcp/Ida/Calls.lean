import IdaMcp.Ida.Database
import Mathlib.Data.List.Nodup

/-!
# Callers and callees (`src/ida/handlers/controlflow.rs`)

`handle_callees` walks over the heads of a function and asks which function each
call leads into; `handle_callers` follows the calls that lead to its start.
-/

namespace Ida
open Lib Rpc
variable {f : Function} {a : UInt64}

/-- Models `seen`: a function is listed once, by its start. -/
def noteFunction (found : List Function) (f : Function) : List Function :=
  if f.start ∈ found.map (·.start) then found else found++[f]

/-- One reference of a listing; `far` is its other end. -/
def noteCall (db : Idb) (far : XRef → UInt64) (found : List Function) (x : XRef) : List Function :=
  if x.isCall then
    match db.functionAt (far x) with
    | some f => noteFunction found f
    | none => found
  else found

def noteCalls (db : Idb) (far : XRef → UInt64) (xs : List XRef) (found : List Function) :
    List Function :=
  xs.foldl (noteCall db far) found

/-- Lines 76-117. -/
def calleesFrom (db : Idb) (finish current : UInt64) (found : List Function) : List Function :=
  if current < finish then
    let found:=noteCalls db XRef.target (db.xrefsFrom current) found
    match db.nextHead current with
    | some next => if next ≤ current then found else calleesFrom db finish next found
    | none => found
  else found
  termination_by finish.toNat-current.toNat
  decreasing_by
    rename_i h hn
    have h:=UInt64.lt_iff_toNat_lt.mp h
    have hn:=UInt64.lt_iff_toNat_lt.mp (UInt64.not_le.mp hn)
    omega

def handleCallees (idb : Option Idb) (addr : UInt64) : Result (List FunctionInfo) := do
  let db ← openDb idb
  match db.functionAt addr with
  | none => .error (.functionNotFound addr)
  | some func => return (calleesFrom db func.finish func.start []).map Function.info

/-- Lines 122-160. -/
def handleCallers (idb : Option Idb) (addr : UInt64) : Result (List FunctionInfo) := do
  let db ← openDb idb
  match db.functionAt addr with
  | none => .error (.functionNotFound addr)
  | some func => return (noteCalls db XRef.source (db.xrefsTo func.start) []).map Function.info

/-- The start of the function an address belongs to. -/
def Idb.ownerStart (db : Idb) (addr : UInt64) : Option UInt64 := (db.functionAt addr).map (·.start)

section
variable {db : Idb} {far : XRef → UInt64} {found : List Function}

theorem mem_noteFunction :
    a ∈ (noteFunction found f).map (·.start) ↔ a ∈ found.map (·.start) ∨ f.start=a := by
  rw [noteFunction]
  by_cases h : f.start ∈ found.map (·.start)
  · rw [if_pos h]
    refine ⟨.inl,fun ha => ha.elim id fun ha => ?_⟩
    rwa [← ha]
  · rw [if_neg h,List.map_append,List.mem_append,List.map_singleton,List.mem_singleton,
      eq_comm (a := a)]

theorem mem_noteCall {x : XRef} : a ∈ (noteCall db far found x).map (·.start) ↔
      a ∈ found.map (·.start) ∨ x.isCall ∧ db.ownerStart (far x)=some a := by
  rw [noteCall,Idb.ownerStart]
  by_cases hc : x.isCall
  · rw [if_pos hc]
    cases db.functionAt (far x) with
    | none => simp
    | some f =>
      rw [mem_noteFunction]
      simp [hc]
  · simp [hc]

theorem mem_noteCalls {xs : List XRef} : a ∈ (noteCalls db far xs found).map (·.start) ↔
      a ∈ found.map (·.start) ∨ ∃ x ∈ xs,x.isCall ∧ db.ownerStart (far x)=some a := by
  induction xs generalizing found with
  | nil => simp [noteCalls]
  | cons x xs ih =>
    change a ∈ (noteCalls db far xs (noteCall db far found x)).map (·.start) ↔ _
    rw [ih,mem_noteCall,or_assoc]
    simp

theorem noteCall_nodup {x : XRef} (h : (found.map (·.start)).Nodup) :
    ((noteCall db far found x).map (·.start)).Nodup := by
  rw [noteCall]
  split
  · split
    · rw [noteFunction]
      split
      · exact h
      · rename_i hf
        rw [List.map_append]
        exact List.nodup_append'.mpr ⟨h,List.nodup_singleton _,
          List.disjoint_singleton.mpr hf⟩
    · exact h
  · exact h

theorem noteCalls_nodup {xs : List XRef} (h : (found.map (·.start)).Nodup) :
    ((noteCalls db far xs found).map (·.start)).Nodup := by
  induction xs generalizing found with
  | nil => exact h
  | cons x xs ih => exact ih (noteCall_nodup h)

/-- The heads that the walk over a function visits. -/
def headsFrom (db : Idb) (finish current : UInt64) : List UInt64 :=
  if current < finish then
    match db.nextHead current with
    | some next => if next ≤ current then [current] else current::headsFrom db finish next
    | none => [current]
  else []
  termination_by finish.toNat-current.toNat
  decreasing_by
    rename_i h hn
    have h:=UInt64.lt_iff_toNat_lt.mp h
    have hn:=UInt64.lt_iff_toNat_lt.mp (UInt64.not_le.mp hn)
    omega

theorem calleesFrom_eq (finish current : UInt64) :
    calleesFrom db finish current found=
      noteCalls db XRef.target ((headsFrom db finish current).flatMap db.xrefsFrom) found := by
  have happ : ∀ (xs ys : List XRef) (found : List Function),
      noteCalls db XRef.target (xs++ys) found=
        noteCalls db XRef.target ys (noteCalls db XRef.target xs found) :=
    fun xs ys found => List.foldl_append
  fun_induction calleesFrom db finish current found with
  | case1 current found h found' next hn hle =>
    simp [headsFrom,h,hn,hle,found']
  | case2 current found h found' next hn hle ih =>
    rw [headsFrom,if_pos h,hn]
    dsimp only
    rw [if_neg hle,List.flatMap_cons,happ,ih]
  | case3 current found h found' hn =>
    simp [headsFrom,h,hn,found']
  | case4 current found h =>
    rw [headsFrom,if_neg h]
    rfl

theorem calleesFrom_nodup (finish current : UInt64) :
    ((calleesFrom db finish current []).map (·.start)).Nodup := by
  rw [calleesFrom_eq]
  exact noteCalls_nodup List.nodup_nil

end

/-- The references from an address and those to an address are one relation. -/
structure Idb.RefsAgree (db : Idb) : Prop where
  source : ∀ a,∀ x ∈ db.xrefsFrom a,x.source=a
  target : ∀ a,∀ x ∈ db.xrefsTo a,x.target=a
  agree : ∀ x,x ∈ db.xrefsFrom x.source ↔ x ∈ db.xrefsTo x.target

/-- The next head is the least one above an address. -/
structure Idb.HeadsInOrder (db : Idb) (head : UInt64 → Prop) : Prop where
  least : ∀ a b,db.nextHead a=some b → head b ∧ a < b ∧ ∀ c,head c → a < c → b ≤ c
  last : ∀ a,db.nextHead a=none → ∀ c,head c → c ≤ a

/-- There is a call from one address to another. -/
def Idb.Calls (db : Idb) (a t : UInt64) : Prop := ∃ x ∈ db.xrefsFrom a,x.isCall ∧ x.target=t

/-- A head in the range of `f` calls some address of `g`. -/
def Idb.CallsInto (db : Idb) (head : UInt64 → Prop) (f g : Function) : Prop :=
  ∃ a t,db.Calls a t ∧ (a=f.start ∨ head a) ∧ f.containsAddress a ∧ db.ownerStart t=some g.start

/-- An address of `f` calls the start of `g`. -/
def Idb.CallsStart (db : Idb) (f g : Function) : Prop :=
  ∃ a,db.Calls a g.start ∧ db.ownerStart a=some f.start

/-- A reply lists a function. -/
def Lists (reply : Result (List FunctionInfo)) (f : Function) : Prop :=
  ∃ infos,reply=.ok infos ∧ hexText f.start ∈ infos.map (·.address)

theorem lists_ok_iff {found : List Function} :
    Lists (.ok (found.map Function.info)) f ↔ f.start ∈ found.map (·.start) := by
  constructor
  · rintro ⟨infos,h,hmem⟩
    cases h
    rw [List.map_map] at hmem
    obtain ⟨g,hg,heq⟩:=List.mem_map.mp hmem
    exact List.mem_map.mpr ⟨g,hg,hexText_injective heq⟩
  · intro h
    obtain ⟨g,hg,heq⟩:=List.mem_map.mp h
    refine ⟨_,rfl,?_⟩
    rw [List.map_map]
    exact List.mem_map.mpr ⟨g,hg,congrArg hexText heq⟩

section
variable {db : Idb} {head : UInt64 → Prop}

theorem mem_headsFrom (hheads : db.HeadsInOrder head) (finish current a : UInt64) :
    a ∈ headsFrom db finish current ↔ (a=current ∨ head a) ∧ current ≤ a ∧ a < finish := by
  fun_induction headsFrom db finish current with
  | case1 current h next hn hle =>
    exact absurd (hheads.least current next hn).2.1 (UInt64.not_lt.mpr hle)
  | case2 current h next hn hle ih =>
    obtain ⟨hhead,hlt,hleast⟩:=hheads.least current next hn
    rw [List.mem_cons,ih]
    constructor
    · rintro (rfl | ⟨ha,hle,hfin⟩)
      · exact ⟨.inl rfl,UInt64.le_refl _,h⟩
      · exact ⟨.inr (ha.elim (fun ha => ha ▸ hhead) id),UInt64.le_trans (UInt64.le_of_lt hlt) hle,
          hfin⟩
    · rintro ⟨ha,hle,hfin⟩
      by_cases hc : a=current
      · exact .inl hc
      · have ha:=ha.resolve_left hc
        have hlt : current < a := UInt64.lt_of_le_of_ne hle (Ne.symm hc)
        exact .inr ⟨.inr ha,hleast a ha hlt,hfin⟩
  | case3 current h hn =>
    rw [List.mem_singleton]
    constructor
    · rintro rfl
      exact ⟨.inl rfl,UInt64.le_refl _,h⟩
    · rintro ⟨ha | ha,hle,-⟩
      · exact ha
      · exact UInt64.le_antisymm (hheads.last current hn a ha) hle
  | case4 current h =>
    refine ⟨fun ha => (by cases ha),?_⟩
    rintro ⟨-,hle,hfin⟩
    exact absurd (UInt64.lt_of_le_of_lt hle hfin) h

theorem lists_callees_iff (hheads : db.HeadsInOrder head) (hf : db.functionAt f.start=some f)
    (g : Function) : Lists (handleCallees (some db) f.start) g ↔ db.CallsInto head f g := by
  have heq : handleCallees (some db) f.start=
      .ok ((calleesFrom db f.finish f.start []).map Function.info) := by
    simp only [handleCallees,openDb,bind,Except.bind,hf]
    rfl
  rw [heq,lists_ok_iff,calleesFrom_eq,mem_noteCalls]
  constructor
  · rintro (h | ⟨x,hx,hcall,hown⟩)
    · cases h
    · obtain ⟨a,ha,hx⟩:=List.mem_flatMap.mp hx
      obtain ⟨ha,hrange⟩:=(mem_headsFrom hheads _ _ _).mp ha
      exact ⟨a,x.target,⟨x,hx,hcall,rfl⟩,ha,by simpa [Function.containsAddress] using hrange,hown⟩
  · rintro ⟨a,t,⟨x,hx,hcall,rfl⟩,ha,hrange,hown⟩
    refine .inr ⟨x,List.mem_flatMap.mpr ⟨a,(mem_headsFrom hheads _ _ _).mpr ⟨ha,?_⟩,hx⟩,hcall,hown⟩
    simpa [Function.containsAddress] using hrange

theorem lists_callers_iff (hrefs : db.RefsAgree) {g : Function}
    (hg : db.functionAt g.start=some g) (f : Function) :
    Lists (handleCallers (some db) g.start) f ↔ db.CallsStart f g := by
  have heq : handleCallers (some db) g.start=
      .ok ((noteCalls db XRef.source (db.xrefsTo g.start) []).map Function.info) := by
    simp only [handleCallers,openDb,bind,Except.bind,hg]
    rfl
  rw [heq,lists_ok_iff,mem_noteCalls]
  constructor
  · rintro (h | ⟨x,hx,hcall,hown⟩)
    · cases h
    · have ht:=hrefs.target _ x hx
      have hfrom : x ∈ db.xrefsFrom x.source := (hrefs.agree x).mpr (ht.symm ▸ hx)
      exact ⟨x.source,⟨x,hfrom,hcall,ht⟩,hown⟩
  · rintro ⟨a,⟨x,hx,hcall,ht⟩,hown⟩
    have hs:=hrefs.source _ x hx
    have hto : x ∈ db.xrefsTo x.target := (hrefs.agree x).mp (hs.symm ▸ hx)
    exact .inr ⟨x,ht ▸ hto,hcall,hs.symm ▸ hown⟩

end

/-- The two listings are converse for two functions exactly when the heads in the range of the
one call into the other just if some of its code calls the other's start. -/
theorem callees_callers_converse_iff (db : Idb) (head : UInt64 → Prop) (hrefs : db.RefsAgree)
    (hheads : db.HeadsInOrder head) (f g : Function) (hf : db.functionAt f.start=some f)
    (hg : db.functionAt g.start=some g) :
    (Lists (handleCallees (some db) f.start) g ↔ Lists (handleCallers (some db) g.start) f) ↔
      (db.CallsInto head f g ↔ db.CallsStart f g) := by
  rw [lists_callees_iff hheads hf,lists_callers_iff hrefs hg]

def middleCaller : Function := ⟨0x10,0x14,none,by decide⟩
def middleCallee : Function := ⟨0x20,0x30,none,by decide⟩
def middleCall : XRef := ⟨0x10,0x24,.nearCall⟩

/-- The one call of the caller leads past the start of the callee. -/
def middleDb : Idb :=
  { Idb.empty with
    functionAt := fun a => if middleCaller.containsAddress a then some middleCaller
      else if middleCallee.containsAddress a then some middleCallee else none
    nextHead := fun a => if a < 0x10 then some 0x10 else if a < 0x20 then some 0x20 else none
    xrefsFrom := fun a => if a=0x10 then [middleCall] else []
    xrefsTo := fun a => if a=0x24 then [middleCall] else [] }

theorem middleDb_refs : middleDb.RefsAgree where
  source := by
    intro a x hx
    by_cases h : a=0x10
    · rw [show middleDb.xrefsFrom a=[middleCall] from if_pos h,List.mem_singleton] at hx
      rw [hx,h]
      rfl
    · rw [show middleDb.xrefsFrom a=[] from if_neg h] at hx
      cases hx
  target := by
    intro a x hx
    by_cases h : a=0x24
    · rw [show middleDb.xrefsTo a=[middleCall] from if_pos h,List.mem_singleton] at hx
      rw [hx,h]
      rfl
    · rw [show middleDb.xrefsTo a=[] from if_neg h] at hx
      cases hx
  agree := by
    intro x
    have hf : x ∈ middleDb.xrefsFrom x.source ↔ x=middleCall := by
      by_cases h : x.source=0x10
      · rw [show middleDb.xrefsFrom x.source=[middleCall] from if_pos h,List.mem_singleton]
      · rw [show middleDb.xrefsFrom x.source=[] from if_neg h]
        exact ⟨fun hx => (by cases hx),fun hx => absurd (hx ▸ rfl) h⟩
    have ht : x ∈ middleDb.xrefsTo x.target ↔ x=middleCall := by
      by_cases h : x.target=0x24
      · rw [show middleDb.xrefsTo x.target=[middleCall] from if_pos h,List.mem_singleton]
      · rw [show middleDb.xrefsTo x.target=[] from if_neg h]
        exact ⟨fun hx => (by cases hx),fun hx => absurd (hx ▸ rfl) h⟩
    rw [hf,ht]

theorem middleDb_heads : middleDb.HeadsInOrder fun a => a=0x10 ∨ a=0x20 where
  least := by
    intro a b h
    by_cases h1 : a < 0x10
    · rw [show middleDb.nextHead a=some 0x10 from if_pos h1] at h
      cases h
      exact ⟨.inl rfl,h1,fun c hc _ => by rcases hc with rfl | rfl <;> decide⟩
    by_cases h2 : a < 0x20
    · rw [show middleDb.nextHead a=some 0x20 from (if_neg h1).trans (if_pos h2)] at h
      cases h
      refine ⟨.inr rfl,h2,fun c hc hlt => ?_⟩
      rcases hc with rfl | rfl
      · exact absurd hlt h1
      · exact UInt64.le_refl _
    · rw [show middleDb.nextHead a=none from (if_neg h1).trans (if_neg h2)] at h
      cases h
  last := by
    intro a h c hc
    by_cases h1 : a < 0x10
    · rw [show middleDb.nextHead a=some 0x10 from if_pos h1] at h
      cases h
    by_cases h2 : a < 0x20
    · rw [show middleDb.nextHead a=some 0x20 from (if_neg h1).trans (if_pos h2)] at h
      cases h
    · rcases hc with rfl | rfl
      · exact UInt64.not_lt.mp h1
      · exact UInt64.not_lt.mp h2

theorem callees_callers_converse_middle :
    (Lists (handleCallees (some middleDb) middleCaller.start) middleCallee ↔
        Lists (handleCallers (some middleDb) middleCallee.start) middleCaller) ↔
      (middleDb.CallsInto (fun a => a=0x10 ∨ a=0x20) middleCaller middleCallee ↔
        middleDb.CallsStart middleCaller middleCallee) :=
  callees_callers_converse_iff middleDb _ middleDb_refs middleDb_heads middleCaller middleCallee
    rfl rfl

/-- The caller's callees name the callee, whose callers name nobody. -/
theorem middle_call_one_way :
    middleDb.RefsAgree ∧ middleDb.HeadsInOrder (fun a => a=0x10 ∨ a=0x20) ∧
      middleDb.functionAt middleCaller.start=some middleCaller ∧
      middleDb.functionAt middleCallee.start=some middleCallee ∧
      Lists (handleCallees (some middleDb) middleCaller.start) middleCallee ∧
      ¬Lists (handleCallers (some middleDb) middleCallee.start) middleCaller := by
  refine ⟨middleDb_refs,middleDb_heads,rfl,rfl,?_,?_⟩
  · rw [lists_callees_iff middleDb_heads rfl]
    exact ⟨0x10,0x24,⟨middleCall,List.mem_singleton_self _,rfl,rfl⟩,.inl rfl,by decide,by decide⟩
  · rintro ⟨infos,h,hmem⟩
    have hnone : handleCallers (some middleDb) middleCallee.start=.ok [] := rfl
    rw [hnone] at h
    cases h
    cases hmem

end Ida
