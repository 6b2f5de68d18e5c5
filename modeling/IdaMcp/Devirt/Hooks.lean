import IdaMcp.Devirt.Image
import IdaMcp.Lib.Assoc
import IdaMcp.Lib.Buffer

/-!
# Hook addresses

`_fill_iat` puts an address of its own into the slot of each imported
function, and `_fill_rdata_hooks` one for each distinct value into the slots of
`.rdata` that look like dark pointers. The addresses are counted up through
regions that `_alloc` hands out one after another.
-/

namespace Devirt
open Lib
variable {i : Nat}

def alignUp (align n : Nat) : Nat := (n+align-1)/align*align

theorem le_alignUp (align : Nat) (h : 0<align) (n : Nat) : n ≤ alignUp align n := by
  have hd:=Nat.lt_div_mul_add (a := n+align-1) h
  rw [alignUp]
  omega

/-- An entry of `hook_map`, before its address is cut to a machine word. -/
structure Hook where
  dll : List Char
  func : List Char
  iat : Nat
  hook : Nat
  sym : List Char
  deriving DecidableEq,Repr

/-- `_alloc_cursor`, `hook_map` and the qwords written over slots, the last at
the end. -/
structure Emulator where
  cursor : Nat
  hookMap : Map Nat Hook
  qwords : List (Nat × Nat)

def Emulator.alloc (s : Emulator) (size align : Nat) : Nat × Emulator :=
  let base:=alignUp align s.cursor
  (base,{s with cursor := base+size})

/-- `struct.pack("<Q", ..)` at an address. -/
def slotWrite (x : Nat × Nat) : Write := ⟨x.1,le 8 x.2⟩

/-- The memory that was `mem` before the qwords were written. -/
def Emulator.memory (s : Emulator) (mem : Nat → UInt8) : Nat → UInt8 :=
  writeAll (s.qwords.map slotWrite) mem

/-- The last write over one of the eight bytes of a slot. -/
def Emulator.lastWrite (s : Emulator) (va : Nat) : Option (Nat × Nat) :=
  s.qwords.reverse.find? fun w => w.1<va+8 && va<w.1+8

/-- All hooks are in regions handed out before. -/
def Emulator.Below (s : Emulator) : Prop := ∀ a h,s.hookMap.get a=some h → a<s.cursor

inductive Imported where
  | name (text : List Char)
  | ordinal (n : Nat)

def Imported.text : Imported → List Char
  | .name text => text
  | .ordinal n => ['o','r','d','_']++Nat.toDigits 10 n

structure ImportDescriptor where
  dll : List Char
  firstThunk : Nat
  imports : List Imported

/-- The `.rdata` section. -/
structure Rdata where
  rva : Nat
  va : Nat
  vsize : Nat
  data : List UInt8

structure PeFile where
  ib : Nat
  isPe32plus : Bool
  directory : Option (List ImportDescriptor)
  rdata : Option Rdata
  epResolved : Map Nat (List Char)

structure Entry where
  dll : List Char
  func : List Char
  iat : Nat

def Entry.hook (e : Entry) (a : Nat) : Hook := ⟨e.dll,e.func,e.iat,a,mangle e.dll e.func⟩

def PeFile.entries (pe : PeFile) : List Entry :=
  (pe.directory.getD []).flatMap fun de => de.imports.mapIdx fun i imp =>
    ⟨de.dll,imp.text,pe.ib+de.firstThunk+i*(if pe.isPe32plus then 8 else 4)⟩

/-- An entry for each element, the addresses 16 apart. -/
def hookAll {α : Type} (hook : α → Nat → Hook) (a : Nat) : List α → Map Nat Hook → Map Nat Hook
  | [],m => m
  | x::xs,m => hookAll hook (a+0x10) xs (m.insert a (hook x a))

/-- The entry of an import and the write to its slot are of one loop. -/
def Emulator.fillIat (pe : PeFile) (s : Emulator) : Emulator :=
  match pe.directory with
  | none => s
  | some _ =>
    let fake:=s.alloc 0x10000 0x10000
    { fake.2 with
      hookMap := hookAll Entry.hook fake.1 pe.entries s.hookMap
      qwords := s.qwords++pe.entries.mapIdx fun i e => (e.iat,fake.1+0x10*i) }

structure DarkSlot where
  va : Nat
  val : Nat

variable {slots : List DarkSlot}

def Rdata.darkSlots (sec : Rdata) : List DarkSlot :=
  (offsets 0 (min sec.data.length sec.vsize-7) 8).filterMap fun off =>
    let val:=word 8 (fun o => sec.data.getD o 0) off
    if sec.rva+sec.vsize/4 ≤ val ∧ val<sec.rva+sec.vsize+0x1000 then some ⟨sec.va+off,val⟩ else none

def PeFile.darkSlots (pe : PeFile) : List DarkSlot := (pe.rdata.map Rdata.darkSlots).getD []

/-- A slot that EP init has resolved has the names it was resolved to. -/
def PeFile.darkHook (pe : PeFile) (slot : DarkSlot) (a : Nat) : Hook :=
  match (pe.epResolved.get slot.va).filter fun epName => '!'∈epName with
  | some epName =>
    let dll:=epName.takeWhile (· ≠ '!')
    let func:=(epName.dropWhile (· ≠ '!')).tail
    ⟨dll,func,slot.va,a,mangle dll func⟩
  | none =>
    let func:=['s','l','o','t','_']++hex slot.va
    ⟨['?'],func,slot.va,a,func⟩

/-- `seen_vals` and `n`. -/
structure Seen where
  vals : Map Nat Nat
  n : Nat

def sentinelOf (base : Nat) (seen : Seen) (val : Nat) : Nat × Seen :=
  match seen.vals.get val with
  | some sentinel => (sentinel,seen)
  | none =>
    let sentinel:=base+seen.n*0x10
    (sentinel,⟨seen.vals.insert val sentinel,seen.n+1⟩)

def PeFile.fillSlot (pe : PeFile) (base : Nat) (t : Seen × Emulator) (slot : DarkSlot) :
    Seen × Emulator :=
  let r:=sentinelOf base t.1 slot.val
  let hookMap:=
    if (t.2.hookMap.get r.1).isSome then t.2.hookMap
    else t.2.hookMap.insert r.1 (pe.darkHook slot r.1)
  (r.2,{t.2 with hookMap := hookMap,qwords := t.2.qwords++[(slot.va,r.1)]})

def Emulator.fillRdataHooks (pe : PeFile) (s : Emulator) : Emulator :=
  match pe.rdata with
  | none => s
  | some _ =>
    let sentinelBase:=s.alloc 0x20000 0x10000
    (pe.darkSlots.foldl (pe.fillSlot sentinelBase.1) (⟨∅,0⟩,sentinelBase.2)).2

/-- What `_emulate` does after `_create_emu`. -/
def Emulator.fillHooks (pe : PeFile) (s : Emulator) : Emulator := (s.fillIat pe).fillRdataHooks pe

/-- Every import and every dark value is given an address that no other and
nothing before has, and `hook_map` has under it the entry made for it. -/
structure Own (pe : PeFile) (s : Emulator) (hookOf darkOf : Nat → Nat) : Prop where
  written : (s.fillHooks pe).qwords=s.qwords++
    ((pe.entries.mapIdx fun i e => (e.iat,hookOf i))++pe.darkSlots.map fun d => (d.va,darkOf d.val))
  imports : ∀ i < pe.entries.length,∀ j < pe.entries.length,hookOf i=hookOf j → i=j
  values : ∀ d∈pe.darkSlots,∀ d'∈pe.darkSlots,darkOf d.val=darkOf d'.val → d.val=d'.val
  apart : ∀ i < pe.entries.length,∀ d∈pe.darkSlots,hookOf i≠darkOf d.val
  importFree : ∀ i < pe.entries.length,s.hookMap.get (hookOf i)=none
  valueFree : ∀ d∈pe.darkSlots,s.hookMap.get (darkOf d.val)=none
  before : ∀ a h,s.hookMap.get a=some h → (s.fillHooks pe).hookMap.get a=some h
  importHook : ∀ i e,pe.entries[i]?=some e →
    (s.fillHooks pe).hookMap.get (hookOf i)=some (e.hook (hookOf i))
  valueHook : ∀ d∈pe.darkSlots,∃ d'∈pe.darkSlots,d'.val=d.val ∧
    (s.fillHooks pe).hookMap.get (darkOf d.val)=some (pe.darkHook d' (darkOf d.val))

/-- The qword in a slot is the address `a`, whatever the memory was, and a call
that comes to `a` is taken for one of `h`. -/
structure Emulator.Leads (s : Emulator) (va a : Nat) (h : Hook) : Prop where
  last : s.lastWrite va=some (va,a)
  read : ∀ mem,word 8 (s.memory mem) va=a
  hook : s.hookMap.get a=some h

/-- The addresses are the hooks' own, and a call through the slot of an import
or of a dark pointer is attributed to that very slot. -/
structure Attributed (pe : PeFile) (s : Emulator) (hookOf darkOf : Nat → Nat) : Prop where
  own : Own pe s hookOf darkOf
  imports : ∀ i e,pe.entries[i]?=some e →
    (s.fillHooks pe).Leads e.iat (hookOf i) (e.hook (hookOf i))
  slots : ∀ d∈pe.darkSlots,
    (s.fillHooks pe).Leads d.va (darkOf d.val) (pe.darkHook d (darkOf d.val))

/-- The slots in the order in which they are filled. -/
def PeFile.slotVas (pe : PeFile) : List Nat :=
    pe.entries.map Entry.iat++pe.darkSlots.map DarkSlot.va

/-- What a file must be like for that: enough room for the imports before the
sentinels, no slot that meets another, no dark pointer twice. -/
structure PeFile.Plain (pe : PeFile) : Prop where
  room : pe.entries.length ≤ 0x1000 ∨ pe.darkSlots=[]
  apart : pe.slotVas.Pairwise fun a b => a+8 ≤ b ∨ b+8 ≤ a
  once : (pe.darkSlots.map DarkSlot.val).Nodup

section
variable {α : Type} {hook : α → Nat → Hook} {a b : Nat} {xs : List α}

theorem hookAll_other (m : Map Nat Hook) (h : ∀ i < xs.length,b≠a+0x10*i) :
    (hookAll hook a xs m).get b=m.get b := by
  induction xs generalizing a m with
  | nil => rfl
  | cons x xs ih =>
    rw [hookAll,ih _ fun i hi he => h (i+1) (Nat.succ_lt_succ hi) (by omega)]
    exact (Map.get_insert ..).trans (if_neg (h 0 (Nat.succ_pos _)))

theorem hookAll_own {x : α} (m : Map Nat Hook) (h : xs[i]?=some x) :
    (hookAll hook a xs m).get (a+0x10*i)=some (hook x (a+0x10*i)) := by
  induction xs generalizing a i m with
  | nil => cases h
  | cons y xs ih =>
    cases i with
    | zero =>
      cases h
      rw [hookAll,hookAll_other _ fun i _ he => by omega]
      exact Map.get_insert_self ..
    | succ i =>
      have hi:=ih (a := a+0x10) (m := m.insert a (hook y a)) h
      rw [show a+0x10+0x10*i=a+0x10*(i+1) by omega] at hi
      exact hi

end

section
variable {pe : PeFile} {base : Nat}

theorem sentinelOf_get (base : Nat) (seen : Seen) (val : Nat) :
    (sentinelOf base seen val).2.vals.get val=some (sentinelOf base seen val).1 := by
  rw [sentinelOf]
  split
  · next a h => exact h
  · exact Map.get_insert_self ..

theorem sentinelOf_mono {seen : Seen} {v a : Nat} (h : seen.vals.get v=some a) (val : Nat) :
    (sentinelOf base seen val).2.vals.get v=some a := by
  rw [sentinelOf]
  split
  · exact h
  · next hn =>
    refine (Map.get_insert ..).trans ((if_neg fun he => ?_).trans h)
    rw [← he,h] at hn
    cases hn

theorem fillSlots_seen (slots : List DarkSlot) (t : Seen × Emulator) :
    (∀ v a,t.1.vals.get v=some a → (slots.foldl (pe.fillSlot base) t).1.vals.get v=some a) ∧
      (slots.foldl (pe.fillSlot base) t).2.qwords=t.2.qwords++
        slots.map (fun d => (d.va,((slots.foldl (pe.fillSlot base) t).1.vals.get d.val).getD 0)) ∧
      ∀ d∈slots,∃ a,(slots.foldl (pe.fillSlot base) t).1.vals.get d.val=some a := by
  induction slots generalizing t with
  | nil => exact ⟨fun v a h => h,(List.append_nil _).symm,fun d hd => by cases hd⟩
  | cons d slots ih =>
    obtain ⟨hmono,hq,hsome⟩:=ih (pe.fillSlot base t d)
    have hd:=hmono _ _ (sentinelOf_get base t.1 d.val)
    refine ⟨fun v a h => hmono v a (sentinelOf_mono h d.val),?_,
      List.forall_mem_cons.mpr ⟨⟨_,hd⟩,hsome⟩⟩
    rw [List.foldl_cons,hq,List.map_cons,hd,← List.singleton_append,← List.append_assoc]
    rfl

theorem fillSlots_first (d : DarkSlot) (slots : List DarkSlot) (s : Emulator) :
    ((d::slots).foldl (pe.fillSlot base) (⟨∅,0⟩,s)).1.vals.get d.val=some base := by
  have hfirst : (sentinelOf base ⟨∅,0⟩ d.val).1=base := by
    simp only [sentinelOf,Map.get_empty,Nat.zero_mul,Nat.add_zero]
  have hget:=sentinelOf_get base ⟨∅,0⟩ d.val
  rw [hfirst] at hget
  exact (fillSlots_seen slots _).1 _ _ hget

/-- The values that have an address, and the entries under the addresses. -/
structure Given (pe : PeFile) (base : Nat) (slots : List DarkSlot) (old : Map Nat Hook)
    (t : Seen × Emulator) : Prop where
  range : ∀ v a,t.1.vals.get v=some a → base ≤ a ∧ a<base+t.1.n*0x10
  inj : ∀ v w a,t.1.vals.get v=some a → t.1.vals.get w=some a → v=w
  fresh : ∀ a,base+t.1.n*0x10 ≤ a → t.2.hookMap.get a=none
  hook : ∀ v a,t.1.vals.get v=some a → ∃ d∈slots,d.val=v ∧ t.2.hookMap.get a=some (pe.darkHook d a)
  kept : ∀ a < base,t.2.hookMap.get a=old.get a

theorem Given.fillSlot {old : Map Nat Hook} {t : Seen × Emulator} (h : Given pe base slots old t)
    {d : DarkSlot} (hd : d∈slots) : Given pe base slots old (pe.fillSlot base t d) := by
  cases hv : t.1.vals.get d.val with
  | some a =>
    -- the value has an address, and the entry is there
    obtain ⟨x,-,-,hx⟩:=h.hook _ _ hv
    have hs : sentinelOf base t.1 d.val=(a,t.1) := by rw [sentinelOf,hv]
    have ht : (pe.fillSlot base t d).2.hookMap=t.2.hookMap := by
      simp only [PeFile.fillSlot,hs,hx,Option.isSome_some,if_true]
    have h1 : (pe.fillSlot base t d).1=t.1 := by simp only [PeFile.fillSlot,hs]
    constructor <;> simp only [h1,ht]
    · exact h.range
    · exact h.inj
    · exact h.fresh
    · exact h.hook
    · exact h.kept
  | none =>
    have hs : sentinelOf base t.1 d.val=
        (base+t.1.n*0x10,⟨t.1.vals.insert d.val (base+t.1.n*0x10),t.1.n+1⟩) := by
      rw [sentinelOf,hv]
    have hfree:=h.fresh _ (Nat.le_refl (base+t.1.n*0x10))
    have ht : (pe.fillSlot base t d).2.hookMap=
        t.2.hookMap.insert (base+t.1.n*0x10) (pe.darkHook d (base+t.1.n*0x10)) := by
      simp only [PeFile.fillSlot,hs,hfree,Option.isSome_none,Bool.false_eq_true,if_false]
    have h1 : (pe.fillSlot base t d).1=
        ⟨t.1.vals.insert d.val (base+t.1.n*0x10),t.1.n+1⟩ := by simp only [PeFile.fillSlot,hs]
    have hold : ∀ {v a},v≠d.val →
        (t.1.vals.insert d.val (base+t.1.n*0x10)).get v=some a → t.1.vals.get v=some a :=
      fun hne hg => by rwa [Map.get_insert,if_neg hne] at hg
    have hnew : ∀ {a},(t.1.vals.insert d.val (base+t.1.n*0x10)).get d.val=some a →
        a=base+t.1.n*0x10 := fun hg => by
      rw [Map.get_insert_self] at hg
      exact (Option.some.inj hg).symm
    constructor <;> simp only [h1,ht]
    · intro v a hg
      by_cases hvd : v=d.val
      · subst hvd
        have ha:=hnew hg
        omega
      · have hr:=h.range v a (hold hvd hg)
        omega
    · intro v w a hg hw
      by_cases hvd : v=d.val <;> by_cases hwd : w=d.val
      · rw [hvd,hwd]
      · subst hvd
        have hr:=h.range w a (hold hwd hw)
        have ha:=hnew hg
        omega
      · subst hwd
        have hr:=h.range v a (hold hvd hg)
        have ha:=hnew hw
        omega
      · exact h.inj v w a (hold hvd hg) (hold hwd hw)
    · intro a ha
      exact (Map.get_insert ..).trans ((if_neg (by omega)).trans (h.fresh a (by omega)))
    · intro v a hg
      by_cases hvd : v=d.val
      · subst hvd
        rw [hnew hg]
        exact ⟨d,hd,rfl,Map.get_insert_self ..⟩
      · obtain ⟨x,hx,hxv,hxh⟩:=h.hook v a (hold hvd hg)
        have hr:=h.range v a (hold hvd hg)
        exact ⟨x,hx,hxv,(Map.get_insert ..).trans ((if_neg (by omega)).trans hxh)⟩
    · intro a ha
      exact (Map.get_insert ..).trans ((if_neg (by omega)).trans (h.kept a ha))

theorem Given.foldl {all : List DarkSlot} {old : Map Nat Hook} {t : Seen × Emulator}
    (h : Given pe base all old t) (hs : ∀ d∈slots,d∈all) :
    Given pe base all old (slots.foldl (pe.fillSlot base) t) := by
  induction slots generalizing t with
  | nil => exact h
  | cons d slots ih =>
    exact ih (h.fillSlot (hs d List.mem_cons_self)) fun x hx => hs x (List.mem_cons_of_mem d hx)

end

section
variable (pe : PeFile) (s : Emulator)

/-- Where the sentinels start, and what their loop leaves. -/
def sentinelBase : Nat := alignUp 0x10000 (s.fillIat pe).cursor

def slotsDone : Seen × Emulator :=
  pe.darkSlots.foldl (pe.fillSlot (sentinelBase pe s))
    (⟨∅,0⟩,{s.fillIat pe with cursor := sentinelBase pe s+0x20000})

def importAt (i : Nat) : Nat := alignUp 0x10000 s.cursor+0x10*i

def valueAt (v : Nat) : Nat := ((slotsDone pe s).1.vals.get v).getD 0

theorem fillIat_eq :
    (s.fillIat pe).hookMap=hookAll Entry.hook (alignUp 0x10000 s.cursor) pe.entries s.hookMap ∧
      (s.fillIat pe).qwords=s.qwords++pe.entries.mapIdx fun i e => (e.iat,importAt s i) := by
  rw [Emulator.fillIat]
  cases h : pe.directory with
  | none =>
    rw [PeFile.entries,h]
    exact ⟨rfl,(List.append_nil _).symm⟩
  | some des => exact ⟨rfl,rfl⟩

theorem fillHooks_eq : (s.fillHooks pe).hookMap=(slotsDone pe s).2.hookMap ∧
    (s.fillHooks pe).qwords=(slotsDone pe s).2.qwords := by
  rw [Emulator.fillHooks,Emulator.fillRdataHooks]
  cases h : pe.rdata with
  | none =>
    rw [slotsDone,PeFile.darkSlots,h]
    exact ⟨rfl,rfl⟩
  | some sec => exact ⟨rfl,rfl⟩

theorem sentinelBase_eq : s.cursor ≤ sentinelBase pe s ∧
    (pe.entries≠[] → sentinelBase pe s=alignUp 0x10000 s.cursor+0x10000) := by
  rw [sentinelBase,Emulator.fillIat]
  cases h : pe.directory with
  | none => exact ⟨le_alignUp _ (by decide) _,fun hn => absurd (by rw [PeFile.entries,h]; rfl) hn⟩
  | some des =>
    simp only [Emulator.alloc,alignUp]
    omega

theorem fillHooks_qwords : (s.fillHooks pe).qwords=s.qwords++
    ((pe.entries.mapIdx fun i e => (e.iat,importAt s i))++
      pe.darkSlots.map fun d => (d.va,valueAt pe s d.val)) := by
  rw [(fillHooks_eq pe s).2,← List.append_assoc,← (fillIat_eq pe s).2]
  exact (fillSlots_seen _ _).2.1

theorem valueAt_first {d : DarkSlot} (h : pe.darkSlots=d::slots) :
    valueAt pe s d.val=sentinelBase pe s := by
  rw [valueAt,slotsDone,h,fillSlots_first,Option.getD_some]

theorem fillIat_other {a : Nat} (h : ∀ i < pe.entries.length,a≠importAt s i) :
    (s.fillIat pe).hookMap.get a=s.hookMap.get a := by
  rw [(fillIat_eq pe s).1]
  exact hookAll_other _ h

variable {pe s}

theorem fillIat_own {e : Entry} (h : pe.entries[i]?=some e) :
    (s.fillIat pe).hookMap.get (importAt s i)=some (e.hook (importAt s i)) := by
  rw [(fillIat_eq pe s).1]
  exact hookAll_own _ h

theorem importAt_lt (few : pe.entries.length ≤ 0x1000) (hi : i<pe.entries.length) :
    importAt s i<sentinelBase pe s := by
  rw [importAt,(sentinelBase_eq pe s).2 (List.ne_nil_of_length_pos (by omega))]
  omega

theorem get_cursor (below : s.Below) {a : Nat} (h : s.cursor ≤ a) : s.hookMap.get a=none := by
  cases hg : s.hookMap.get a with
  | none => rfl
  | some x => exact absurd (below a x hg) (Nat.not_lt.mpr h)

theorem given_slotsDone (below : s.Below) (few : pe.entries.length ≤ 0x1000) :
    Given pe (sentinelBase pe s) pe.darkSlots (s.fillIat pe).hookMap (slotsDone pe s) := by
  refine Given.foldl ⟨fun v a h => ?_,fun v w a h => ?_,fun a ha => ?_,fun v a h => ?_,
    fun a _ => rfl⟩ fun d hd => hd
  · cases h
  · cases h
  · have hge:=Nat.le_trans (Nat.le_add_right _ _) ha
    refine (fillIat_other pe s fun i hi he => ?_).trans ?_
    · have hlt:=importAt_lt (s := s) few hi
      omega
    · exact get_cursor below (Nat.le_trans (sentinelBase_eq pe s).1 hge)
  · cases h

theorem get_fillHooks (below : s.Below) (room : pe.entries.length ≤ 0x1000 ∨ pe.darkSlots=[])
    {a : Nat} {h : Hook} (hg : (s.fillIat pe).hookMap.get a=some h)
    (hlt : pe.entries.length ≤ 0x1000 → a<sentinelBase pe s) :
    (s.fillHooks pe).hookMap.get a=some h := by
  rw [(fillHooks_eq pe s).1]
  rcases room with few | hn
  · exact ((given_slotsDone below few).kept a (hlt few)).trans hg
  · rw [slotsDone,hn]
    exact hg

theorem get_before (below : s.Below) {a : Nat} {h : Hook} (ha : s.hookMap.get a=some h) :
    (s.fillIat pe).hookMap.get a=some h := by
  refine (fillIat_other pe s fun i _ he => ?_).trans ha
  have hlt:=below a h ha
  rw [importAt,alignUp] at he
  omega

theorem cursor_le_importAt (i : Nat) : s.cursor ≤ importAt s i :=
  Nat.le_trans (le_alignUp 0x10000 (by decide) _) (Nat.le_add_right _ _)

theorem own_of_room (below : s.Below) (room : pe.entries.length ≤ 0x1000 ∨ pe.darkSlots=[]) :
    Own pe s (importAt s) (valueAt pe s) := by
  have few : ∀ d∈pe.darkSlots,pe.entries.length ≤ 0x1000 :=
    fun d hd => room.resolve_right (List.ne_nil_of_mem hd)
  have hgiven:=fun d hd => given_slotsDone below (few d hd)
  have hval : ∀ d∈pe.darkSlots,(slotsDone pe s).1.vals.get d.val=some (valueAt pe s d.val) := by
    intro d hd
    obtain ⟨a,ha⟩:=(fillSlots_seen pe.darkSlots _).2.2 d hd
    have ha' : (slotsDone pe s).1.vals.get d.val=some a := ha
    rw [valueAt,ha']
    rfl
  refine ⟨fillHooks_qwords pe s,fun i _ j _ he => ?_,fun d hd d' hd' he => ?_,
    fun i hi d hd he => ?_,fun i _ => get_cursor below (cursor_le_importAt i),
    fun d hd => get_cursor below (Nat.le_trans (sentinelBase_eq pe s).1
      ((hgiven d hd).range _ _ (hval d hd)).1),
    fun a h ha => ?_,fun i e hi => ?_,fun d hd => ?_⟩
  · rw [importAt,importAt] at he
    omega
  · exact (hgiven d hd).inj _ _ _ (hval d hd) (he ▸ hval d' hd')
  · have hlt:=importAt_lt (s := s) (few d hd) hi
    have hr:=(hgiven d hd).range _ _ (hval d hd)
    omega
  · exact get_fillHooks below room (get_before below ha) fun _ =>
      Nat.lt_of_lt_of_le (below a h ha) (sentinelBase_eq pe s).1
  · obtain ⟨hl,-⟩:=List.getElem?_eq_some_iff.mp hi
    exact get_fillHooks below room (fillIat_own hi) fun few => importAt_lt few hl
  · rw [(fillHooks_eq pe s).1]
    exact (hgiven d hd).hook _ _ (hval d hd)

theorem not_own_of_many {hookOf darkOf : Nat → Nat} (many : 0x1000<pe.entries.length)
    (some_dark : pe.darkSlots≠[]) : ¬Own pe s hookOf darkOf := by
  intro own
  obtain ⟨d,slots,hd⟩:=List.exists_cons_of_ne_nil some_dark
  have hw:=List.append_cancel_left ((fillHooks_qwords pe s).symm.trans own.written)
  obtain ⟨hi,hs⟩:=List.append_inj hw (by rw [List.length_mapIdx,List.length_mapIdx])
  have h1 : importAt s 0x1000=hookOf 0x1000 := by
    have hg : ∀ n : Nat,n<pe.entries.length → importAt s n=hookOf n := by
      intro n hn
      have hg:=congrArg (fun l => l[n]?) hi
      simp only [List.getElem?_mapIdx,List.getElem?_eq_getElem hn,Option.map_some] at hg
      exact congrArg Prod.snd (Option.some.inj hg)
    exact hg _ many
  have h2 : sentinelBase pe s=darkOf d.val := by
    rw [hd,List.map_cons,List.map_cons,valueAt_first pe s hd] at hs
    exact congrArg Prod.snd (List.cons.inj hs).1
  refine own.apart 0x1000 many d (hd ▸ List.mem_cons_self) ?_
  rw [← h1,← h2]
  exact ((sentinelBase_eq pe s).2 (List.ne_nil_of_length_pos (by omega))).symm

theorem darkSlots_apart (pe : PeFile) : pe.darkSlots.Pairwise fun d d' => d.va+8 ≤ d'.va := by
  rw [PeFile.darkSlots]
  cases pe.rdata with
  | none => exact .nil
  | some sec =>
    refine List.Pairwise.filterMap _ ?_ (offsets_apart 0 (min sec.data.length sec.vsize-7) 8)
    intro o p hop d hd d' hd'
    dsimp only at hd hd'
    split at hd
    · split at hd'
      · cases hd
        cases hd'
        dsimp only
        omega
      · cases hd'
    · cases hd

theorem darkHook_iat (pe : PeFile) (d : DarkSlot) (a : Nat) : (pe.darkHook d a).iat=d.va := by
  rw [PeFile.darkHook]
  split <;> rfl

theorem fillSlots_count {base : Nat} (slots : List DarkSlot) (t : Seen × Emulator) :
    (slots.foldl (pe.fillSlot base) t).1.n ≤ t.1.n+slots.length := by
  induction slots generalizing t with
  | nil => exact Nat.le_refl _
  | cons d slots ih =>
    have hone : (pe.fillSlot base t d).1.n ≤ t.1.n+1 := by
      change (sentinelOf base t.1 d.val).2.n ≤ t.1.n+1
      rw [sentinelOf]
      split
      · exact Nat.le_succ _
      · exact Nat.le_refl _
    have hrest:=ih (pe.fillSlot base t d)
    rw [List.foldl_cons,List.length_cons]
    omega

/-- The last element with a property is the one behind which there is none. -/
theorem find?_reverse_eq {α : Type} {p : α → Bool} {before after : List α} {x : α} (hx : p x=true)
    (h : ∀ y∈after,p y=false) : (before++x::after).reverse.find? p=some x := by
  have hnone : after.reverse.find? p=none :=
    List.find?_eq_none.mpr fun y hy => by rw [h y (List.mem_reverse.mp hy)]; decide
  rw [List.reverse_append,List.reverse_cons,List.append_assoc,List.find?_append,hnone,
    List.singleton_append,List.find?_cons_of_pos hx]
  rfl

/-- What is written over the slots, in the order of `slotVas`. -/
def slotWrites (pe : PeFile) (hookOf darkOf : Nat → Nat) : List (Nat × Nat) :=
  (pe.entries.mapIdx fun i e => (e.iat,hookOf i))++pe.darkSlots.map fun d => (d.va,darkOf d.val)

theorem slotWrites_vas (pe : PeFile) (hookOf darkOf : Nat → Nat) :
    (slotWrites pe hookOf darkOf).map Prod.fst=pe.slotVas := by
  rw [slotWrites,PeFile.slotVas,List.map_append,List.map_map]
  congr 1
  refine List.ext_getElem? fun i => ?_
  rw [List.getElem?_map,List.getElem?_mapIdx,List.getElem?_map,Option.map_map]
  rfl

section
variable {hookOf darkOf : Nat → Nat}

/-- With no slot that meets another, each slot holds what was written to it. -/
theorem Own.leads (own : Own pe s hookOf darkOf)
    (apart : pe.slotVas.Pairwise fun a b => a+8 ≤ b ∨ b+8 ≤ a) {va a : Nat}
    (hw : (va,a)∈slotWrites pe hookOf darkOf) (ha : a<2^64) :
    (s.fillHooks pe).lastWrite va=some (va,a) ∧
      ∀ mem,word 8 ((s.fillHooks pe).memory mem) va=a := by
  obtain ⟨before,after,hsplit⟩:=List.append_of_mem hw
  have hafter : ∀ y∈after,va+8 ≤ y.1 ∨ y.1+8 ≤ va := by
    rw [← slotWrites_vas pe hookOf darkOf,List.pairwise_map,hsplit,List.pairwise_append] at apart
    exact (List.pairwise_cons.mp apart.2.1).1
  have hq : (s.fillHooks pe).qwords=(s.qwords++before)++(va,a)::after := by
    rw [own.written,List.append_assoc]
    exact congrArg _ hsplit
  constructor
  · rw [Emulator.lastWrite,hq]
    refine find?_reverse_eq (by simp) fun y hy => ?_
    have hy':=hafter y hy
    simp only [Bool.and_eq_false_iff,decide_eq_false_iff_not]
    omega
  · intro mem
    rw [Emulator.memory,hq,List.map_append,List.map_cons]
    refine word_of_bytesAt (bytesAt_writeAll_last (w := slotWrite (va,a)) (fun v hv => ?_) mem) ha
    obtain ⟨y,hy,rfl⟩:=List.mem_map.mp hv
    have hy':=hafter y hy
    rw [Write.Apart,Write.stop,Write.stop,slotWrite,slotWrite,length_le,length_le]
    dsimp only
    omega

/-- A slot that a later write meets does not hold its own. -/
theorem Attributed.not_met (h : Attributed pe s hookOf darkOf) {before after : List (Nat × Nat)}
    {va a : Nat} (hsplit : slotWrites pe hookOf darkOf=before++(va,a)::after)
    (hlast : (s.fillHooks pe).lastWrite va=some (va,a)) (hne : (va,a)∉after) {y : Nat × Nat}
    (hy : y∈after) : va+8 ≤ y.1 ∨ y.1+8 ≤ va := by
  by_contra hmeet
  have hq : (s.fillHooks pe).qwords=(s.qwords++before++[(va,a)])++after := by
    rw [h.own.written,List.append_assoc,List.append_assoc]
    exact congrArg _ hsplit
  rw [Emulator.lastWrite,hq,List.reverse_append,List.find?_append] at hlast
  cases hf : after.reverse.find? fun w => w.1<va+8 && va<w.1+8 with
  | some x =>
    rw [hf] at hlast
    cases hlast
    exact hne (List.mem_reverse.mp (List.mem_of_find?_eq_some hf))
  | none =>
    have hyf:=List.find?_eq_none.mp hf y (List.mem_reverse.mpr hy)
    simp only [Bool.and_eq_true,decide_eq_true_eq] at hyf
    omega

theorem Own.nodup (own : Own pe s hookOf darkOf) : (slotWrites pe hookOf darkOf).Nodup := by
  refine List.nodup_append.mpr ⟨List.pairwise_iff_getElem.mpr ?_,?_,?_⟩
  · intro i j hi hj hij he
    rw [List.length_mapIdx] at hi hj
    rw [List.getElem_mapIdx,List.getElem_mapIdx] at he
    exact absurd (own.imports i hi j hj (congrArg Prod.snd he)) (Nat.ne_of_lt hij)
  · exact List.pairwise_map.mpr ((darkSlots_apart pe).imp fun hle he => by
      have hva:=congrArg Prod.fst he
      dsimp only at hva
      omega)
  · intro x hx y hy he
    obtain ⟨i,hi,rfl⟩:=List.mem_mapIdx.mp hx
    obtain ⟨d,hd,rfl⟩:=List.mem_map.mp hy
    exact own.apart i hi d hd (congrArg Prod.snd he)

theorem Attributed.last (h : Attributed pe s hookOf darkOf) {w : Nat × Nat}
    (hw : w∈slotWrites pe hookOf darkOf) : (s.fillHooks pe).lastWrite w.1=some w := by
  rcases List.mem_append.mp hw with hw | hw
  · obtain ⟨i,hi,rfl⟩:=List.mem_mapIdx.mp hw
    exact (h.imports i _ (List.getElem?_eq_getElem hi)).last
  · obtain ⟨d,hd,rfl⟩:=List.mem_map.mp hw
    exact (h.slots d hd).last

theorem Attributed.plain (h : Attributed pe s hookOf darkOf) : pe.Plain := by
  refine ⟨?_,?_,?_⟩
  · by_contra hn
    obtain ⟨hm,hd⟩:=not_or.mp hn
    exact not_own_of_many (Nat.lt_of_not_le hm) hd h.own
  · rw [← slotWrites_vas pe hookOf darkOf,List.pairwise_map]
    refine List.pairwise_iff_getElem.mpr fun i j hi hj hij => ?_
    have hsplit:=(List.take_append_drop i (slotWrites pe hookOf darkOf)).symm
    rw [List.drop_eq_getElem_cons hi] at hsplit
    have hnodup:=h.own.nodup
    rw [hsplit,List.nodup_append,List.nodup_cons] at hnodup
    refine h.not_met hsplit (h.last (List.getElem_mem hi)) hnodup.2.1.1 ?_
    exact List.mem_drop_iff_getElem.mpr ⟨j-(i+1),by omega,by congr 1; omega⟩
  · refine List.pairwise_map.mpr (List.pairwise_iff_getElem.mpr fun i j hi hj hij he => ?_)
    have hone:=(h.slots _ (List.getElem_mem hi)).hook
    have htwo:=(h.slots _ (List.getElem_mem hj)).hook
    rw [he,htwo] at hone
    have hva:=congrArg Hook.iat (Option.some.inj hone)
    rw [darkHook_iat,darkHook_iat] at hva
    have hap:=List.pairwise_iff_getElem.mp (darkSlots_apart pe) i j hi hj hij
    omega

end

section
variable (fits : s.cursor+0x20000+0x10*(pe.entries.length+pe.darkSlots.length) ≤ 2^64)
include fits

theorem importAt_fits (hi : i<pe.entries.length) : importAt s i<2^64 := by
  rw [importAt,alignUp]
  omega

theorem valueAt_fits (below : s.Below) (few : pe.entries.length ≤ 0x1000) (v : Nat) :
    valueAt pe s v<2^64 := by
  rw [valueAt]
  cases hg : (slotsDone pe s).1.vals.get v with
  | none => exact Nat.two_pow_pos 64
  | some a =>
    have hr:=(given_slotsDone below few).range _ _ hg
    have hn : (slotsDone pe s).1.n ≤ 0+pe.darkSlots.length := fillSlots_count _ _
    have hb : sentinelBase pe s ≤ s.cursor+0x20000 := by
      rw [sentinelBase,Emulator.fillIat]
      cases pe.directory with
      | none =>
        dsimp only [alignUp]
        omega
      | some des =>
        dsimp only [Emulator.alloc,alignUp]
        omega
    rw [Option.getD_some]
    omega

theorem attributed_of_plain (below : s.Below) (h : pe.Plain) :
    Attributed pe s (importAt s) (valueAt pe s) := by
  have own:=own_of_room below h.room
  refine ⟨own,fun i e hi => ?_,fun d hd => ?_⟩
  · obtain ⟨hl,rfl⟩:=List.getElem?_eq_some_iff.mp hi
    obtain ⟨hlast,hread⟩:=own.leads h.apart
      (List.mem_append_left _ (List.mem_mapIdx.mpr ⟨i,hl,rfl⟩)) (importAt_fits fits hl)
    exact ⟨hlast,hread,own.importHook i _ hi⟩
  · have few:=h.room.resolve_right (List.ne_nil_of_mem hd)
    obtain ⟨hlast,hread⟩:=own.leads h.apart
      (List.mem_append_right _ (List.mem_map_of_mem hd)) (valueAt_fits fits below few d.val)
    obtain ⟨d',hd',hval,hhook⟩:=own.valueHook d hd
    rw [List.inj_on_of_nodup_map h.once hd' hd hval] at hhook
    exact ⟨hlast,hread,hhook⟩

/-- Every import and every dark pointer has an address of its own and is what a
call through its slot is attributed to, exactly when the file is plain. -/
theorem attributed_iff (below : s.Below) :
    (∃ hookOf darkOf,Attributed pe s hookOf darkOf) ↔ pe.Plain :=
  ⟨fun ⟨_,_,h⟩ => h.plain,fun h => ⟨_,_,attributed_of_plain fits below h⟩⟩

end
end

/-- So many imports by ordinal, and one pointer into the section. -/
def importing (n : Nat) : PeFile where
  ib:=0x140000000
  isPe32plus:=true
  directory:=some [⟨['a'],0x2000,(List.range n).map .ordinal⟩]
  rdata:=some ⟨0x3000,0x140003000,16,[0x08,0x30,0,0,0,0,0,0]⟩
  epResolved:=∅

def noHooks : Emulator := ⟨0x141000000,∅,[]⟩

theorem noHooks_below : noHooks.Below := fun a h hg => by cases hg

theorem importing_entries (n : Nat) : (importing n).entries.length=n := by
  rw [PeFile.entries,importing,Option.getD_some,List.flatMap_singleton,List.length_mapIdx,
    List.length_map,List.length_range]

theorem attributed_importing : ∃ hookOf darkOf,Attributed (importing 2) noHooks hookOf darkOf := by
  refine (attributed_iff ?_ noHooks_below).mpr ⟨.inl ?_,?_,?_⟩
  · decide +kernel
  · rw [importing_entries]
    decide
  · decide +kernel
  · decide +kernel

/-- With 4097 imports the last one has the sentinel of the pointer. -/
theorem not_attributed_importing :
    noHooks.Below ∧ ¬∃ hookOf darkOf,Attributed (importing 0x1001) noHooks hookOf darkOf := by
  refine ⟨noHooks_below,?_⟩
  rintro ⟨hookOf,darkOf,h⟩
  refine not_own_of_many ?_ ?_ h.own
  · rw [importing_entries]
    decide
  · have hd : (importing 0x1001).darkSlots.length=1 := by decide +kernel
    intro hn
    rw [hn] at hd
    cases hd

end Devirt
