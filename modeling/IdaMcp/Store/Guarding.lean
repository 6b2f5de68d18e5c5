import IdaMcp.Store.Addressing

/-!
# What the lock of a call guards (`src/ida/handlers/database.rs`, `src/ida/lock.rs`)

`handle_open` takes its lock beside the input file, under the input's name
with another extension, and opens a database that lies elsewhere when the
input is a raw binary. The two names agree in some cases only.
-/

namespace Store
open Lib Lib.Path

def imcp : Text := Part.imcp.extension

/-- Lines 110-116: the extension tells a database from a raw binary. -/
def databaseExtensions : List Text :=
  [['i', '6', '4'],['i', 'd', 'b'],['i', 'd', '0']]

def isIdb (n : Name) : Bool := decide ((n.extension.getD []).map Char.toLower∈databaseExtensions)

/-- A `handle_open` that goes on to open something: the directory and name of
its input, and what the input holds. -/
structure OpenCall (Dir Content : Type) where
  dir : Dir
  input : Binary Content

structure Location (Dir : Type) where
  dir : Dir
  name : Text
  deriving DecidableEq

/-- The name of a stored database that has the hash in it. -/
def Carries (h : Digest) (n : Name) : Prop :=
  pattern h.chars <:+: n.chars ∧ ('.'::Part.i64.extension) <:+ n.chars

section Stored
variable (s : IdbStore) (h : Digest)

def Held : Prop := ∃ n∈s.files.map File.name,Carries h n

/-- The first name in the order of the directory that carries the hash. -/
def Leads (n : Name) : Prop :=
  ∃ i : Nat,(s.files.map File.name)[i]?=some n ∧ Carries h n ∧
    ∀ j < i,∀ m,(s.files.map File.name)[j]?=some m → ¬Carries h m

def carries (n : Name) : Bool :=
    contains n (pattern h.chars) && endsWith n ('.'::Part.i64.extension)

omit s in
theorem carries_iff (n : Name) : carries h n=true ↔ Carries h n := by
  simp [carries,Carries,contains,endsWith]

theorem lookupByHash_eq : s.lookupByHash h.chars=(s.files.map File.name).find? (carries h) := by
  rw [IdbStore.lookupByHash,List.find?_map]
  rfl

theorem leads_iff (n : Name) : s.lookupByHash h.chars=some n ↔ Leads s h n := by
  rw [lookupByHash_eq,List.find?_eq_some_iff_getElem,Leads,carries_iff]
  constructor
  · rintro ⟨hc,i,hi,hget,hbefore⟩
    refine ⟨i,by rw [List.getElem?_eq_getElem hi,hget],hc,fun j hj m hm hcm => ?_⟩
    obtain ⟨hlt,rfl⟩:=List.getElem?_eq_some_iff.mp hm
    have hno:=hbefore j hj
    rw [(carries_iff h _).mpr hcm] at hno
    exact absurd hno (by decide)
  · rintro ⟨i,hget,hc,hbefore⟩
    obtain ⟨hi,hget⟩:=List.getElem?_eq_some_iff.mp hget
    refine ⟨hc,i,hi,hget,fun j hj => ?_⟩
    have hlt:=Nat.lt_trans hj hi
    have hno:=hbefore j hj _ (List.getElem?_eq_getElem hlt)
    rwa [← carries_iff,Bool.not_eq_true,← Bool.not_eq_true'] at hno

theorem not_held_iff : s.lookupByHash h.chars=none ↔ ¬Held s h := by
  rw [lookupByHash_eq,List.find?_eq_none,Held]
  simp only [carries_iff]
  push Not
  rfl

end Stored

section Calls
variable {Dir Content : Type} (hash : Content → Digest) (root : Dir) (s : IdbStore)

/-- Models `acquire_mcp_lock`, lines 45-46. -/
def lockPath (c : OpenCall Dir Content) : Location Dir := ⟨c.dir,c.input.name.withExtension imcp⟩

/-- Lines 122-123: where the database of a raw binary is, or will be. -/
def outPath (c : OpenCall Dir Content) : Name :=
  (s.lookup hash c.input).getD (idbName hash c.input)

/-- Lines 167-202: what the call opens. -/
def database (c : OpenCall Dir Content) : Location Dir :=
  if isIdb c.input.name then ⟨c.dir,c.input.name.chars⟩ else ⟨root,(outPath hash s c).chars⟩

variable {hash root s} {c d : OpenCall Dir Content}

theorem Leads.held {h : Digest} {n : Name} (hn : Leads s h n) :
    Held s h ∧ n∈s.files.map File.name := by
  obtain ⟨i,hi,hc,-⟩:=hn
  have hm:=List.mem_of_getElem? hi
  exact ⟨⟨n,hm,hc⟩,hm⟩

theorem Held.leads {h : Digest} (hh : Held s h) : ∃ n,Leads s h n := by
  cases hl : s.lookupByHash h.chars with
  | none => exact absurd hh ((not_held_iff s h).mp hl)
  | some n => exact ⟨n,(leads_iff s h n).mp hl⟩

theorem Leads.unique {h : Digest} {n m : Name} (hn : Leads s h n) (hm : Leads s h m) : n=m := by
  rw [← leads_iff] at hn hm
  exact Option.some.inj (hn.symm.trans hm)

end Calls

end Store
