import IdaMcp.Lib.Pages
import IdaMcp.Ida.Database

/-!
# Listing and finding functions (`src/ida/handlers/functions.rs`, `.../mod.rs`)
-/

namespace Ida
open Lib Rpc

/-- What a handler returns and spends: elements asked of `Vec::with_capacity` and
addresses looked at for statements. There is no result where the handler panics. -/
structure Handled (α : Type) where
  result : Option (Result α)
  allocated : Nat := 0
  scanned : Nat := 0

def Handled.fail {α : Type} (e : ToolError) : Handled α := {result := some (.error e)}

/-- What a caller is given, if it is given a value. -/
def Handled.value? {α : Type} (h : Handled α) : Option α := h.result.bind Except.toOption

/-- A handler that begins with `Vec::with_capacity(count)`: more than `isize::MAX` bytes are a
capacity overflow, which panics. -/
def withCapacity {α : Type} (elementSize : Nat) (count : UInt64) (result : Result α) : Handled α :=
  { result := if elementSize*count.toNat ≤ 0x7fffffffffffffff then some result else none
    allocated := count.toNat }

section
variable (toLowercase : String → String)

/-- Whether a name has the filter in it, without regard to case. -/
def passes (filter : Option String) (name : String) : Bool :=
  match filter.map toLowercase with
  | some text => textContains text.toList (toLowercase name).toList
  | none => true

/-- Lines 9-58 of `functions.rs`. A `FunctionInfo` has two strings and a number, 56 bytes. -/
def handleListFunctions (idb : Option Idb) (offset limit : UInt64) (filter : Option String) :
    Handled (Page FunctionInfo) :=
  match idb with
  | none => .fail .noDatabaseOpen
  | some db => withCapacity 56 limit (.ok (.of (fun f => passes toLowercase filter f.shownName)
      Function.info db.functions offset limit))

end

/-- The test of every lookup: the name itself, or one with the name in it. -/
def nameMatches (name : String) (candidate : String) : Bool :=
  candidate==name || textContains name.toList candidate.toList

/-- The first function that has a matching name of its own. -/
def Idb.functionNamed (db : Idb) (name : String) : Option Function :=
  db.functions.find? fun f => match f.name with
    | some n => nameMatches name n
    | none => false

/-- Lines 60-78. -/
def handleResolveFunction (idb : Option Idb) (name : String) : Result FunctionInfo := do
  let db ← openDb idb
  match db.functionNamed name with
  | some f => .ok ⟨hexText f.start,f.name.getD "",f.size⟩
  | none => .error (.functionNameNotFound name)

/-- Lines 54-71 of `mod.rs`. -/
def resolveAddressByName (idb : Option Idb) (name : String) : Result UInt64 := do
  let db ← openDb idb
  match db.functionNamed name with
  | some f => .ok f.start
  | none => match db.names.find? fun s => nameMatches name s.name with
    | some s => .ok s.address
    | none => .error (.functionNameNotFound name)

/-- Lines 73-90. -/
def resolveAddress (idb : Option Idb) (addr : Option UInt64) (name : Option String)
    (offset : UInt64) : Result UInt64 := do
  let base ← match addr,name with
    | some addr,_ => .ok addr
    | none,some name => resolveAddressByName idb name
    | none,none => .error (.invalidParams "expected address or name")
  return saturatingAdd base offset.toNat

/-- What is said of one query, lines 100-125 of `functions.rs`. -/
def Idb.lookup (db : Idb) (query : String) : Option FunctionInfo :=
  match parseAddressStr query with
  | .ok addr => (db.functionAt addr).map Function.info
  | .error _ => (db.functions.map Function.info).find? fun i => nameMatches query i.name

def lookupEntry (query : String) (found : Option FunctionInfo) : Json :=
  match found with
  | some info => .ofFields [("query",.str query),("result",info.json)]
  | none => .ofFields [("query",.str query),("error",.str "Function not found")]

/-- Lines 80-128. -/
def handleLookupFuncs (idb : Option Idb) (queries : List String) : Result Json := do
  let db ← openDb idb
  return .ofFields [("results",.arr (queries.map fun q => lookupEntry q (db.lookup q)))]

end Ida
