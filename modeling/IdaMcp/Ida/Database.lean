import IdaMcp.Rpc.Values

/-!
# The database as the handlers see it

What `src/ida/handlers` asks of an open database, in the order in which its
iterators yield it. Every list fits the machine's counters.
-/

namespace Ida
open Lib Rpc

structure Function where
  start : UInt64
  finish : UInt64
  name : Option String
  nonempty : start < finish

def Function.size (f : Function) : Nat := f.finish.toNat-f.start.toNat

theorem Function.size_pos (f : Function) : 0 < f.size :=
  Nat.sub_pos_of_lt (UInt64.lt_iff_toNat_lt.mp f.nonempty)

/-- The range alone: code of the function may lie elsewhere. -/
def Function.containsAddress (f : Function) (addr : UInt64) : Bool :=
  f.start ≤ addr && addr < f.finish

structure Segment where
  start : UInt64
  finish : UInt64
  ordered : start ≤ finish

def Segment.len (s : Segment) : Nat := s.finish.toNat-s.start.toNat

structure Symbol where
  address : UInt64
  name : String
  isPublic : Bool
  isWeak : Bool

structure StringItem where
  address : UInt64
  content : String

inductive XRefType
  | nearCall | farCall | otherCode | data
  deriving DecidableEq

structure XRef where
  source : UInt64
  target : UInt64
  type : XRefType
  deriving DecidableEq

def XRef.isCall (x : XRef) : Bool := x.type=.nearCall || x.type=.farCall

/-- A block and the starts of those that may come after it. -/
structure BasicBlock where
  start : UInt64
  finish : UInt64
  succs : List UInt64

def BasicBlock.containsAddress (b : BasicBlock) (addr : UInt64) : Bool :=
  b.start ≤ addr && addr < b.finish

structure UdtInfo where
  ordinal : UInt32
  name : String
  size : Nat
  isUnion : Bool
  memberCount : Nat

structure LocalTypeInfo where
  ordinal : UInt32
  name : String
  decl : String
  kind : String

structure Statement where
  address : UInt64
  text : String
  opcode : Json
  bounds : Option (UInt64 × UInt64)

structure CFunc where
  hasEamap : Bool
  statementsAt : UInt64 → Option (List Statement)

structure Idb where
  functions : List Function
  segments : List Segment
  names : List Symbol
  strings : List StringItem
  functionAt : UInt64 → Option Function
  getBytes : UInt64 → (size : Nat) → List UInt8
  disasmLine : UInt64 → Option String
  insnLen : UInt64 → Option UInt64
  nextHead : UInt64 → Option UInt64
  xrefsFrom : UInt64 → List XRef
  xrefsTo : UInt64 → List XRef
  cfg : Function → Except String (List BasicBlock)
  decompilerAvailable : Bool
  decompile : Function → Except String CFunc
  udtOrdinalLimit : UInt32
  udtInfo : UInt32 → Option UdtInfo
  localTypeInfo : UInt32 → Option LocalTypeInfo
  functionsFit : functions.length < UInt64.size
  namesFit : names.length < UInt64.size
  stringsFit : strings.length < UInt64.size

/-- The ordinals of the local types. -/
def Idb.ordinals (db : Idb) : List UInt32 :=
  (List.range' 1 (db.udtOrdinalLimit.toNat-1)).map UInt32.ofNat

/-- Nothing is in it. -/
def Idb.empty : Idb where
  functions := []
  segments := []
  names := []
  strings := []
  functionAt _ := none
  getBytes _ _ := []
  disasmLine _ := none
  insnLen _ := none
  nextHead _ := none
  xrefsFrom _ := []
  xrefsTo _ := []
  cfg _ := .error ""
  decompilerAvailable := false
  decompile _ := .error ""
  udtOrdinalLimit := 0
  udtInfo _ := none
  localTypeInfo _ := none
  functionsFit := by decide
  namesFit := by decide
  stringsFit := by decide

def openDb (idb : Option Idb) : Result Idb :=
  match idb with
  | some db => .ok db
  | none => .error .noDatabaseOpen

structure FunctionInfo where
  address : String
  name : String
  size : Nat
  deriving DecidableEq

/-- The name shown for a function without one. -/
def subName (addr : UInt64) : String := "sub_"++String.ofList (Nat.toDigits 16 addr.toNat)

def Function.shownName (f : Function) : String := f.name.getD (subName f.start)

def Function.info (f : Function) : FunctionInfo := ⟨hexText f.start,f.shownName,f.size⟩

def FunctionInfo.json (i : FunctionInfo) : Json :=
  .ofFields [("address",.str i.address),("name",.str i.name),("size",.ofNat i.size)]

/-- Models `parse_address_str`, lines 29-42 of `handlers/mod.rs`. -/
def parseAddressStr (s : String) : Result UInt64 :=
  let cs:=trim s.toList
  let parsed:=if marked 'x' 'X' cs then fromStrRadix 16 (cs.drop 2)
    else if marked 'b' 'B' cs then fromStrRadix 2 (cs.drop 2)
    else if marked 'o' 'O' cs then fromStrRadix 8 (cs.drop 2)
    else fromStrRadix 10 cs
  match parsed with
  | some a => .ok a
  | none => .error (.invalidAddress (String.ofList cs))

theorem parseAddressStr_hexText (a : UInt64) : parseAddressStr (hexText a)=.ok a := by
  have hcs : (hexText a).toList= '0':: 'x'::Nat.toDigits 16 a.toNat := by
    rw [hexText,String.toList_append]
    exact congrArg (['0','x']++·) String.toList_ofList
  have hd : ∀ c ∈ '0':: 'x'::Nat.toDigits 16 a.toNat,isBlank c=false := by
    intro c hc
    rcases List.mem_cons.mp hc with rfl | hc
    · decide
    rcases List.mem_cons.mp hc with rfl | hc
    · decide
    · exact isBlank_of_digit (digit_of_mem_toDigits (show 2 ≤ 16 by decide) (by decide) hc)
  have hn : fromStrRadix 16 (Nat.toDigits 16 a.toNat)=some a := by
    rw [fromStrRadix_toDigits (by decide) (by decide),if_pos a.toNat_lt,UInt64.ofNat_toNat]
  rw [parseAddressStr,hcs,trim_eq_self hd]
  change (match fromStrRadix 16 (Nat.toDigits 16 a.toNat) with
    | some a => Except.ok a
    | none => .error _)=_
  rw [hn]

theorem hexText_injective {a b : UInt64} (h : hexText a=hexText b) : a=b := by
  have ha:=parseAddressStr_hexText a
  rw [h,parseAddressStr_hexText] at ha
  exact (Except.ok.inj ha).symm

end Ida
