import IdaMcp.Lib.Serde

/-!
# The requests (`src/server/requests.rs`)

Each request with the names its fields go by. A request that the router writes
with `serde_json::to_value` is a `Record`: what a worker reads from it is the
request again, but for an optional value that is `null`.
-/

namespace Rpc
open Lib Lib.Codec

structure Schema (α : Type) where
  fields : List Field
  distinct : Field.Distinct fields := by decide +kernel
  read : Row → Option α

def Schema.decode {α : Type} (S : Schema α) (p : Json) : Option α :=
    (Field.row S.fields p).bind S.read

structure Record (α : Type) extends Schema α where
  write : α → Row
  /-- What is read back. -/
  kept : α → α := fun a => a
  length : ∀ a,(write a).length=fields.length := by intro; rfl
  back : ∀ a,read (write a)=some (kept a) := by simp

def Record.encode {α : Type} (S : Record α) (a : α) : Json := Field.write S.fields (S.write a)

theorem Schema.decode_write {α : Type} (S : Schema α) {r : Row} (hl : r.length=S.fields.length) :
    S.decode (Field.write S.fields r)=S.read r := by
  rw [Schema.decode,Field.row_write S.distinct hl]
  rfl

theorem Record.decode_encode {α : Type} (S : Record α) (a : α) :
    S.decode (S.encode a)=some (S.kept a) := by
  rw [Record.encode,S.toSchema.decode_write (S.length a)]
  exact S.back a

def Schema.decodeAll {α : Type} (S : Schema α) : List Json → Option (List α)
  | [] => some []
  | p::ps => match S.decode p,S.decodeAll ps with
    | some a,some as => some (a::as)
    | _,_ => none

theorem Record.decodeAll_encode {α : Type} (S : Record α) (as : List α) :
    S.decodeAll (as.map S.encode)=some (as.map S.kept) := by
  induction as with
  | nil => rfl
  | cons a as ih => rw [List.map_cons,Schema.decodeAll,S.decode_encode,ih]; rfl

def field (name : String) (aliases : List String := []) : Field := ⟨name,aliases,false⟩
/-- With `#[serde(default)]`. -/
def defaulted (name : String) : Field := ⟨name,[],true⟩
def dbHandleField : Field := defaulted "db_handle"

structure OpenIdbRequest where
  path : String
  loadDebugInfo : Option Bool
  debugInfoPath : Option String
  debugInfoVerbose : Option Bool
  force : Option Bool
  fileType : Option String

structure LoadDebugInfoRequest where
  dbHandle : Option String
  path : Option String
  verbose : Option Bool

theorem LoadDebugInfoRequest.distinct :
    Field.Distinct [dbHandleField,field "path",field "verbose"] := by decide +kernel

def LoadDebugInfoRequest.schema : Schema LoadDebugInfoRequest where
  fields := [dbHandleField,field "path",field "verbose"]
  distinct := LoadDebugInfoRequest.distinct
  read
    | [h,path,verbose] => do
      return ⟨← string.opt h,← string.opt path,← bool.opt verbose⟩
    | _ => none

structure ListFunctionsRequest where
  dbHandle : Option String
  offset : Option UInt64
  limit : Option UInt64
  filter : Option String
  timeoutSecs : Option UInt64

def ListFunctionsRequest.schema : Record ListFunctionsRequest where
  fields := [dbHandleField,field "offset",field "limit" ["count"],
    field "filter" ["query","queries"],field "timeout_secs"]
  read
    | [h,offset,limit,filter,timeoutSecs] => do
      return ⟨← string.opt h,← u64.opt offset,← u64.opt limit,← string.opt filter,
        ← u64.opt timeoutSecs⟩
    | _ => none
  write r := [r.dbHandle.map string.enc,some (u64.put r.offset),some (u64.put r.limit),
    some (string.put r.filter),some (u64.put r.timeoutSecs)]

structure AnalyzeFuncsRequest where
  dbHandle : Option String
  timeoutSecs : Option UInt64

def AnalyzeFuncsRequest.schema : Schema AnalyzeFuncsRequest where
  fields := [dbHandleField,field "timeout_secs"]
  read
    | [h,timeoutSecs] => do
      return ⟨← string.opt h,← u64.opt timeoutSecs⟩
    | _ => none

structure ResolveFunctionRequest where
  dbHandle : Option String
  name : String

def ResolveFunctionRequest.schema : Schema ResolveFunctionRequest where
  fields := [dbHandleField,field "name"]
  read
    | [h,name] => do
      return ⟨← string.opt h,← string.req name⟩
    | _ => none

structure GetFunctionPrototypeRequest where
  dbHandle : Option String
  address : Option Json
  name : Option String

structure SetFunctionPrototypeRequest where
  dbHandle : Option String
  address : Option Json
  name : Option String
  prototype : String

def SetFunctionPrototypeRequest.schema : Record SetFunctionPrototypeRequest where
  fields := [dbHandleField,field "address" ["ea","addr"],field "name",field "prototype"]
  read
    | [h,address,name,prototype] => do
      return ⟨← string.opt h,← Json.opt address,← string.opt name,← string.req prototype⟩
    | _ => none
  write r := [r.dbHandle.map string.enc,some (Json.put r.address),some (string.put r.name),
    some (string.enc r.prototype)]
  kept r := {r with address := Json.solid r.address}

structure AddrInfoRequest where
  dbHandle : Option String
  address : Option Json
  targetName : Option String
  offset : Option UInt64

def AddrInfoRequest.schema : Schema AddrInfoRequest where
  fields := [dbHandleField,field "address" ["ea","addr","addresses"],
    field "target_name" ["name","symbol"],field "offset"]
  read
    | [h,address,targetName,offset] => do
      return ⟨← string.opt h,← Json.opt address,← string.opt targetName,← u64.opt offset⟩
    | _ => none

abbrev FunctionAtRequest := AddrInfoRequest

structure DisasmFunctionAtRequest where
  dbHandle : Option String
  address : Option Json
  targetName : Option String
  offset : Option UInt64
  count : Option UInt64

def DisasmFunctionAtRequest.schema : Record DisasmFunctionAtRequest where
  fields := [dbHandleField,field "address" ["ea","addr","addresses"],
    field "target_name" ["name","symbol"],field "offset",field "count"]
  read
    | [h,address,targetName,offset,count] => do
      return ⟨← string.opt h,← Json.opt address,← string.opt targetName,← u64.opt offset,
        ← u64.opt count⟩
    | _ => none
  write r := [r.dbHandle.map string.enc,some (Json.put r.address),some (string.put r.targetName),
    some (u64.put r.offset),some (u64.put r.count)]
  kept r := {r with address := Json.solid r.address}

structure DisasmRequest where
  dbHandle : Option String
  address : Json
  count : Option UInt64

def DisasmRequest.schema : Schema DisasmRequest where
  fields := [dbHandleField,field "address" ["addrs","addr","addresses"],field "count"]
  read
    | [h,address,count] => do
      return ⟨← string.opt h,← Json.req address,← u64.opt count⟩
    | _ => none

structure DisasmByNameRequest where
  dbHandle : Option String
  name : String
  count : Option UInt64

def DisasmByNameRequest.schema : Schema DisasmByNameRequest where
  fields := [dbHandleField,field "name",field "count"]
  read
    | [h,name,count] => do
      return ⟨← string.opt h,← string.req name,← u64.opt count⟩
    | _ => none

structure DecompileRequest where
  dbHandle : Option String
  address : Json

def DecompileRequest.schema : Schema DecompileRequest where
  fields := [dbHandleField,field "address" ["addrs","addr","addresses"]]
  read
    | [h,address] => do
      return ⟨← string.opt h,← Json.req address⟩
    | _ => none

structure BatchDecompileRequest where
  dbHandle : Option String
  addresses : Json

def BatchDecompileRequest.schema : Schema BatchDecompileRequest where
  fields := [dbHandleField,field "addresses" ["addrs","address"]]
  read
    | [h,addresses] => do
      return ⟨← string.opt h,← Json.req addresses⟩
    | _ => none

structure SearchPseudocodeRequest where
  dbHandle : Option String
  pattern : String
  limit : Option UInt64
  timeoutSecs : Option UInt64

def SearchPseudocodeRequest.schema : Schema SearchPseudocodeRequest where
  fields := [dbHandleField,field "pattern",defaulted "limit",defaulted "timeout_secs"]
  read
    | [h,pattern,limit,timeoutSecs] => do
      return ⟨← string.opt h,← string.req pattern,← u64.opt limit,← u64.opt timeoutSecs⟩
    | _ => none

structure TableScanRequest where
  dbHandle : Option String
  baseAddress : Json
  stride : Option UInt64
  count : Option UInt64

def TableScanRequest.schema : Schema TableScanRequest where
  fields := [dbHandleField,field "base_address" ["addr","base"],defaulted "stride",
    defaulted "count"]
  read
    | [h,baseAddress,stride,count] => do
      return ⟨← string.opt h,← Json.req baseAddress,← u64.opt stride,← u64.opt count⟩
    | _ => none

structure DiffFunctionsRequest where
  dbHandle : Option String
  addr1 : Json
  addr2 : Json

def DiffFunctionsRequest.schema : Schema DiffFunctionsRequest where
  fields := [dbHandleField,field "addr1" ["address1","func1"],field "addr2" ["address2","func2"]]
  read
    | [h,addr1,addr2] => do
      return ⟨← string.opt h,← Json.req addr1,← Json.req addr2⟩
    | _ => none

structure ListStringsRequest where
  dbHandle : Option String
  query : Option String
  filter : Option String
  exact : Option Bool
  caseInsensitive : Option Bool
  offset : Option UInt64
  limit : Option UInt64
  timeoutSecs : Option UInt64

structure XrefsToStringRequest where
  dbHandle : Option String
  query : String
  exact : Option Bool
  caseInsensitive : Option Bool
  offset : Option UInt64
  limit : Option UInt64
  maxXrefs : Option UInt64
  timeoutSecs : Option UInt64

def XrefsToStringRequest.schema : Record XrefsToStringRequest where
  fields := [dbHandleField,field "query",field "exact",field "case_insensitive",field "offset",
    field "limit" ["count"],field "max_xrefs",field "timeout_secs"]
  read
    | [h,query,exact,caseInsensitive,offset,limit,maxXrefs,timeoutSecs] => do
      return ⟨← string.opt h,← string.req query,← bool.opt exact,← bool.opt caseInsensitive,
        ← u64.opt offset,← u64.opt limit,← u64.opt maxXrefs,← u64.opt timeoutSecs⟩
    | _ => none
  write r := [r.dbHandle.map string.enc,some (string.enc r.query),some (bool.put r.exact),
    some (bool.put r.caseInsensitive),some (u64.put r.offset),some (u64.put r.limit),
    some (u64.put r.maxXrefs),some (u64.put r.timeoutSecs)]

structure LocalTypesRequest where
  dbHandle : Option String
  offset : Option UInt64
  limit : Option UInt64
  filter : Option String
  timeoutSecs : Option UInt64

def LocalTypesRequest.schema : Record LocalTypesRequest where
  fields := [dbHandleField,field "offset",field "limit" ["count"],field "filter" ["query"],
    field "timeout_secs"]
  read
    | [h,offset,limit,filter,timeoutSecs] => do
      return ⟨← string.opt h,← u64.opt offset,← u64.opt limit,← string.opt filter,
        ← u64.opt timeoutSecs⟩
    | _ => none
  write r := [r.dbHandle.map string.enc,some (u64.put r.offset),some (u64.put r.limit),
    some (string.put r.filter),some (u64.put r.timeoutSecs)]

structure DeclareTypeRequest where
  dbHandle : Option String
  decl : String
  relaxed : Option Bool
  replace : Option Bool
  multi : Option Bool

def DeclareTypeRequest.schema : Record DeclareTypeRequest where
  fields := [dbHandleField,field "decl",field "relaxed",field "replace",field "multi"]
  read
    | [h,decl,relaxed,replace,multi] => do
      return ⟨← string.opt h,← string.req decl,← bool.opt relaxed,← bool.opt replace,
        ← bool.opt multi⟩
    | _ => none
  write r := [r.dbHandle.map string.enc,some (string.enc r.decl),some (bool.put r.relaxed),
    some (bool.put r.replace),some (bool.put r.multi)]

abbrev StructsRequest := LocalTypesRequest

structure StructInfoRequest where
  dbHandle : Option String
  ordinal : Option UInt32
  name : Option String

def StructInfoRequest.schema : Schema StructInfoRequest where
  fields := [dbHandleField,field "ordinal",field "name" ["struct_name","type_name"]]
  read
    | [h,ordinal,name] => do
      return ⟨← string.opt h,← u32.opt ordinal,← string.opt name⟩
    | _ => none

structure ReadStructRequest where
  dbHandle : Option String
  address : Json
  ordinal : Option UInt32
  name : Option String

def ReadStructRequest.schema : Schema ReadStructRequest where
  fields := [dbHandleField,field "address" ["ea","addr","addresses"],field "ordinal",
    field "name" ["struct_name","type_name"]]
  read
    | [h,address,ordinal,name] => do
      return ⟨← string.opt h,← Json.req address,← u32.opt ordinal,← string.opt name⟩
    | _ => none

structure ApplyTypesRequest where
  dbHandle : Option String
  address : Option Json
  targetName : Option String
  offset : Option UInt64
  stackOffset : Option Int64
  stackName : Option String
  typeName : Option String
  decl : Option String
  relaxed : Option Bool
  delay : Option Bool
  strict : Option Bool

def ApplyTypesRequest.schema : Record ApplyTypesRequest where
  fields := [dbHandleField,field "address" ["ea","addr","addresses"],
    field "target_name" ["name","symbol"],field "offset",field "stack_offset",field "stack_name",
    field "type_name",field "decl",field "relaxed",field "delay",field "strict"]
  read
    | [h,address,targetName,offset,stackOffset,stackName,typeName,decl,relaxed,delay,strict] => do
      return ⟨← string.opt h,← Json.opt address,← string.opt targetName,← u64.opt offset,
        ← i64.opt stackOffset,← string.opt stackName,← string.opt typeName,← string.opt decl,
        ← bool.opt relaxed,← bool.opt delay,← bool.opt strict⟩
    | _ => none
  write r := [r.dbHandle.map string.enc,some (Json.put r.address),some (string.put r.targetName),
    some (u64.put r.offset),some (i64.put r.stackOffset),some (string.put r.stackName),
    some (string.put r.typeName),some (string.put r.decl),some (bool.put r.relaxed),
    some (bool.put r.delay),some (bool.put r.strict)]
  kept r := {r with address := Json.solid r.address}

abbrev InferTypesRequest := AddrInfoRequest

structure DeclareStackRequest where
  dbHandle : Option String
  address : Option Json
  targetName : Option String
  offset : Int64
  varName : Option String
  decl : String
  relaxed : Option Bool

def DeclareStackRequest.schema : Record DeclareStackRequest where
  fields := [dbHandleField,field "address" ["ea","addr","addresses"],
    field "target_name" ["function","name"],field "offset",field "var_name",field "decl",
    field "relaxed"]
  read
    | [h,address,targetName,offset,varName,decl,relaxed] => do
      return ⟨← string.opt h,← Json.opt address,← string.opt targetName,← i64.req offset,
        ← string.opt varName,← string.req decl,← bool.opt relaxed⟩
    | _ => none
  write r := [r.dbHandle.map string.enc,some (Json.put r.address),some (string.put r.targetName),
    some (i64.enc r.offset),some (string.put r.varName),some (string.enc r.decl),
    some (bool.put r.relaxed)]
  kept r := {r with address := Json.solid r.address}

structure DeleteStackRequest where
  dbHandle : Option String
  address : Option Json
  targetName : Option String
  offset : Option Int64
  varName : Option String

def DeleteStackRequest.schema : Record DeleteStackRequest where
  fields := [dbHandleField,field "address" ["ea","addr","addresses"],
    field "target_name" ["function","name"],field "offset",field "var_name"]
  read
    | [h,address,targetName,offset,varName] => do
      return ⟨← string.opt h,← Json.opt address,← string.opt targetName,← i64.opt offset,
        ← string.opt varName⟩
    | _ => none
  write r := [r.dbHandle.map string.enc,some (Json.put r.address),some (string.put r.targetName),
    some (i64.put r.offset),some (string.put r.varName)]
  kept r := {r with address := Json.solid r.address}

structure RenameStackVariableRequest where
  funcAddress : Option Json
  funcName : Option String
  name : String
  newName : String
  dbHandle : Option String

def RenameStackVariableRequest.schema : Record RenameStackVariableRequest where
  fields := [field "func_address",field "func_name",field "name",field "new_name",
    field "db_handle"]
  read
    | [funcAddress,funcName,name,newName,h] => do
      return ⟨← Json.opt funcAddress,← string.opt funcName,← string.req name,← string.req newName,
        ← string.opt h⟩
    | _ => none
  write r := [some (Json.put r.funcAddress),some (string.put r.funcName),some (string.enc r.name),
    some (string.enc r.newName),some (string.put r.dbHandle)]
  kept r := {r with funcAddress := Json.solid r.funcAddress}

structure SetStackVariableTypeRequest where
  funcAddress : Option Json
  funcName : Option String
  name : String
  typeDecl : String
  dbHandle : Option String

def SetStackVariableTypeRequest.schema : Record SetStackVariableTypeRequest where
  fields := [field "func_address",field "func_name",field "name",field "type_decl",
    field "db_handle"]
  read
    | [funcAddress,funcName,name,typeDecl,h] => do
      return ⟨← Json.opt funcAddress,← string.opt funcName,← string.req name,
        ← string.req typeDecl,← string.opt h⟩
    | _ => none
  write r := [some (Json.put r.funcAddress),some (string.put r.funcName),some (string.enc r.name),
    some (string.enc r.typeDecl),some (string.put r.dbHandle)]
  kept r := {r with funcAddress := Json.solid r.funcAddress}

structure ListEnumsRequest where
  filter : Option String
  offset : Option UInt64
  limit : Option UInt64
  dbHandle : Option String

def ListEnumsRequest.schema : Record ListEnumsRequest where
  fields := [field "filter",field "offset",field "limit",field "db_handle"]
  read
    | [filter,offset,limit,h] => do
      return ⟨← string.opt filter,← u64.opt offset,← u64.opt limit,← string.opt h⟩
    | _ => none
  write r := [some (string.put r.filter),some (u64.put r.offset),some (u64.put r.limit),
    some (string.put r.dbHandle)]

structure CreateEnumRequest where
  decl : String
  replace : Option Bool
  dbHandle : Option String

def CreateEnumRequest.schema : Record CreateEnumRequest where
  fields := [field "decl",field "replace",field "db_handle"]
  read
    | [decl,replace,h] => do
      return ⟨← string.req decl,← bool.opt replace,← string.opt h⟩
    | _ => none
  write r := [some (string.enc r.decl),some (bool.put r.replace),some (string.put r.dbHandle)]

structure XrefsToFieldRequest where
  dbHandle : Option String
  ordinal : Option UInt32
  name : Option String
  memberIndex : Option UInt32
  memberName : Option String
  limit : Option UInt64

def XrefsToFieldRequest.schema : Record XrefsToFieldRequest where
  fields := [dbHandleField,field "ordinal",field "name" ["struct_name","type_name"],
    field "member_index",field "member_name" ["member","field","field_name"],
    field "limit" ["count"]]
  read
    | [h,ordinal,name,memberIndex,memberName,limit] => do
      return ⟨← string.opt h,← u32.opt ordinal,← string.opt name,← u32.opt memberIndex,
        ← string.opt memberName,← u64.opt limit⟩
    | _ => none
  write r := [r.dbHandle.map string.enc,some (u32.put r.ordinal),some (string.put r.name),
    some (u32.put r.memberIndex),some (string.put r.memberName),some (u64.put r.limit)]

structure AddressRequest where
  dbHandle : Option String
  address : Json

def AddressRequest.schema : Schema AddressRequest where
  fields := [dbHandleField,field "address" ["addrs","addr","addresses"]]
  read
    | [h,address] => do
      return ⟨← string.opt h,← Json.req address⟩
    | _ => none

structure GetBytesRequest where
  dbHandle : Option String
  address : Option Json
  targetName : Option String
  offset : Option UInt64
  size : Option UInt64

def GetBytesRequest.schema : Record GetBytesRequest where
  fields := [dbHandleField,field "address" ["addrs","addr","addresses"],
    field "target_name" ["name","symbol"],field "offset",field "size" ["count"]]
  read
    | [h,address,targetName,offset,size] => do
      return ⟨← string.opt h,← Json.opt address,← string.opt targetName,← u64.opt offset,
        ← u64.opt size⟩
    | _ => none
  write r := [r.dbHandle.map string.enc,some (Json.put r.address),some (string.put r.targetName),
    some (u64.put r.offset),some (u64.put r.size)]
  kept r := {r with address := Json.solid r.address}

structure SetCommentsRequest where
  dbHandle : Option String
  address : Option Json
  targetName : Option String
  offset : Option UInt64
  comment : String
  repeatable : Option Bool

def SetCommentsRequest.schema : Record SetCommentsRequest where
  fields := [dbHandleField,field "address" ["ea","addr","addresses"],
    field "target_name" ["name","symbol"],field "offset",field "comment" ["text"],
    field "repeatable" ["rptble"]]
  read
    | [h,address,targetName,offset,comment,repeatable] => do
      return ⟨← string.opt h,← Json.opt address,← string.opt targetName,← u64.opt offset,
        ← string.req comment,← bool.opt repeatable⟩
    | _ => none
  write r := [r.dbHandle.map string.enc,some (Json.put r.address),some (string.put r.targetName),
    some (u64.put r.offset),some (string.enc r.comment),some (bool.put r.repeatable)]
  kept r := {r with address := Json.solid r.address}

structure SetFunctionCommentRequest where
  dbHandle : Option String
  address : Option Json
  name : Option String
  comment : String
  repeatable : Option Bool

def SetFunctionCommentRequest.schema : Record SetFunctionCommentRequest where
  fields := [dbHandleField,field "address" ["ea","addr"],field "name",field "comment",
    field "repeatable"]
  read
    | [h,address,name,comment,repeatable] => do
      return ⟨← string.opt h,← Json.opt address,← string.opt name,← string.req comment,
        ← bool.opt repeatable⟩
    | _ => none
  write r := [r.dbHandle.map string.enc,some (Json.put r.address),some (string.put r.name),
    some (string.enc r.comment),some (bool.put r.repeatable)]
  kept r := {r with address := Json.solid r.address}

structure RenameRequest where
  dbHandle : Option String
  address : Option Json
  currentName : Option String
  name : String
  flags : Option Int32

def RenameRequest.schema : Record RenameRequest where
  fields := [dbHandleField,field "address" ["ea","addr","addresses"],
    field "current_name" ["current","old_name","from"],field "name" ["new_name"],field "flags"]
  read
    | [h,address,currentName,name,flags] => do
      return ⟨← string.opt h,← Json.opt address,← string.opt currentName,← string.req name,
        ← i32.opt flags⟩
    | _ => none
  write r := [r.dbHandle.map string.enc,some (Json.put r.address),some (string.put r.currentName),
    some (string.enc r.name),some (i32.put r.flags)]
  kept r := {r with address := Json.solid r.address}

structure BatchRenameEntry where
  address : Option Json
  currentName : Option String
  newName : String

def BatchRenameEntry.schema : Record BatchRenameEntry where
  fields := [field "address" ["ea","addr"],field "current_name",field "new_name"]
  read
    | [address,currentName,newName] => do
      return ⟨← Json.opt address,← string.opt currentName,← string.req newName⟩
    | _ => none
  write r := [some (Json.put r.address),some (string.put r.currentName),
    some (string.enc r.newName)]
  kept r := {r with address := Json.solid r.address}

structure BatchRenameRequest where
  dbHandle : Option String
  renames : List BatchRenameEntry

def BatchRenameRequest.schema : Record BatchRenameRequest where
  fields := [dbHandleField,field "renames"]
  read
    | [h,renames] => do
      return ⟨← string.opt h,← (renames.bind Json.asArray).bind BatchRenameEntry.schema.decodeAll⟩
    | _ => none
  write r := [r.dbHandle.map string.enc,some (.arr (r.renames.map BatchRenameEntry.schema.encode))]
  kept r := {r with renames := r.renames.map BatchRenameEntry.schema.kept}
  back _ := by simp [Json.asArray,Record.decodeAll_encode]

structure RenameLvarRequest where
  dbHandle : Option String
  funcAddress : Json
  lvarName : String
  newName : String

def RenameLvarRequest.schema : Record RenameLvarRequest where
  fields := [dbHandleField,field "func_address" ["func_ea","func_addr"],
    field "lvar_name" ["old_name","variable"],field "new_name" ["name"]]
  read
    | [h,funcAddress,lvarName,newName] => do
      return ⟨← string.opt h,← Json.req funcAddress,← string.req lvarName,← string.req newName⟩
    | _ => none
  write r := [r.dbHandle.map string.enc,some r.funcAddress,some (string.enc r.lvarName),
    some (string.enc r.newName)]

structure SetLvarTypeRequest where
  dbHandle : Option String
  funcAddress : Json
  lvarName : String
  typeStr : String

def SetLvarTypeRequest.schema : Record SetLvarTypeRequest where
  fields := [dbHandleField,field "func_address" ["func_ea","func_addr"],
    field "lvar_name" ["variable","name"],field "type_str" ["type","decl"]]
  read
    | [h,funcAddress,lvarName,typeStr] => do
      return ⟨← string.opt h,← Json.req funcAddress,← string.req lvarName,← string.req typeStr⟩
    | _ => none
  write r := [r.dbHandle.map string.enc,some r.funcAddress,some (string.enc r.lvarName),
    some (string.enc r.typeStr)]

structure SetDecompilerCommentRequest where
  dbHandle : Option String
  funcAddress : Json
  address : Json
  itp : Option Int32
  comment : String

def SetDecompilerCommentRequest.schema : Record SetDecompilerCommentRequest where
  fields := [dbHandleField,field "func_address" ["func_ea","func_addr"],field "address" ["ea"],
    defaulted "itp",field "comment" ["text","cmt"]]
  read
    | [h,funcAddress,address,itp,comment] => do
      return ⟨← string.opt h,← Json.req funcAddress,← Json.req address,← i32.opt itp,
        ← string.req comment⟩
    | _ => none
  write r := [r.dbHandle.map string.enc,some r.funcAddress,some r.address,some (i32.put r.itp),
    some (string.enc r.comment)]

structure PatchRequest where
  dbHandle : Option String
  address : Option Json
  targetName : Option String
  offset : Option UInt64
  bytes : Json

def PatchRequest.schema : Record PatchRequest where
  fields := [dbHandleField,field "address" ["ea","addr","addresses"],
    field "target_name" ["name","symbol"],field "offset",field "bytes" ["data"]]
  read
    | [h,address,targetName,offset,bytes] => do
      return ⟨← string.opt h,← Json.opt address,← string.opt targetName,← u64.opt offset,
        ← Json.req bytes⟩
    | _ => none
  write r := [r.dbHandle.map string.enc,some (Json.put r.address),some (string.put r.targetName),
    some (u64.put r.offset),some r.bytes]
  kept r := {r with address := Json.solid r.address}

structure PatchAsmRequest where
  dbHandle : Option String
  address : Option Json
  targetName : Option String
  offset : Option UInt64
  line : String

def PatchAsmRequest.schema : Record PatchAsmRequest where
  fields := [dbHandleField,field "address" ["ea","addr","addresses"],
    field "target_name" ["name","symbol"],field "offset",field "line" ["asm","instruction"]]
  read
    | [h,address,targetName,offset,line] => do
      return ⟨← string.opt h,← Json.opt address,← string.opt targetName,← u64.opt offset,
        ← string.req line⟩
    | _ => none
  write r := [r.dbHandle.map string.enc,some (Json.put r.address),some (string.put r.targetName),
    some (u64.put r.offset),some (string.enc r.line)]
  kept r := {r with address := Json.solid r.address}

structure PaginatedRequest where
  dbHandle : Option String
  offset : Option UInt64
  limit : Option UInt64

def PaginatedRequest.schema : Schema PaginatedRequest where
  fields := [dbHandleField,field "offset",field "limit" ["count"]]
  read
    | [h,offset,limit] => do
      return ⟨← string.opt h,← u64.opt offset,← u64.opt limit⟩
    | _ => none

structure LookupFuncsRequest where
  dbHandle : Option String
  queries : Json

def LookupFuncsRequest.schema : Schema LookupFuncsRequest where
  fields := [dbHandleField,field "queries" ["query","names"]]
  read
    | [h,queries] => do
      return ⟨← string.opt h,← Json.req queries⟩
    | _ => none

structure ListGlobalsRequest where
  dbHandle : Option String
  query : Option String
  offset : Option UInt64
  limit : Option UInt64
  timeoutSecs : Option UInt64

def ListGlobalsRequest.schema : Record ListGlobalsRequest where
  fields := [dbHandleField,field "query" ["filter"],field "offset",field "limit" ["count"],
    field "timeout_secs"]
  read
    | [h,query,offset,limit,timeoutSecs] => do
      return ⟨← string.opt h,← string.opt query,← u64.opt offset,← u64.opt limit,
        ← u64.opt timeoutSecs⟩
    | _ => none
  write r := [r.dbHandle.map string.enc,some (string.put r.query),some (u64.put r.offset),
    some (u64.put r.limit),some (u64.put r.timeoutSecs)]

structure FindBytesRequest where
  dbHandle : Option String
  patterns : Json
  limit : Option UInt64
  offset : Option UInt64
  timeoutSecs : Option UInt64

def FindBytesRequest.schema : Record FindBytesRequest where
  fields := [dbHandleField,field "patterns" ["pattern"],field "limit" ["count"],field "offset",
    field "timeout_secs"]
  read
    | [h,patterns,limit,offset,timeoutSecs] => do
      return ⟨← string.opt h,← Json.req patterns,← u64.opt limit,← u64.opt offset,
        ← u64.opt timeoutSecs⟩
    | _ => none
  write r := [r.dbHandle.map string.enc,some r.patterns,some (u64.put r.limit),
    some (u64.put r.offset),some (u64.put r.timeoutSecs)]

structure SearchRequest where
  dbHandle : Option String
  targets : Json
  kind : Option String
  limit : Option UInt64
  offset : Option UInt64
  timeoutSecs : Option UInt64

structure FindInsnsRequest where
  dbHandle : Option String
  patterns : Json
  limit : Option UInt64
  caseInsensitive : Option Bool
  timeoutSecs : Option UInt64

def FindInsnsRequest.schema : Record FindInsnsRequest where
  fields := [dbHandleField,field "patterns" ["pattern","query","queries","mnemonic","mnemonics"],
    field "limit" ["count"],field "case_insensitive",field "timeout_secs"]
  read
    | [h,patterns,limit,caseInsensitive,timeoutSecs] => do
      return ⟨← string.opt h,← Json.req patterns,← u64.opt limit,← bool.opt caseInsensitive,
        ← u64.opt timeoutSecs⟩
    | _ => none
  write r := [r.dbHandle.map string.enc,some r.patterns,some (u64.put r.limit),
    some (bool.put r.caseInsensitive),some (u64.put r.timeoutSecs)]

structure FindInsnOperandsRequest where
  dbHandle : Option String
  patterns : Json
  limit : Option UInt64
  caseInsensitive : Option Bool
  timeoutSecs : Option UInt64

def FindInsnOperandsRequest.schema : Record FindInsnOperandsRequest where
  fields := [dbHandleField,field "patterns" ["pattern","query","queries","operands"],
    field "limit" ["count"],field "case_insensitive",field "timeout_secs"]
  read
    | [h,patterns,limit,caseInsensitive,timeoutSecs] => do
      return ⟨← string.opt h,← Json.req patterns,← u64.opt limit,← bool.opt caseInsensitive,
        ← u64.opt timeoutSecs⟩
    | _ => none
  write r := [r.dbHandle.map string.enc,some r.patterns,some (u64.put r.limit),
    some (bool.put r.caseInsensitive),some (u64.put r.timeoutSecs)]

structure FindPathsRequest where
  dbHandle : Option String
  start : Json
  finish : Json
  maxPaths : Option UInt64
  maxDepth : Option UInt64

def FindPathsRequest.schema : Record FindPathsRequest where
  fields := [dbHandleField,field "start",field "end",field "max_paths",field "max_depth"]
  read
    | [h,start,finish,maxPaths,maxDepth] => do
      return ⟨← string.opt h,← Json.req start,← Json.req finish,← u64.opt maxPaths,
        ← u64.opt maxDepth⟩
    | _ => none
  write r := [r.dbHandle.map string.enc,some r.start,some r.finish,some (u64.put r.maxPaths),
    some (u64.put r.maxDepth)]

structure CallGraphRequest where
  dbHandle : Option String
  roots : Json
  maxDepth : Option UInt64
  maxNodes : Option UInt64

def CallGraphRequest.schema : Record CallGraphRequest where
  fields := [dbHandleField,field "roots" ["root","addr","address","addrs"],field "max_depth",
    field "max_nodes"]
  read
    | [h,roots,maxDepth,maxNodes] => do
      return ⟨← string.opt h,← Json.req roots,← u64.opt maxDepth,← u64.opt maxNodes⟩
    | _ => none
  write r := [r.dbHandle.map string.enc,some r.roots,some (u64.put r.maxDepth),
    some (u64.put r.maxNodes)]

structure XrefMatrixRequest where
  dbHandle : Option String
  addrs : Json

def XrefMatrixRequest.schema : Schema XrefMatrixRequest where
  fields := [dbHandleField,field "addrs" ["addr","address","addresses"]]
  read
    | [h,addrs] => do
      return ⟨← string.opt h,← Json.req addrs⟩
    | _ => none

structure ExportFuncsRequest where
  dbHandle : Option String
  addrs : Option Json
  offset : Option UInt64
  limit : Option UInt64
  format : Option String

def ExportFuncsRequest.schema : Schema ExportFuncsRequest where
  fields := [dbHandleField,field "addrs" ["addr","address","functions"],field "offset",
    field "limit" ["count"],field "format"]
  read
    | [h,addrs,offset,limit,format] => do
      return ⟨← string.opt h,← Json.opt addrs,← u64.opt offset,← u64.opt limit,
        ← string.opt format⟩
    | _ => none

structure GetStringRequest where
  dbHandle : Option String
  address : Json
  maxLen : Option UInt64

def GetStringRequest.schema : Schema GetStringRequest where
  fields := [dbHandleField,field "address" ["addrs","addr","addresses"],field "max_len"]
  read
    | [h,address,maxLen] => do
      return ⟨← string.opt h,← Json.req address,← u64.opt maxLen⟩
    | _ => none

structure GetGlobalValueRequest where
  dbHandle : Option String
  query : Json

def GetGlobalValueRequest.schema : Schema GetGlobalValueRequest where
  fields := [dbHandleField,field "query" ["queries","names","addrs"]]
  read
    | [h,query] => do
      return ⟨← string.opt h,← Json.req query⟩
    | _ => none

structure PseudocodeAtRequest where
  dbHandle : Option String
  address : Json
  endAddress : Option String

def PseudocodeAtRequest.schema : Schema PseudocodeAtRequest where
  fields := [dbHandleField,field "address" ["addrs","addr","addresses"],field "end_address"]
  read
    | [h,address,endAddress] => do
      return ⟨← string.opt h,← Json.req address,← string.opt endAddress⟩
    | _ => none

structure RunScriptRequest where
  dbHandle : Option String
  code : Option String
  file : Option String
  timeoutSecs : Option UInt64

def RunScriptRequest.schema : Schema RunScriptRequest where
  fields := [dbHandleField,field "code",field "file",field "timeout_secs"]
  read
    | [h,code,file,timeoutSecs] => do
      return ⟨← string.opt h,← string.opt code,← string.opt file,← u64.opt timeoutSecs⟩
    | _ => none

end Rpc
