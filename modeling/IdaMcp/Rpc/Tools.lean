import IdaMcp.Rpc.Table

/-!
# The tools (`src/server/mod.rs`)

A tool is served in one of two ways. With a router, the request is written as
JSON parameters for a method of a worker; without one, it is read on the spot
and goes to the worker as operations. `Call.routed` and `Call.direct` are the
two branches. The search for the entry point that follows when a router opens
an SBPF file is not a branch of the request and is left out.
-/

namespace Rpc
open Lib Lib.Codec

structure DecompileStructuredRequest where
  dbHandle : Option String
  address : Json
  maxDepth : Option UInt32
  includeTypes : Option Bool
  includeAddresses : Option Bool

structure DscAddDylibRequest where
  dbHandle : Option String
  module : String
  timeoutSecs : Option UInt64

structure DscAddRegionRequest where
  dbHandle : Option String
  address : Json
  timeoutSecs : Option UInt64

structure CloseIdbRequest where
  token : Option String

/-- A request for a tool that has both branches. All tools of the debugger write a script and
call `run_debug_script` with it. -/
inductive Call
  | openIdb (req : OpenIdbRequest)
  | loadDebugInfo (req : LoadDebugInfoRequest)
  | getAnalysisStatus
  | closeIdb (req : CloseIdbRequest)
  | listFunctions (req : ListFunctionsRequest)
  | listFuncs (req : ListFunctionsRequest)
  | getFunctionByName (req : ResolveFunctionRequest)
  | getFunctionPrototype (req : GetFunctionPrototypeRequest)
  | getAddressInfo (req : AddrInfoRequest)
  | getFunctionAtAddress (req : FunctionAtRequest)
  | disassemble (req : DisasmRequest)
  | disassembleFunction (req : DisasmByNameRequest)
  | disassembleFunctionAt (req : DisasmFunctionAtRequest)
  | decompileFunction (req : DecompileRequest)
  | getPseudocodeAt (req : PseudocodeAtRequest)
  | decompileStructured (req : DecompileStructuredRequest)
  | batchDecompile (req : BatchDecompileRequest)
  | searchPseudocode (req : SearchPseudocodeRequest)
  | scanMemoryTable (req : TableScanRequest)
  | diffPseudocode (req : DiffFunctionsRequest)
  | listSegments
  | listStrings (req : ListStringsRequest)
  | getXrefsToString (req : XrefsToStringRequest)
  | getXrefsTo (req : AddressRequest)
  | getXrefsFrom (req : AddressRequest)
  | listImports (req : PaginatedRequest)
  | listExports (req : PaginatedRequest)
  | listEntryPoints
  | readBytes (req : GetBytesRequest)
  | getBasicBlocks (req : AddressRequest)
  | getCallees (req : AddressRequest)
  | getCallers (req : AddressRequest)
  | getDatabaseInfo
  | batchLookupFunctions (req : LookupFuncsRequest)
  | listGlobals (req : ListGlobalsRequest)
  | searchBytes (req : FindBytesRequest)
  | searchText (req : SearchRequest)
  | readByte (req : AddressRequest)
  | readWord (req : AddressRequest)
  | readDword (req : AddressRequest)
  | readQword (req : AddressRequest)
  | readString (req : GetStringRequest)
  | readGlobalVariable (req : GetGlobalValueRequest)
  | findControlFlowPaths (req : FindPathsRequest)
  | buildCallgraph (req : CallGraphRequest)
  | buildXrefMatrix (req : XrefMatrixRequest)
  | exportFunctions (req : ExportFuncsRequest)
  | listLocalTypes (req : LocalTypesRequest)
  | getXrefsToStructField (req : XrefsToFieldRequest)
  | setComment (req : SetCommentsRequest)
  | setFunctionComment (req : SetFunctionCommentRequest)
  | patchAssembly (req : PatchAsmRequest)
  | declareCType (req : DeclareTypeRequest)
  | getStackFrame (req : AddressRequest)
  | createStackVariable (req : DeclareStackRequest)
  | deleteStackVariable (req : DeleteStackRequest)
  | renameStackVariable (req : RenameStackVariableRequest)
  | setStackVariableType (req : SetStackVariableTypeRequest)
  | listEnums (req : ListEnumsRequest)
  | createEnum (req : CreateEnumRequest)
  | listStructs (req : StructsRequest)
  | getStructInfo (req : StructInfoRequest)
  | readStructAtAddress (req : ReadStructRequest)
  | searchStructs (req : StructsRequest)
  | searchInstructions (req : FindInsnsRequest)
  | searchInstructionOperands (req : FindInsnOperandsRequest)
  | applyType (req : ApplyTypesRequest)
  | setFunctionPrototype (req : SetFunctionPrototypeRequest)
  | inferType (req : InferTypesRequest)
  | runAutoAnalysis (req : AnalyzeFuncsRequest)
  | renameSymbol (req : RenameRequest)
  | batchRename (req : BatchRenameRequest)
  | renameLocalVariable (req : RenameLvarRequest)
  | setLocalVariableType (req : SetLvarTypeRequest)
  | setDecompilerComment (req : SetDecompilerCommentRequest)
  | patchBytes (req : PatchRequest)
  | dscAddDylib (req : DscAddDylibRequest)
  | dscAddRegion (req : DscAddRegionRequest)
  | runScript (req : RunScriptRequest)
  | runDebugScript (script : String) (timeoutSecs : UInt64)

/-- What the tools leave to the machine: lower case, the files, the texts of the scripts, and the
references that keep a database open. -/
structure Site extends Host where
  validatePath : String → Bool
  readToString : String → Except String String
  decompileStructuredScript : UInt64 → UInt32 → Bool → Bool → String
  dscAddDylibScript : String → String
  dscAddRegionScript : UInt64 → String
  http : Bool
  /-- How many references are left once the one with this token is released. -/
  releaseDbRef : String → Option Nat
  /-- The same in the router, and whether it has an active database. -/
  releaseRefToken : String → Option Nat
  hasActiveHandle : Bool

namespace Site
variable (site : Site)

/-- Lines 4215-4232. -/
def dylibModule (req : DscAddDylibRequest) : Result String :=
  let cs:=trim req.module.toList
  if cs.isEmpty then .error (.invalidParams "module must not be empty")
  else if cs.head?≠some '/' then
    .error (.invalidParams "module must be an absolute path (start with '/')")
  else if textContains "..".toList cs then
    .error (.invalidParams "module must not contain '..' path traversal")
  else .ok (String.ofList cs)

/-- Lines 4303-4319. -/
def regionAddress (req : DscAddRegionRequest) : Result UInt64 :=
  match valueToAddresses site.fromStr req.address with
  | .ok [ea] => .ok ea
  | .ok _ => .error (.invalidParams "address must contain exactly one value")
  | .error (.invalidAddress addr) => .error (.invalidParams s!"Invalid address: {addr}")
  | .error e => .error e

/-- Lines 4455-4487. -/
def scriptCode (req : RunScriptRequest) : Result String :=
  match req.code,req.file with
  | some code,none => .ok code
  | none,some path =>
    if site.validatePath path then
      match site.readToString path with
      | .ok contents => .ok contents
      | .error e => .error (.invalidPath s!"Failed to read script file '{path}': {e}")
    else .error (.invalidPath path)
  | some _,some _ => .error (.invalidParams "Provide either 'code' or 'file', not both")
  | none,none => .error (.invalidParams
      "Provide either 'code' (inline Python) or 'file' (path to .py)")

/-- The script of a tool that is a script, with its time limit. -/
def structuredScript (req : DecompileStructuredRequest) : Result (String × Option UInt64) := do
  let addr ← valueToSingleAddress site.fromStr req.address
  return (site.decompileStructuredScript addr (min (req.maxDepth.getD 20) 50)
    (req.includeTypes.getD false) (req.includeAddresses.getD true),some 120)

def dylibScript (req : DscAddDylibRequest) : Result (String × Option UInt64) := do
  let module ← dylibModule req
  return (site.dscAddDylibScript module,some (min (req.timeoutSecs.getD 300) 600))

def regionScript (req : DscAddRegionRequest) : Result (String × Option UInt64) := do
  let ea ← site.regionAddress req
  return (site.dscAddRegionScript ea,some (min (req.timeoutSecs.getD 300) 600))

def ownScript (req : RunScriptRequest) : Result (String × Option UInt64) := do
  let code ← site.scriptCode req
  return (code,req.timeoutSecs.map (min · 600))

/-- Lines 1651-1657. -/
def batchAddrs (req : BatchDecompileRequest) : List Json :=
  match req.addresses with
  | .arr vs => vs
  | .str s => match site.fromStr s with
    | some (.arr vs) => vs
    | _ => [.str s]
  | v => [v]

def searchKind (req : SearchRequest) : String := site.toLowercase (req.kind.getD "auto")

end Site

/-- A method with its parameters. -/
abbrev Message := String × Json

def sent (method : String) (p : Json) : Result (List Message) := .ok [(method,p)]

def sentScript (r : Result (String × Option UInt64)) : Result (List Message) := do
  let script ← r
  return [("run_script",.ofFields [("code",.str script.1),("timeout_secs",u64.put script.2)])]

def addressParams (req : AddressRequest) : Json := .ofFields [("address",req.address)]

def targetParams (req : AddrInfoRequest) : Json :=
  .ofFields [("addr",Json.put req.address),("name",string.put req.targetName),
    ("offset",u64.put req.offset)]

def pageParams (req : PaginatedRequest) : Json :=
  .ofFields [("offset",u64.put req.offset),("limit",u64.put req.limit)]

def stringsParams (req : ListStringsRequest) : Json :=
  .ofFields [("query",string.put (req.query.or req.filter)),("exact",bool.put req.exact),
    ("case_insensitive",bool.put req.caseInsensitive),("offset",u64.put req.offset),
    ("limit",u64.put req.limit),("timeout_secs",u64.put req.timeoutSecs)]

def intParams (req : AddressRequest) (size : UInt64) : Json :=
  .ofFields [("address",req.address),("size",u64.enc size)]

/-- Lines 2578-2600. -/
def searchMessage (site : Site) (req : SearchRequest) (target : String) : Message :=
  let kind:=site.searchKind req
  let immParams (imm : UInt64) : Json := .ofFields [("imm",u64.enc imm),
    ("max_results",u64.put req.limit),("timeout_secs",u64.put req.timeoutSecs)]
  let textParams : Json := .ofFields [("text",.str target),
    ("max_results",u64.put req.limit),("timeout_secs",u64.put req.timeoutSecs)]
  if kind="imm" ∨ kind="immediate" then
    ("search_imm",immParams ((fromStrRadix 10 target.toList).getD 0))
  else if kind="text" ∨ kind="string" then ("search_text",textParams)
  else match parseAddress target with
    | .ok imm => ("search_imm",immParams imm)
    | .error _ => ("search_text",textParams)

def closing : List Message := [("close",.ofFields []),("shutdown",.ofFields [])]

/-- Lines 762-812. -/
def Site.closeIdbRouted (site : Site) (req : CloseIdbRequest) : Result (List Message) :=
  match req.token with
  | none => if site.hasActiveHandle then .ok closing else .error .noDatabaseOpen
  | some token => if site.releaseRefToken token=some 0 then .ok closing else .ok []

def Call.routed (site : Site) : Call → Result (List Message)
  | .openIdb req =>
    if site.validatePath req.path then
      sent "open" (.ofFields [("path",.str req.path),("auto_analyse",.bool true),
        ("load_debug_info",.bool (req.loadDebugInfo.getD false)),
        ("debug_info_path",string.put req.debugInfoPath),
        ("debug_info_verbose",.bool (req.debugInfoVerbose.getD false)),
        ("force",.bool (req.force.getD false)),("file_type",string.put req.fileType)])
    else .error (.invalidPath req.path)
  | .loadDebugInfo req => sent "load_debug_info"
      (.ofFields [("path",string.put req.path),("verbose",.bool (req.verbose.getD false))])
  | .getAnalysisStatus => sent "get_analysis_status" (.ofFields [])
  | .closeIdb req => site.closeIdbRouted req
  | .listFunctions req => sent "list_functions" (ListFunctionsRequest.schema.encode req)
  | .listFuncs req => sent "list_functions" (ListFunctionsRequest.schema.encode req)
  | .getFunctionByName req => sent "get_function_by_name" (.ofFields [("name",.str req.name)])
  | .getFunctionPrototype req => sent "get_function_prototype"
      (.ofFields [("address",Json.put req.address),("name",string.put req.name)])
  | .getAddressInfo req => sent "get_address_info" (targetParams req)
  | .getFunctionAtAddress req => sent "get_function_at_address" (targetParams req)
  | .disassemble req => sent "disassemble"
      (.ofFields [("address",req.address),("count",u64.put req.count)])
  | .disassembleFunction req => sent "disassemble_function"
      (.ofFields [("name",.str req.name),("count",u64.put req.count)])
  | .disassembleFunctionAt req => sent "disassemble_function_at"
      (DisasmFunctionAtRequest.schema.encode req)
  | .decompileFunction req => sent "decompile_function" (.ofFields [("address",req.address)])
  | .getPseudocodeAt req => sent "get_pseudocode_at"
      (.ofFields [("address",req.address),("end_addr",string.put req.endAddress)])
  | .decompileStructured req => sentScript (site.structuredScript req)
  | .batchDecompile req => sent "batch_decompile"
      (.ofFields [("addresses",.arr (site.batchAddrs req))])
  | .searchPseudocode req => sent "search_pseudocode"
      (.ofFields [("pattern",.str req.pattern),("limit",u64.enc (min (req.limit.getD 20) 100)),
        ("timeout_secs",u64.put req.timeoutSecs)])
  | .scanMemoryTable req => sent "scan_memory_table"
      (.ofFields [("base_address",req.baseAddress),("stride",u64.enc (max (req.stride.getD 8) 1)),
        ("count",u64.enc (min (req.count.getD 16) 256))])
  | .diffPseudocode req => sent "diff_pseudocode"
      (.ofFields [("addr1",req.addr1),("addr2",req.addr2)])
  | .listSegments => sent "list_segments" (.ofFields [])
  | .listStrings req => sent "list_strings" (stringsParams req)
  | .getXrefsToString req => sent "get_xrefs_to_string" (XrefsToStringRequest.schema.encode req)
  | .getXrefsTo req => sent "get_xrefs_to" (addressParams req)
  | .getXrefsFrom req => sent "get_xrefs_from" (addressParams req)
  | .listImports req => sent "list_imports" (pageParams req)
  | .listExports req => sent "list_exports" (pageParams req)
  | .listEntryPoints => sent "list_entry_points" (.ofFields [])
  | .readBytes req => sent "read_bytes" (GetBytesRequest.schema.encode req)
  | .getBasicBlocks req => sent "get_basic_blocks" (addressParams req)
  | .getCallees req => sent "get_callees" (addressParams req)
  | .getCallers req => sent "get_callers" (addressParams req)
  | .getDatabaseInfo => sent "get_database_info" (.ofFields [])
  | .batchLookupFunctions req => sent "batch_lookup_functions" (.ofFields [("queries",req.queries)])
  | .listGlobals req => sent "list_globals" (ListGlobalsRequest.schema.encode req)
  | .searchBytes req => sent "search_bytes" (FindBytesRequest.schema.encode req)
  | .searchText req => do
    let targets ← valueToStrings site.fromStr req.targets
    return targets.map (searchMessage site req)
  | .readByte req => sent "read_int" (intParams req 1)
  | .readWord req => sent "read_int" (intParams req 2)
  | .readDword req => sent "read_int" (intParams req 4)
  | .readQword req => sent "read_int" (intParams req 8)
  | .readString req => sent "read_string"
      (.ofFields [("address",req.address),("max_len",u64.put req.maxLen)])
  | .readGlobalVariable req => sent "read_global_variable" (.ofFields [("query",req.query)])
  | .findControlFlowPaths req => sent "find_control_flow_paths" (FindPathsRequest.schema.encode req)
  | .buildCallgraph req => sent "build_callgraph" (CallGraphRequest.schema.encode req)
  | .buildXrefMatrix req => sent "build_xref_matrix" (.ofFields [("addrs",req.addrs)])
  | .exportFunctions req => sent "export_functions"
      (.ofFields [("offset",u64.put req.offset),("limit",u64.put req.limit)])
  | .listLocalTypes req => sent "list_local_types" (LocalTypesRequest.schema.encode req)
  | .getXrefsToStructField req => sent "get_xrefs_to_struct_field"
      (XrefsToFieldRequest.schema.encode req)
  | .setComment req => sent "set_comment" (SetCommentsRequest.schema.encode req)
  | .setFunctionComment req => sent "set_function_comment"
      (SetFunctionCommentRequest.schema.encode req)
  | .patchAssembly req => sent "patch_assembly" (PatchAsmRequest.schema.encode req)
  | .declareCType req => sent "declare_c_type" (DeclareTypeRequest.schema.encode req)
  | .getStackFrame req => sent "get_stack_frame" (addressParams req)
  | .createStackVariable req => sent "create_stack_variable" (DeclareStackRequest.schema.encode req)
  | .deleteStackVariable req => sent "delete_stack_variable" (DeleteStackRequest.schema.encode req)
  | .renameStackVariable req => sent "rename_stack_variable"
      (RenameStackVariableRequest.schema.encode req)
  | .setStackVariableType req => sent "set_stack_variable_type"
      (SetStackVariableTypeRequest.schema.encode req)
  | .listEnums req => sent "list_enums" (ListEnumsRequest.schema.encode req)
  | .createEnum req => sent "create_enum" (CreateEnumRequest.schema.encode req)
  | .listStructs req => sent "list_structs" (LocalTypesRequest.schema.encode req)
  | .getStructInfo req => sent "get_struct_info"
      (.ofFields [("ordinal",u32.put req.ordinal),("name",string.put req.name)])
  | .readStructAtAddress req => sent "read_struct_at_address"
      (.ofFields [("address",req.address),("ordinal",u32.put req.ordinal),
        ("name",string.put req.name)])
  | .searchStructs req => sent "list_structs" (LocalTypesRequest.schema.encode req)
  | .searchInstructions req => sent "search_instructions" (FindInsnsRequest.schema.encode req)
  | .searchInstructionOperands req => sent "search_instruction_operands"
      (FindInsnOperandsRequest.schema.encode req)
  | .applyType req => sent "apply_type" (ApplyTypesRequest.schema.encode req)
  | .setFunctionPrototype req => sent "set_function_prototype"
      (SetFunctionPrototypeRequest.schema.encode req)
  | .inferType req => sent "infer_type" (targetParams req)
  | .runAutoAnalysis req => sent "run_auto_analysis"
      (.ofFields [("timeout_secs",u64.put req.timeoutSecs)])
  | .renameSymbol req => sent "rename_symbol" (RenameRequest.schema.encode req)
  | .batchRename req => sent "batch_rename" (BatchRenameRequest.schema.encode req)
  | .renameLocalVariable req => sent "rename_local_variable" (RenameLvarRequest.schema.encode req)
  | .setLocalVariableType req => sent "set_local_variable_type"
      (SetLvarTypeRequest.schema.encode req)
  | .setDecompilerComment req => sent "set_decompiler_comment"
      (SetDecompilerCommentRequest.schema.encode req)
  | .patchBytes req => sent "patch_bytes" (PatchRequest.schema.encode req)
  | .dscAddDylib req => sentScript (site.dylibScript req)
  | .dscAddRegion req => sentScript (site.regionScript req)
  | .runScript req => sentScript (site.ownScript req)
  | .runDebugScript script timeoutSecs => sentScript (.ok (script,some (timeoutSecs+5)))

namespace Site
variable (site : Site)

/-- An optional address, as in lines 1272-1278. -/
def givenAddress : Option Json → Result (Option UInt64)
  | some v => (valueToSingleAddress site.fromStr v).map some
  | none => .ok none

/-- Lines 1536-1544. -/
def endAddress : Option String → Result (Option UInt64)
  | some s => (parseAddress s).map some
  | none => .ok none

/-- One operation for each address, as in lines 2029-2059. -/
def each (v : Json) (op : UInt64 → Op) : Result (List Op) := do
  let addrs ← valueToAddresses site.fromStr v
  return addrs.map op

def single (v : Json) (op : UInt64 → Op) : Result (List Op) := do
  let addr ← valueToSingleAddress site.fromStr v
  return [op addr]

def given (v : Option Json) (op : Option UInt64 → Op) : Result (List Op) := do
  let addr ← site.givenAddress v
  return [op addr]

def script (r : Result (String × Option UInt64)) : Result (List Op) := do
  let script ← r
  return [.runScript script.1 script.2]

/-- The analysis status is asked for once the script has succeeded. -/
def scriptThenStatus (r : Result (String × Option UInt64)) : Result (List Op) := do
  let script ← r
  return [.runScript script.1 script.2,.analysisStatus]

/-- The sum of two `usize` values. -/
def pageEnd (offset limit : Option UInt64) : UInt64 :=
  min (offset.getD 0+min (limit.getD 100) 10000) 20000

/-- Lines 2621-2647. A target that is no number is reported and skipped. -/
def searchOps (req : SearchRequest) (target : String) : List Op :=
  let kind:=site.searchKind req
  let maxResults:=pageEnd req.offset req.limit
  if kind="imm" ∨ kind="immediate" then
    match parseAddress target with
    | .ok imm => [.searchImm imm maxResults req.timeoutSecs]
    | .error _ => []
  else if kind="text" ∨ kind="string" then [.searchText target maxResults req.timeoutSecs]
  else match parseAddress target with
    | .ok imm => [.searchImm imm maxResults req.timeoutSecs]
    | .error _ => [.searchText target maxResults req.timeoutSecs]

/-- Lines 958-1011. -/
def closeIdb (req : CloseIdbRequest) : List Op :=
  if site.http=true ∧ req.token.bind site.releaseDbRef≠some 0 then [] else [.close]

/-- Lines 2200-2251. -/
def readBytes (req : GetBytesRequest) : Result (List Op) :=
  let size:=min (req.size.getD 256) 0x10000
  match req.address,req.targetName with
  | some v,_ => site.each v fun addr => .getBytes (some addr) none 0 size
  | none,some name => .ok [.getBytes none (some name) (req.offset.getD 0) size]
  | none,none => .error (.invalidParams "address or name required")

/-- Lines 2998-3006. -/
def checkFormat : Option String → Result Unit
  | some fmt =>
    if site.toLowercase fmt≠"json" then
      .error (.notSupported s!"format {fmt} not supported (only json)")
    else .ok ()
  | none => .ok ()

/-- Lines 3007-3029. -/
def exportFunctions (req : ExportFuncsRequest) : Result (List Op) := do
  site.checkFormat req.format
  match req.addrs with
  | some addrs => do
    let queries ← valueToStrings site.fromStr addrs
    return [.lookupFuncs queries]
  | none => .ok [.exportFuncs (req.offset.getD 0) (min (req.limit.getD 100) 10000)]

/-- Patterns for a search of instructions, lines 3664-3670 and 3700-3706. -/
def insnPatterns (v : Json) : Result (List String) := do
  let patterns ← valueToStrings site.fromStr v
  if patterns.isEmpty then .error (.invalidParams "empty patterns") else .ok patterns

end Site

def Call.direct (site : Site) : Call → Result (List Op)
  | .openIdb req =>
    if site.validatePath req.path then
      .ok [.openDatabase req.path (req.loadDebugInfo.getD false) req.debugInfoPath
        (req.debugInfoVerbose.getD false) (req.force.getD false) req.fileType true []]
    else .error (.invalidPath req.path)
  | .loadDebugInfo req => .ok [.loadDebugInfo req.path (req.verbose.getD false)]
  | .getAnalysisStatus => .ok [.analysisStatus]
  | .closeIdb req => .ok (site.closeIdb req)
  | .listFunctions req => .ok [.listFunctions (req.offset.getD 0) (min (req.limit.getD 100) 10000)
      req.filter req.timeoutSecs]
  | .listFuncs req => .ok [.listFunctions (req.offset.getD 0) (min (req.limit.getD 100) 10000)
      req.filter req.timeoutSecs]
  | .getFunctionByName req => .ok [.resolveFunction req.name]
  | .getFunctionPrototype req =>
    .ok [.getFunctionPrototype (optionalAddress req.address) req.name]
  | .getAddressInfo req => site.given req.address (.addrInfo · req.targetName (req.offset.getD 0))
  | .getFunctionAtAddress req =>
    site.given req.address (.functionAt · req.targetName (req.offset.getD 0))
  | .disassemble req => site.each req.address (.disasm · (min (req.count.getD 10) 1000))
  | .disassembleFunction req => .ok [.disasmByName req.name (min (req.count.getD 10) 1000)]
  | .disassembleFunctionAt req => site.given req.address
      (.disasmFunctionAt · req.targetName (req.offset.getD 0) (min (req.count.getD 200) 5000))
  | .decompileFunction req => site.each req.address .decompile
  | .getPseudocodeAt req => do
    let addrs ← valueToAddresses site.fromStr req.address
    let endAddr ← Site.endAddress req.endAddress
    return addrs.map (.pseudocodeAt · endAddr)
  | .decompileStructured req => Site.script (site.structuredScript req)
  | .batchDecompile req => .ok (((site.batchAddrs req).filterMap fun v =>
    (valueToSingleAddress site.fromStr v).toOption).map .decompile)
  | .searchPseudocode req =>
    .ok [.searchPseudocode req.pattern (min (req.limit.getD 20) 100) req.timeoutSecs]
  | .scanMemoryTable req => (Server.scanMemoryTable site.fromStr req).map fun job => job.ops
  | .diffPseudocode req => do
    let addr1 ← valueToSingleAddress site.fromStr req.addr1
    let addr2 ← valueToSingleAddress site.fromStr req.addr2
    return [.decompile addr1,.decompile addr2]
  | .listSegments => .ok [.segments]
  | .listStrings req =>
    let limit:=min (req.limit.getD 100) 10000
    match req.query.or req.filter with
    | some q => .ok [.findString q (req.exact.getD false) (req.caseInsensitive.getD true)
        (req.offset.getD 0) limit req.timeoutSecs]
    | none => .ok [.strings (req.offset.getD 0) limit none req.timeoutSecs]
  | .getXrefsToString req => .ok [.xrefsToString req.query (req.exact.getD false)
      (req.caseInsensitive.getD true) (req.offset.getD 0) (min (req.limit.getD 100) 10000)
      (req.maxXrefs.getD 64) req.timeoutSecs]
  | .getXrefsTo req => site.each req.address .xrefsTo
  | .getXrefsFrom req => site.each req.address .xrefsFrom
  | .listImports req => .ok [.imports (req.offset.getD 0) (min (req.limit.getD 100) 10000)]
  | .listExports req => .ok [.exports (req.offset.getD 0) (min (req.limit.getD 100) 10000)]
  | .listEntryPoints => .ok [.entrypoints]
  | .readBytes req => site.readBytes req
  | .getBasicBlocks req => site.each req.address .basicBlocks
  | .getCallees req => site.each req.address .callees
  | .getCallers req => site.each req.address .callers
  | .getDatabaseInfo => .ok [.idbMeta]
  | .batchLookupFunctions req => do
    let queries ← valueToStrings site.fromStr req.queries
    return [.lookupFuncs queries]
  | .listGlobals req => .ok [.listGlobals req.query (req.offset.getD 0)
      (min (req.limit.getD 100) 10000) req.timeoutSecs]
  | .searchBytes req => do
    let patterns ← valueToStrings site.fromStr req.patterns
    return patterns.map (.findBytes · (Site.pageEnd req.offset req.limit) req.timeoutSecs)
  | .searchText req => do
    let targets ← valueToStrings site.fromStr req.targets
    return targets.flatMap (site.searchOps req)
  | .readByte req => site.each req.address (.readInt · 1)
  | .readWord req => site.each req.address (.readInt · 2)
  | .readDword req => site.each req.address (.readInt · 4)
  | .readQword req => site.each req.address (.readInt · 8)
  | .readString req => site.each req.address (.getString · (min (req.maxLen.getD 256) 0x10000))
  | .readGlobalVariable req => do
    let queries ← valueToStrings site.fromStr req.query
    return queries.map .getGlobalValue
  | .findControlFlowPaths req => do
    let start ← valueToSingleAddress site.fromStr req.start
    let finish ← valueToSingleAddress site.fromStr req.finish
    return [.findPaths start finish (min (req.maxPaths.getD 8) 128)
      (min (req.maxDepth.getD 64) 2048)]
  | .buildCallgraph req => site.each req.roots
      (.callgraph · (min (req.maxDepth.getD 2) 16) (min (req.maxNodes.getD 256) 10000))
  | .buildXrefMatrix req => do
    let addrs ← valueToAddresses site.fromStr req.addrs
    return [.xrefMatrix addrs]
  | .exportFunctions req => site.exportFunctions req
  | .listLocalTypes req => .ok [.localTypes (req.offset.getD 0) (req.limit.getD 100) req.filter
      req.timeoutSecs]
  | .getXrefsToStructField req => .ok [.xrefsToField req.ordinal req.name req.memberIndex
      req.memberName (min (req.limit.getD 1000) 10000)]
  | .setComment req => site.given req.address
      (.setComments · req.targetName (req.offset.getD 0) req.comment (req.repeatable.getD false))
  | .setFunctionComment req => .ok [.setFunctionComment (optionalAddress req.address) req.name
      req.comment (req.repeatable.getD false)]
  | .patchAssembly req => site.given req.address
      (.patchAsm · req.targetName (req.offset.getD 0) req.line)
  | .declareCType req => .ok [.declareType req.decl (req.relaxed.getD false)
      (req.replace.getD false) (req.multi.getD false)]
  | .getStackFrame req => site.single req.address .stackFrame
  | .createStackVariable req => site.given req.address
      (.declareStack · req.targetName req.offset req.varName req.decl (req.relaxed.getD false))
  | .deleteStackVariable req => site.given req.address
      (.deleteStack · req.targetName req.offset req.varName)
  | .renameStackVariable req => .ok [.renameStackVariable (optionalAddress req.funcAddress)
      req.funcName req.name req.newName]
  | .setStackVariableType req => .ok [.setStackVariableType (optionalAddress req.funcAddress)
      req.funcName req.name req.typeDecl]
  | .listEnums req => .ok [.listEnums req.filter (req.offset.getD 0) (req.limit.getD 100)]
  | .createEnum req => .ok [.createEnum req.decl (req.replace.getD false)]
  | .listStructs req => .ok [.structs (req.offset.getD 0) (min (req.limit.getD 100) 10000)
      req.filter req.timeoutSecs]
  | .getStructInfo req => .ok [.structInfo req.ordinal req.name]
  | .readStructAtAddress req => site.each req.address (.readStruct · req.ordinal req.name)
  | .searchStructs req => .ok [.structs (req.offset.getD 0) (req.limit.getD 100) req.filter
      req.timeoutSecs]
  | .searchInstructions req => do
    let patterns ← site.insnPatterns req.patterns
    return [.findInsns patterns (req.limit.getD 100) (req.caseInsensitive.getD false)
      req.timeoutSecs]
  | .searchInstructionOperands req => do
    let patterns ← site.insnPatterns req.patterns
    return [.findInsnOperands patterns (req.limit.getD 100) (req.caseInsensitive.getD false)
      req.timeoutSecs]
  | .applyType req => site.given req.address
      (.applyTypes · req.targetName (req.offset.getD 0) req.stackOffset req.stackName req.decl
        req.typeName (req.relaxed.getD false) (req.delay.getD false) (req.strict.getD false))
  | .setFunctionPrototype req => .ok [.setFunctionPrototype (optionalAddress req.address) req.name
      req.prototype]
  | .inferType req => site.given req.address (.inferTypes · req.targetName (req.offset.getD 0))
  | .runAutoAnalysis req => .ok [.analyzeFuncs req.timeoutSecs]
  | .renameSymbol req => site.given req.address
      (.rename · req.currentName req.name (req.flags.getD 0))
  | .batchRename req => .ok [.batchRename (req.renames.map fun e =>
    (optionalAddress e.address,e.currentName,e.newName))]
  | .renameLocalVariable req => site.single req.funcAddress (.renameLvar · req.lvarName req.newName)
  | .setLocalVariableType req => site.single req.funcAddress
      (.setLvarType · req.lvarName req.typeStr)
  | .setDecompilerComment req => do
    let funcAddr ← valueToSingleAddress site.fromStr req.funcAddress
    let addr ← valueToSingleAddress site.fromStr req.address
    return [.setDecompilerComment funcAddr addr (req.itp.getD 69) req.comment]
  | .patchBytes req => do
    let addr ← site.givenAddress req.address
    let bytes ← valueToBytes req.bytes
    return [.patchBytes addr req.targetName (req.offset.getD 0) bytes]
  | .dscAddDylib req => Site.scriptThenStatus (site.dylibScript req)
  | .dscAddRegion req => Site.scriptThenStatus (site.regionScript req)
  | .runScript req => Site.script (site.ownScript req)
  | .runDebugScript script timeoutSecs => Site.script (.ok (script,some (timeoutSecs+5)))

end Rpc
