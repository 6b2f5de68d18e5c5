import IdaMcp.Rpc.Worker
import IdaMcp.Rpc.Requests
import IdaMcp.Tools.Registry

/-!
# What a worker makes of a request (`dispatch_rpc` of `src/rpc_dispatch.rs`)

Every arm of `dispatch_rpc` first reads the parameters and then performs
operations that are settled by them, so an arm is a function from the
parameters to a job or an error. Integer arithmetic wraps, as in a release build.
-/

namespace Rpc
open Lib

inductive Method
  | openDatabase | close | shutdown | loadDebugInfo | getAnalysisStatus | listFunctions
  | getFunctionByName | getFunctionPrototype | getFunctionAtAddress | batchLookupFunctions
  | exportFunctions | disassemble | disassembleFunction | disassembleFunctionAt
  | decompileFunction | getPseudocodeAt | listSegments | listStrings | getXrefsToString
  | listLocalTypes | declareCType | applyType | inferType | setFunctionPrototype
  | renameStackVariable | setStackVariableType | listEnums | createEnum | getAddressInfo
  | createStackVariable | deleteStackVariable | getStackFrame | listStructs | getStructInfo
  | readStructAtAddress | getXrefsTo | getXrefsFrom | getXrefsToStructField | listImports
  | listExports | listEntryPoints | readBytes | readInt | readString | readGlobalVariable
  | setComment | setFunctionComment | renameSymbol | batchRename | renameLocalVariable
  | setLocalVariableType | setDecompilerComment | patchBytes | patchAssembly | getBasicBlocks
  | getCallees | getCallers | buildCallgraph | findControlFlowPaths | buildXrefMatrix
  | getDatabaseInfo | listGlobals | runAutoAnalysis | searchBytes | searchText | searchImm
  | searchInstructions | searchInstructionOperands | runScript | batchDecompile
  | searchPseudocode | scanMemoryTable | diffPseudocode
  deriving DecidableEq

namespace Method

def name : Method → String
  | .openDatabase => "open"
  | .close => "close"
  | .shutdown => "shutdown"
  | .loadDebugInfo => "load_debug_info"
  | .getAnalysisStatus => "get_analysis_status"
  | .listFunctions => "list_functions"
  | .getFunctionByName => "get_function_by_name"
  | .getFunctionPrototype => "get_function_prototype"
  | .getFunctionAtAddress => "get_function_at_address"
  | .batchLookupFunctions => "batch_lookup_functions"
  | .exportFunctions => "export_functions"
  | .disassemble => "disassemble"
  | .disassembleFunction => "disassemble_function"
  | .disassembleFunctionAt => "disassemble_function_at"
  | .decompileFunction => "decompile_function"
  | .getPseudocodeAt => "get_pseudocode_at"
  | .listSegments => "list_segments"
  | .listStrings => "list_strings"
  | .getXrefsToString => "get_xrefs_to_string"
  | .listLocalTypes => "list_local_types"
  | .declareCType => "declare_c_type"
  | .applyType => "apply_type"
  | .inferType => "infer_type"
  | .setFunctionPrototype => "set_function_prototype"
  | .renameStackVariable => "rename_stack_variable"
  | .setStackVariableType => "set_stack_variable_type"
  | .listEnums => "list_enums"
  | .createEnum => "create_enum"
  | .getAddressInfo => "get_address_info"
  | .createStackVariable => "create_stack_variable"
  | .deleteStackVariable => "delete_stack_variable"
  | .getStackFrame => "get_stack_frame"
  | .listStructs => "list_structs"
  | .getStructInfo => "get_struct_info"
  | .readStructAtAddress => "read_struct_at_address"
  | .getXrefsTo => "get_xrefs_to"
  | .getXrefsFrom => "get_xrefs_from"
  | .getXrefsToStructField => "get_xrefs_to_struct_field"
  | .listImports => "list_imports"
  | .listExports => "list_exports"
  | .listEntryPoints => "list_entry_points"
  | .readBytes => "read_bytes"
  | .readInt => "read_int"
  | .readString => "read_string"
  | .readGlobalVariable => "read_global_variable"
  | .setComment => "set_comment"
  | .setFunctionComment => "set_function_comment"
  | .renameSymbol => "rename_symbol"
  | .batchRename => "batch_rename"
  | .renameLocalVariable => "rename_local_variable"
  | .setLocalVariableType => "set_local_variable_type"
  | .setDecompilerComment => "set_decompiler_comment"
  | .patchBytes => "patch_bytes"
  | .patchAssembly => "patch_assembly"
  | .getBasicBlocks => "get_basic_blocks"
  | .getCallees => "get_callees"
  | .getCallers => "get_callers"
  | .buildCallgraph => "build_callgraph"
  | .findControlFlowPaths => "find_control_flow_paths"
  | .buildXrefMatrix => "build_xref_matrix"
  | .getDatabaseInfo => "get_database_info"
  | .listGlobals => "list_globals"
  | .runAutoAnalysis => "run_auto_analysis"
  | .searchBytes => "search_bytes"
  | .searchText => "search_text"
  | .searchImm => "search_imm"
  | .searchInstructions => "search_instructions"
  | .searchInstructionOperands => "search_instruction_operands"
  | .runScript => "run_script"
  | .batchDecompile => "batch_decompile"
  | .searchPseudocode => "search_pseudocode"
  | .scanMemoryTable => "scan_memory_table"
  | .diffPseudocode => "diff_pseudocode"

/-- In the order of the arms. -/
def all : List Method :=
  [.openDatabase,.close,.shutdown,.loadDebugInfo,.getAnalysisStatus,.listFunctions,
   .getFunctionByName,.getFunctionPrototype,.getFunctionAtAddress,.batchLookupFunctions,
   .exportFunctions,.disassemble,.disassembleFunction,.disassembleFunctionAt,.decompileFunction,
   .getPseudocodeAt,.listSegments,.listStrings,.getXrefsToString,.listLocalTypes,.declareCType,
   .applyType,.inferType,.setFunctionPrototype,.renameStackVariable,.setStackVariableType,
   .listEnums,.createEnum,.getAddressInfo,.createStackVariable,.deleteStackVariable,
   .getStackFrame,.listStructs,.getStructInfo,.readStructAtAddress,.getXrefsTo,.getXrefsFrom,
   .getXrefsToStructField,.listImports,.listExports,.listEntryPoints,.readBytes,.readInt,
   .readString,.readGlobalVariable,.setComment,.setFunctionComment,.renameSymbol,.batchRename,
   .renameLocalVariable,.setLocalVariableType,.setDecompilerComment,.patchBytes,.patchAssembly,
   .getBasicBlocks,.getCallees,.getCallers,.buildCallgraph,.findControlFlowPaths,.buildXrefMatrix,
   .getDatabaseInfo,.listGlobals,.runAutoAnalysis,.searchBytes,.searchText,.searchImm,
   .searchInstructions,.searchInstructionOperands,.runScript,.batchDecompile,.searchPseudocode,
   .scanMemoryTable,.diffPseudocode]

def ofName (s : String) : Option Method := all.find? fun m => m.name==s

end Method

/-- Models `p[key].as_str()` and so on: a missing key reads as `null`. -/
def rawStr (p : Json) (key : String) : Option String := (p.get? key).bind Json.asStr
def rawBool (p : Json) (key : String) : Option Bool := (p.get? key).bind Json.asBool
def rawU64 (p : Json) (key : String) : Option UInt64 :=
  ((p.get? key).bind Json.asU64).map UInt64.ofNat
def rawArray (p : Json) (key : String) : Option (List Json) := (p.get? key).bind Json.asArray
def rawAddress (p : Json) (key : String) : Option UInt64 := (p.get? key).bind parseAddressValue

def parseParams {α : Type} (S : Schema α) (p : Json) : Result α :=
  match S.decode p with
  | some req => .ok req
  | none => .error .undecoded

/-- What dispatch leaves to `serde_json` and to floating point numbers: reading a JSON
text, and the share of equal lines, rounded to two digits. -/
structure Host where
  fromStr : String → Option Json
  similarity : (same different : Nat) → Json
  toLowercase : String → String

/-- A host that parses nothing. -/
def Host.bare : Host := ⟨fun _ => none,fun _ _ => .null,id⟩

def textOf (v : Json) : List Char := (v.asStr.getD "").toList

/-- Models `str::lines`. -/
def textLines (cs : List Char) : List (List Char) :=
  let parts:=splitOn '\n' cs
  let closed:=if parts.getLast?=some [] then parts.dropLast else parts
  closed.map fun l => if l.getLast?=some '\r' then l.dropLast else l

/-- Lines 271-283. -/
def hasUnknownName (code : List Char) : Bool :=
  let signature:=(textLines code).find? fun line =>
    let t:=trim line
    !t.isEmpty && !(List.isPrefixOf ['/','/'] t) && !(List.isPrefixOf ['/','*'] t) && t.contains '('
  match signature with
  | some sig => textContains "sub_".toList sig || textContains "nullsub_".toList sig ||
      textContains "j_sub_".toList sig
  | none => false

def renameHint : String :=
  "💡 If you understand this function's purpose, immediately call rename_symbol to rename it "++
  "before proceeding.\n\n"

/-- Lines 270-294. -/
def hinted (v : Json) : Json :=
  if hasUnknownName (textOf v) then .str (renameHint++String.ofList (textOf v)) else v

/-- Lines 246-257 and 297-308: an error is reported with its address. -/
def addressed (key : String) (addr : UInt64) : Answer → Json
  | .ok v => .ofFields [("address",.str (hexText addr)),(key,v)]
  | .error e => .ofFields [("address",.str (hexText addr)),("error",.str e.text)]

/-- One address is answered for itself and in a form of its own, several one by one. -/
def perAddress (key : String) (form : Json → Json) (op : UInt64 → Op) : List UInt64 → Job
  | [addr] => .one (op addr) fun v => .ofFields [(key,form v)]
  | addrs =>
    { ops := addrs.map op
      stops := false
      reply := fun answers => .ok (.ofFields
        [("results",.arr ((addrs.zip answers).map fun x => addressed key x.1 x.2))]) }

/-- Lines 799-810. -/
def mergeMatches (answers : List Answer) : Json :=
  let matches_:=answers.flatMap fun answer => match answer with
    | .ok v => ((v.get? "matches").bind Json.asArray).getD []
    | .error _ => []
  .ofFields [("matches",.arr matches_),("count",.ofNat matches_.length)]

/-- Lines 787-811. -/
def findEach (maxResults : UInt64) (timeout : Option UInt64) : List String → Job
  | [pattern] => .plain (.findBytes pattern maxResults timeout)
  | patterns =>
    { ops := patterns.map fun pattern => .findBytes pattern maxResults timeout
      stops := false
      reply := fun answers => .ok (mergeMatches answers) }

/-- Lines 905-911. -/
def batchItems (host : Host) (addresses : Json) : List Json :=
  match addresses with
  | .arr vs => vs
  | .str s => match host.fromStr s with
    | some (.arr vs) => vs
    | _ => [addresses]
  | _ => [addresses]

/-- Lines 913-942. What does not read as an address is reported and passed over. -/
def batchEntries : List Json → List Answer → List Json
  | [],_ => []
  | v::vs,answers => match parseAddressValue v with
    | none => .ofFields [("address",v),("error",.str "invalid address"),("success",.bool false)]::
        batchEntries vs answers
    | some _ => match answers with
      | .ok code::rest =>
        .ofFields [("address",v),("pseudocode",code),("success",.bool true)]::batchEntries vs rest
      | .error e::rest =>
        .ofFields [("address",v),("error",.str e.text),("success",.bool false)]::
          batchEntries vs rest
      | [] => batchEntries vs []

def decompileEach (items : List Json) : Job where
  ops := (items.filterMap parseAddressValue).map .decompile
  stops := false
  reply answers := .ok (.arr (batchEntries items answers))

/-- The address of an entry of a table, lines 962-963. -/
def entryAddress (base stride : UInt64) (i : Nat) : UInt64 := base+UInt64.ofNat i*stride

def scanEntry (base stride : UInt64) (i : Nat) : Answer → Json
  | .ok v => .ofFields [("index",.ofNat i),("address",.str (hexText (entryAddress base stride i))),
      ("bytes",(v.get? "bytes").getD .null)]
  | .error e => .ofFields [("index",.ofNat i),
      ("address",.str (hexText (entryAddress base stride i))),("error",.str e.text)]

/-- Lines 959-988: the first entry that cannot be read is the last. -/
def scanTable (base stride : UInt64) (count : Nat) : Job where
  ops := (List.range count).map fun i => .getBytes (some (entryAddress base stride i)) none 0 stride
  stops := true
  reply answers :=
    let entries:=answers.zipIdx.map fun x => scanEntry base stride x.2 x.1
    .ok (.ofFields [("base_address",.str (hexText base)),("stride",.ofNat stride.toNat),
      ("count",.ofNat entries.length),("entries",.arr entries)])

structure Diff where
  lines : List String := []
  same : Nat := 0
  different : Nat := 0

/-- Lines 1006-1031. -/
def diffLines : List (List Char) → List (List Char) → Diff
  | l::ls,r::rs =>
    let rest:=diffLines ls rs
    if l=r then {rest with
      lines := String.ofList (' ':: ' '::l)::rest.lines
      same := rest.same+1}
    else {rest with
      lines := String.ofList ('-':: ' '::l)::String.ofList ('+':: ' '::r)::rest.lines
      different := rest.different+1}
  | l::ls,[] =>
    let rest:=diffLines ls []
    {rest with
      lines := String.ofList ('-':: ' '::l)::rest.lines
      different := rest.different+1}
  | [],rs => {lines := rs.map fun r => String.ofList ('+':: ' '::r),different := rs.length}

/-- Lines 998-1045. -/
def diffJob (host : Host) (addr1 addr2 : UInt64) : Job where
  ops := [.decompile addr1,.decompile addr2]
  stops := true
  reply
    | [.ok v1,.ok v2] =>
      let diff:=diffLines (textLines (textOf v1)) (textLines (textOf v2))
      .ok (.ofFields [("function1",v1),("function2",v2),
        ("similarity_ratio",host.similarity diff.same diff.different),
        ("diff_lines",.arr (diff.lines.map .str))])
    | answers => match answers.getLast? with
      | some (.error e) => .error e
      | _ => .ok .null

def optionalAddress (v : Option Json) : Option UInt64 := v.bind parseAddressValue

/-- Where a value is no address, operations go to address 0. -/
def addressOrZero (v : Json) : UInt64 := (parseAddressValue v).getD 0

/-- Lines 718-724. -/
def rootAddress (roots : Json) : UInt64 :=
  ((((roots.asArray.bind List.head?).bind parseAddressValue).or (parseAddressValue roots))).getD 0

/-- Lines 739-743. -/
def matrixAddresses (addrs : Json) : List UInt64 :=
  (addrs.asArray.getD []).filterMap parseAddressValue

/-- Lines 602-606. -/
def globalQuery : Json → String
  | .str s => s
  | other => String.ofList other.print

def atAddress (p : Json) (op : UInt64 → Op) : Result Job := do
  let req ← parseParams AddressRequest.schema p
  return .plain (op (addressOrZero req.address))

def atTarget (p : Json) (op : Option UInt64 → Option String → UInt64 → Op) : Result Job := do
  let req ← parseParams AddrInfoRequest.schema p
  return .plain (op (optionalAddress req.address) req.targetName (req.offset.getD 0))

def paginated (p : Json) (op : UInt64 → UInt64 → Op) : Result Job := do
  let req ← parseParams PaginatedRequest.schema p
  return .plain (op (req.offset.getD 0) (req.limit.getD 100))

def filtered (p : Json)
    (op : UInt64 → UInt64 → Option String → Option UInt64 → Op) : Result Job := do
  let req ← parseParams LocalTypesRequest.schema.toSchema p
  return .plain (op (req.offset.getD 0) (req.limit.getD 100) req.filter req.timeoutSecs)

def required (v : Json) (name : String) : Result UInt64 :=
  match parseAddressValue v with
  | some a => .ok a
  | none => .error (.invalidParams s!"{name} is required")

def Method.dispatch (host : Host) (p : Json) : Method → Result Job
  | .openDatabase =>
    let path:=(rawStr p "path").getD ""
    let autoAnalyse:=(rawBool p "auto_analyse").getD true
    let loadDebugInfo:=(rawBool p "load_debug_info").getD false
    let debugInfoPath:=rawStr p "debug_info_path"
    let debugInfoVerbose:=(rawBool p "debug_info_verbose").getD false
    let force:=(rawBool p "force").getD false
    let fileType:=rawStr p "file_type"
    let extraArgs:=((rawArray p "extra_args").getD []).filterMap Json.asStr
    .ok (.plain (.openDatabase path loadDebugInfo debugInfoPath debugInfoVerbose force fileType
      autoAnalyse extraArgs))
  | .close => .ok (.acknowledged .close)
  | .shutdown => .ok (.acknowledged .shutdown)
  | .loadDebugInfo => do
    let req ← parseParams LoadDebugInfoRequest.schema p
    return .plain (.loadDebugInfo req.path (req.verbose.getD false))
  | .getAnalysisStatus => .ok (.plain .analysisStatus)
  | .listFunctions => do
    let req ← parseParams ListFunctionsRequest.schema.toSchema p
    return .plain (.listFunctions (req.offset.getD 0) (req.limit.getD 100) req.filter
      req.timeoutSecs)
  | .getFunctionByName => do
    let req ← parseParams ResolveFunctionRequest.schema p
    return .plain (.resolveFunction req.name)
  | .getFunctionPrototype =>
    .ok (.plain (.getFunctionPrototype (rawAddress p "address") (rawStr p "name")))
  | .getFunctionAtAddress => atTarget p .functionAt
  | .batchLookupFunctions => do
    let req ← parseParams LookupFuncsRequest.schema p
    return .plain (.lookupFuncs (parseStringList req.queries))
  | .exportFunctions => do
    let req ← parseParams ExportFuncsRequest.schema p
    return .plain (.exportFuncs (req.offset.getD 0) (req.limit.getD 100))
  | .disassemble => do
    let req ← parseParams DisasmRequest.schema p
    let addrs ← parseAddressValues req.address
    let count:=req.count.getD 10
    return perAddress "disasm" id (.disasm · count) addrs
  | .disassembleFunction => do
    let req ← parseParams DisasmByNameRequest.schema p
    return .under "disasm" (.disasmByName req.name (req.count.getD 10))
  | .disassembleFunctionAt => do
    let req ← parseParams DisasmFunctionAtRequest.schema.toSchema p
    return .under "disasm" (.disasmFunctionAt (optionalAddress req.address) req.targetName
      (req.offset.getD 0) (req.count.getD 200))
  | .decompileFunction => do
    let req ← parseParams DecompileRequest.schema p
    let addrs ← parseAddressValues req.address
    return perAddress "code" hinted .decompile addrs
  | .getPseudocodeAt => do
    let req ← parseParams PseudocodeAtRequest.schema p
    let endAddr:=req.endAddress.bind fun s => parseAddressValue (.str s)
    return .plain (.pseudocodeAt (addressOrZero req.address) endAddr)
  | .listSegments => .ok (.plain .segments)
  | .listStrings =>
    let query:=(rawStr p "query").or (rawStr p "filter")
    let exact:=(rawBool p "exact").getD false
    let caseInsensitive:=(rawBool p "case_insensitive").getD true
    let offset:=(rawU64 p "offset").getD 0
    let limit:=(rawU64 p "limit").getD 100
    let timeout:=rawU64 p "timeout_secs"
    match query with
    | some q => .ok (.plain (.findString q exact caseInsensitive offset limit timeout))
    | none => .ok (.plain (.strings offset limit none timeout))
  | .getXrefsToString => do
    let req ← parseParams XrefsToStringRequest.schema.toSchema p
    return .plain (.xrefsToString req.query (req.exact.getD false) (req.caseInsensitive.getD true)
      (req.offset.getD 0) (req.limit.getD 100) (req.maxXrefs.getD 10) req.timeoutSecs)
  | .listLocalTypes => filtered p .localTypes
  | .declareCType => do
    let req ← parseParams DeclareTypeRequest.schema.toSchema p
    return .plain (.declareType req.decl (req.relaxed.getD false) (req.replace.getD false)
      (req.multi.getD false))
  | .applyType => do
    let req ← parseParams ApplyTypesRequest.schema.toSchema p
    return .plain (.applyTypes (optionalAddress req.address) req.targetName (req.offset.getD 0)
      req.stackOffset req.stackName req.decl req.typeName (req.relaxed.getD false)
      (req.delay.getD false) (req.strict.getD false))
  | .inferType => atTarget p .inferTypes
  | .setFunctionPrototype => do
    let req ← parseParams SetFunctionPrototypeRequest.schema.toSchema p
    return .plain (.setFunctionPrototype (optionalAddress req.address) req.name req.prototype)
  | .renameStackVariable => do
    let req ← parseParams RenameStackVariableRequest.schema.toSchema p
    return .plain (.renameStackVariable (optionalAddress req.funcAddress) req.funcName req.name
      req.newName)
  | .setStackVariableType => do
    let req ← parseParams SetStackVariableTypeRequest.schema.toSchema p
    return .plain (.setStackVariableType (optionalAddress req.funcAddress) req.funcName req.name
      req.typeDecl)
  | .listEnums => do
    let req ← parseParams ListEnumsRequest.schema.toSchema p
    return .plain (.listEnums req.filter (req.offset.getD 0) (req.limit.getD 100))
  | .createEnum => do
    let req ← parseParams CreateEnumRequest.schema.toSchema p
    return .plain (.createEnum req.decl (req.replace.getD false))
  | .getAddressInfo => atTarget p .addrInfo
  | .createStackVariable => do
    let req ← parseParams DeclareStackRequest.schema.toSchema p
    return .plain (.declareStack (optionalAddress req.address) req.targetName req.offset
      req.varName req.decl (req.relaxed.getD false))
  | .deleteStackVariable => do
    let req ← parseParams DeleteStackRequest.schema.toSchema p
    return .plain (.deleteStack (optionalAddress req.address) req.targetName req.offset
      req.varName)
  | .getStackFrame => atAddress p .stackFrame
  | .listStructs => filtered p .structs
  | .getStructInfo => do
    let req ← parseParams StructInfoRequest.schema p
    return .plain (.structInfo req.ordinal req.name)
  | .readStructAtAddress => do
    let req ← parseParams ReadStructRequest.schema p
    return .plain (.readStruct (addressOrZero req.address) req.ordinal req.name)
  | .getXrefsTo => atAddress p .xrefsTo
  | .getXrefsFrom => atAddress p .xrefsFrom
  | .getXrefsToStructField => do
    let req ← parseParams XrefsToFieldRequest.schema.toSchema p
    return .plain (.xrefsToField req.ordinal req.name req.memberIndex req.memberName
      (req.limit.getD 100))
  | .listImports => paginated p .imports
  | .listExports => paginated p .exports
  | .listEntryPoints => .ok (.plain .entrypoints)
  | .readBytes => do
    let req ← parseParams GetBytesRequest.schema.toSchema p
    return .plain (.getBytes (optionalAddress req.address) req.targetName (req.offset.getD 0)
      (req.size.getD 16))
  | .readInt =>
    let addr:=((rawAddress p "address").or (rawAddress p "addr")).getD 0
    .ok (.plain (.readInt addr ((rawU64 p "size").getD 4)))
  | .readString => do
    let req ← parseParams GetStringRequest.schema p
    return .plain (.getString (addressOrZero req.address) (req.maxLen.getD 1024))
  | .readGlobalVariable => do
    let req ← parseParams GetGlobalValueRequest.schema p
    return .plain (.getGlobalValue (globalQuery req.query))
  | .setComment => do
    let req ← parseParams SetCommentsRequest.schema.toSchema p
    return .plain (.setComments (optionalAddress req.address) req.targetName (req.offset.getD 0)
      req.comment (req.repeatable.getD false))
  | .setFunctionComment => do
    let req ← parseParams SetFunctionCommentRequest.schema.toSchema p
    return .plain (.setFunctionComment (optionalAddress req.address) req.name req.comment
      (req.repeatable.getD false))
  | .renameSymbol => do
    let req ← parseParams RenameRequest.schema.toSchema p
    return .plain (.rename (optionalAddress req.address) req.currentName req.name
      (req.flags.getD 0))
  | .batchRename => do
    let req ← parseParams BatchRenameRequest.schema.toSchema p
    return .plain (.batchRename (req.renames.map fun e =>
      (optionalAddress e.address,e.currentName,e.newName)))
  | .renameLocalVariable => do
    let req ← parseParams RenameLvarRequest.schema.toSchema p
    return .plain (.renameLvar (addressOrZero req.funcAddress) req.lvarName req.newName)
  | .setLocalVariableType => do
    let req ← parseParams SetLvarTypeRequest.schema.toSchema p
    return .plain (.setLvarType (addressOrZero req.funcAddress) req.lvarName req.typeStr)
  | .setDecompilerComment => do
    let req ← parseParams SetDecompilerCommentRequest.schema.toSchema p
    return .plain (.setDecompilerComment (addressOrZero req.funcAddress)
      (addressOrZero req.address) (req.itp.getD 69) req.comment)
  | .patchBytes => do
    let req ← parseParams PatchRequest.schema.toSchema p
    let bytes ← parsePatchBytes req.bytes
    return .plain (.patchBytes (optionalAddress req.address) req.targetName (req.offset.getD 0)
      bytes)
  | .patchAssembly => do
    let req ← parseParams PatchAsmRequest.schema.toSchema p
    return .plain (.patchAsm (optionalAddress req.address) req.targetName (req.offset.getD 0)
      req.line)
  | .getBasicBlocks => atAddress p .basicBlocks
  | .getCallees => atAddress p .callees
  | .getCallers => atAddress p .callers
  | .buildCallgraph => do
    let req ← parseParams CallGraphRequest.schema.toSchema p
    return .plain (.callgraph (rootAddress req.roots) (req.maxDepth.getD 5)
      (req.maxNodes.getD 100))
  | .findControlFlowPaths => do
    let req ← parseParams FindPathsRequest.schema.toSchema p
    return .plain (.findPaths (addressOrZero req.start) (addressOrZero req.finish)
      (req.maxPaths.getD 10) (req.maxDepth.getD 10))
  | .buildXrefMatrix => do
    let req ← parseParams XrefMatrixRequest.schema p
    return .plain (.xrefMatrix (matrixAddresses req.addrs))
  | .getDatabaseInfo => .ok (.plain .idbMeta)
  | .listGlobals => do
    let req ← parseParams ListGlobalsRequest.schema.toSchema p
    return .plain (.listGlobals req.query (req.offset.getD 0) (req.limit.getD 100)
      req.timeoutSecs)
  | .runAutoAnalysis => do
    let req ← parseParams AnalyzeFuncsRequest.schema p
    return .plain (.analyzeFuncs req.timeoutSecs)
  | .searchBytes => do
    let req ← parseParams FindBytesRequest.schema.toSchema p
    return findEach (req.limit.getD 100) req.timeoutSecs (parsePatterns host.fromStr req.patterns)
  | .searchText =>
    .ok (.plain (.searchText ((rawStr p "text").getD "") ((rawU64 p "max_results").getD 100)
      (rawU64 p "timeout_secs")))
  | .searchImm =>
    .ok (.plain (.searchImm ((rawU64 p "imm").getD 0) ((rawU64 p "max_results").getD 100)
      (rawU64 p "timeout_secs")))
  | .searchInstructions => do
    let req ← parseParams FindInsnsRequest.schema.toSchema p
    return .plain (.findInsns (parsePatterns host.fromStr req.patterns) (req.limit.getD 100)
      (req.caseInsensitive.getD true) req.timeoutSecs)
  | .searchInstructionOperands => do
    let req ← parseParams FindInsnOperandsRequest.schema.toSchema p
    return .plain (.findInsnOperands (parsePatterns host.fromStr req.patterns)
      (req.limit.getD 100) (req.caseInsensitive.getD true) req.timeoutSecs)
  | .runScript => do
    let req ← parseParams RunScriptRequest.schema p
    return .plain (.runScript (req.code.getD "") req.timeoutSecs)
  | .batchDecompile => do
    let req ← parseParams BatchDecompileRequest.schema p
    return decompileEach (batchItems host req.addresses)
  | .searchPseudocode => do
    let req ← parseParams SearchPseudocodeRequest.schema p
    return .plain (.searchPseudocode req.pattern (min (req.limit.getD 20) 100) req.timeoutSecs)
  | .scanMemoryTable => do
    let req ← parseParams TableScanRequest.schema p
    let base ← required req.baseAddress "base_address"
    return scanTable base (max (req.stride.getD 8) 1) (min (req.count.getD 16) 256).toNat
  | .diffPseudocode => do
    let req ← parseParams DiffFunctionsRequest.schema p
    let addr1 ← required req.addr1 "addr1"
    let addr2 ← required req.addr2 "addr2"
    return diffJob host addr1 addr2

/-- Lines 126-1052. -/
def dispatchRpc (host : Host) (method : String) (p : Json) : Result Job :=
  match Method.ofName (Tools.primaryNameFor method) with
  | some m => m.dispatch host p
  | none => .error (.invalidToolName s!"Unknown method: {method}")

theorem Method.mem_all (m : Method) : m∈all := by cases m <;> decide

theorem Method.name_injective {m n : Method} (h : m.name=n.name) : m=n := by
  have hall : all.all fun m => all.all fun n => m.name≠n.name || m=n := by decide +kernel
  have hm:=List.all_eq_true.mp (List.all_eq_true.mp hall m m.mem_all) n n.mem_all
  simpa [h] using hm

theorem Method.ofName_eq_some_iff {s : String} {m : Method} : ofName s=some m ↔ m.name=s := by
  constructor
  · intro h
    simpa using List.find?_some h
  · rintro rfl
    cases hf : ofName m.name with
    | none => simpa using List.find?_eq_none.mp hf m m.mem_all
    | some n =>
      have hn : n.name=m.name := by simpa using List.find?_some hf
      rw [Method.name_injective hn]

theorem Method.primary (m : Method) :
    Tools.primaryNameFor m.name=m.name := by
  have hall : all.all fun m => Tools.primaryNameFor m.name=m.name := by decide +kernel
  simpa using List.all_eq_true.mp hall m m.mem_all

/-- Of whatever comes out, if anything does. -/
def Always {α : Type} (P : α → Prop) (r : Result α) : Prop := ∀ a,r=.ok a → P a

section Always
variable {α β : Type} {P : β → Prop}

@[simp] theorem always_ok (a : β) : Always P (.ok a : Result β) ↔ P a := by simp [Always]

@[simp] theorem always_pure (a : β) : Always P (pure a : Result β) ↔ P a := always_ok a

@[simp] theorem always_error (e : ToolError) : Always P (.error e : Result β) ↔ True := by
  simp [Always]

@[simp] theorem always_bind (r : Result α) (f : α → Result β) :
    Always P (r >>= f) ↔ ∀ a,r=.ok a → Always P (f a) := by
  cases r with
  | error e => simp [bind,Except.bind]
  | ok a => simp [bind,Except.bind]

@[simp] theorem always_map (r : Result α) (f : α → β) :
    Always P (f <$> r) ↔ ∀ a,r=.ok a → P (f a) := by
  cases r with
  | error e => simp [Functor.map,Except.map]
  | ok a => simp [Functor.map,Except.map]

@[simp] theorem parseParams_eq_ok {S : Schema α} {p : Json} {a : α} :
    parseParams S p=.ok a ↔ S.decode p=some a := by
  unfold parseParams
  cases S.decode p with
  | none => simp
  | some b => simp

@[simp] theorem required_eq_ok {v : Json} {name : String} {a : UInt64} :
    required v name=.ok a ↔ parseAddressValue v=some a := by
  unfold required
  cases parseAddressValue v with
  | none => simp
  | some b => simp

end Always

@[simp] theorem Plan.ops_single (op : Op) : (Plan.single op).ops=[op] := rfl
@[simp] theorem Job.ops_one (op : Op) (form : Json → Json) : (Job.one op form).ops=[op] := rfl
@[simp] theorem Job.ops_plain (op : Op) : (Job.plain op).ops=[op] := rfl
@[simp] theorem Job.ops_under (key : String) (op : Op) : (Job.under key op).ops=[op] := rfl
@[simp] theorem Job.ops_acknowledged (op : Op) : (Job.acknowledged op).ops=[op] := rfl

@[simp] theorem ops_perAddress (key : String) (form : Json → Json) (op : UInt64 → Op)
    (addrs : List UInt64) : (perAddress key form op addrs).ops=addrs.map op := by
  unfold perAddress
  split <;> rfl

@[simp] theorem ops_findEach (maxResults : UInt64) (timeout : Option UInt64)
    (patterns : List String) : (findEach maxResults timeout patterns).ops=
      patterns.map fun pattern => .findBytes pattern maxResults timeout := by
  unfold findEach
  split <;> rfl

theorem dispatchRpc_name (host : Host) (m : Method) (p : Json) :
    dispatchRpc host m.name p=m.dispatch host p := by
  rw [dispatchRpc,m.primary,Method.ofName_eq_some_iff.mpr rfl]

end Rpc
