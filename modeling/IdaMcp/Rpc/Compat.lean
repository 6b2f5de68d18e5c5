import IdaMcp.Rpc.Addresses
import IdaMcp.Rpc.Decoders

/-!
# The two backends (`src/idat_compat.rs`, `src/rpc_dispatch.rs`)

The worker that drives `idat` reads its parameters key by key. What it then
asks for is compared with what `dispatch_rpc` reads from the same parameters.
-/

namespace Rpc
open Lib

/-- The operations of `CompatWorker`. -/
inductive CompatOp
  | openDatabase (path : String) (autoAnalyse loadDebugInfo : Bool) (debugInfoPath : Option String)
      (debugInfoVerbose force : Bool) (fileType : Option String) (extraArgs : List String)
  | close
  /-- Models `close`, after which the loop ends. -/
  | shutdown
  | analysisStatus
  | listFunctions (offset limit : UInt64) (filter : Option String)
  | resolveFunction (name : String)
  | functionAt (addr : Option UInt64) (name : Option String) (offset : UInt64)
  | addrInfo (addr : Option UInt64) (name : Option String) (offset : UInt64)
  | disasm (addr count : UInt64)
  | disasmByName (name : String) (count : UInt64)
  | disasmFunctionAt (addr : Option UInt64) (name : Option String) (offset count : UInt64)
  | decompile (addr : UInt64)
  | segments
  | strings (offset limit : UInt64) (query : Option String)
  | getBytes (addr size : UInt64)
  | xrefsTo (addr : UInt64)
  | xrefsFrom (addr : UInt64)
  | xrefsToString (query : String) (exact caseInsensitive : Bool) (offset limit maxXrefs : UInt64)
  | imports (offset limit : UInt64)
  | exports (offset limit : UInt64)
  | entrypoints
  | databaseInfo
  | listGlobals (query : Option String) (offset limit : UInt64)
  | readString (addr maxLen : UInt64)
  | readInt (addr size : UInt64)
  | searchText (text : String) (maxResults : UInt64)
  | searchBytes (pattern : String) (maxResults : UInt64)
  | runScript (code : String)
  | pseudocodeAt (addr : UInt64) (endAddr : Option UInt64)
  | batchDecompile (addrs : List Json)
  | searchPseudocode (pattern : String) (limit : UInt64)
  | diffPseudocode (addr1 addr2 : UInt64)
  | callers (addr : UInt64)
  | callees (addr : UInt64)

/-- Models `params.get(key).and_then(parse_address_value)`, or an error. -/
def compatAddress (p : Json) (key : String) : Result UInt64 :=
  match (p.get? key).bind Compat.parseAddressValue with
  | some a => .ok a
  | none => .error (.invalidAddress s!"missing {key}")

def compatStr (p : Json) (key : String) : Result String :=
  match rawStr p key with
  | some s => .ok s
  | none => .error (.invalidParams s!"missing {key}")

def compatItems (p : Json) : List Json :=
  match p.get? "addresses" with
  | some (.arr vs) => vs
  | some .null | none => []
  | some v => [v]

/-- Lines 342-630. -/
def Method.compat (p : Json) : Method → Result CompatOp
  | .openDatabase => .ok (.openDatabase ((rawStr p "path").getD "")
      ((rawBool p "auto_analyse").getD true) ((rawBool p "load_debug_info").getD false)
      (rawStr p "debug_info_path") ((rawBool p "debug_info_verbose").getD false)
      ((rawBool p "force").getD false) (rawStr p "file_type")
      (((rawArray p "extra_args").getD []).filterMap Json.asStr))
  | .close => .ok .close
  | .shutdown => .ok .shutdown
  | .getAnalysisStatus => .ok .analysisStatus
  | .listFunctions => .ok (.listFunctions ((rawU64 p "offset").getD 0) ((rawU64 p "limit").getD 100)
      (rawStr p "filter"))
  | .getFunctionByName => do
    let name ← compatStr p "name"
    return .resolveFunction name
  | .getFunctionAtAddress => .ok (.functionAt ((p.get? "address").bind Compat.parseAddressValue)
      (rawStr p "target_name") ((rawU64 p "offset").getD 0))
  | .getAddressInfo => .ok (.addrInfo ((p.get? "address").bind Compat.parseAddressValue)
      (rawStr p "target_name") ((rawU64 p "offset").getD 0))
  | .disassemble => do
    let addr ← compatAddress p "address"
    return .disasm addr ((rawU64 p "count").getD 10)
  | .disassembleFunction => do
    let name ← compatStr p "name"
    return .disasmByName name ((rawU64 p "count").getD 10)
  | .disassembleFunctionAt =>
    .ok (.disasmFunctionAt ((p.get? "address").bind Compat.parseAddressValue)
      (rawStr p "target_name") ((rawU64 p "offset").getD 0) ((rawU64 p "count").getD 200))
  | .decompileFunction => do
    let addr ← compatAddress p "address"
    return .decompile addr
  | .listSegments => .ok .segments
  | .listStrings => .ok (.strings ((rawU64 p "offset").getD 0) ((rawU64 p "limit").getD 100)
      ((rawStr p "query").or (rawStr p "filter")))
  | .readBytes => do
    let addr ← compatAddress p "address"
    return .getBytes addr ((rawU64 p "size").getD 16)
  | .getXrefsTo => do
    let addr ← compatAddress p "address"
    return .xrefsTo addr
  | .getXrefsFrom => do
    let addr ← compatAddress p "address"
    return .xrefsFrom addr
  | .getXrefsToString => do
    let query ← compatStr p "query"
    return .xrefsToString query ((rawBool p "exact").getD false)
      ((rawBool p "case_insensitive").getD true) ((rawU64 p "offset").getD 0)
      ((rawU64 p "limit").getD 100) ((rawU64 p "max_xrefs").getD 64)
  | .listImports => .ok (.imports ((rawU64 p "offset").getD 0) ((rawU64 p "limit").getD 100))
  | .listExports => .ok (.exports ((rawU64 p "offset").getD 0) ((rawU64 p "limit").getD 100))
  | .listEntryPoints => .ok .entrypoints
  | .getDatabaseInfo => .ok .databaseInfo
  | .listGlobals => .ok (.listGlobals (rawStr p "query") ((rawU64 p "offset").getD 0)
      ((rawU64 p "limit").getD 100))
  | .readString => do
    let addr ← compatAddress p "address"
    return .readString addr ((rawU64 p "max_len").getD 1024)
  | .readInt =>
    match ((p.get? "address").or (p.get? "addr")).bind Compat.parseAddressValue with
    | some addr => .ok (.readInt addr ((rawU64 p "size").getD 4))
    | none => .error (.invalidAddress "missing address")
  | .searchText => .ok (.searchText ((rawStr p "text").getD "") ((rawU64 p "max_results").getD 100))
  | .searchBytes => .ok (.searchBytes (((rawStr p "patterns").or (rawStr p "pattern")).getD "")
      (((rawU64 p "limit").or (rawU64 p "max_results")).getD 100))
  | .runScript => .ok (.runScript ((rawStr p "code").getD ""))
  | .getPseudocodeAt => do
    let addr ← compatAddress p "address"
    return .pseudocodeAt addr ((p.get? "end_address").bind Compat.parseAddressValue)
  | .batchDecompile => .ok (.batchDecompile (compatItems p))
  | .searchPseudocode => .ok (.searchPseudocode ((rawStr p "pattern").getD "")
      (min ((rawU64 p "limit").getD 20) 100))
  | .diffPseudocode => do
    let addr1 ← compatAddress p "addr1"
    let addr2 ← compatAddress p "addr2"
    return .diffPseudocode addr1 addr2
  | .getCallers => do
    let addr ← compatAddress p "address"
    return .callers addr
  | .getCallees => do
    let addr ← compatAddress p "address"
    return .callees addr
  | m =>
    let method:=m.name
    .error (.notSupported s!"backend idat-compat does not support method {method}")

def dispatchRequest (method : String) (p : Json) : Result CompatOp :=
  let primary:=Tools.primaryNameFor method
  match Method.ofName primary with
  | some m => m.compat p
  | none => .error (.notSupported s!"backend idat-compat does not support method {primary}")

/-- The arguments alone: idat has no time limits. -/
def Op.untimed : Op → Op
  | .listFunctions offset limit filter _ => .listFunctions offset limit filter none
  | .strings offset limit filter _ => .strings offset limit filter none
  | .findString query exact caseInsensitive offset limit _ =>
    .findString query exact caseInsensitive offset limit none
  | .xrefsToString query exact caseInsensitive offset limit maxXrefs _ =>
    .xrefsToString query exact caseInsensitive offset limit maxXrefs none
  | .listGlobals query offset limit _ => .listGlobals query offset limit none
  | .findBytes pattern maxResults _ => .findBytes pattern maxResults none
  | .searchText text maxResults _ => .searchText text maxResults none
  | .runScript code _ => .runScript code none
  | .searchPseudocode pattern limit _ => .searchPseudocode pattern limit none
  | op => op

/-- What is asked of idat, in the operations of the other worker. A query for strings is looked
for as it is written; a value in a batch stands for the address it denotes. -/
def CompatOp.ops : CompatOp → List Op
  | .openDatabase path autoAnalyse loadDebugInfo debugInfoPath debugInfoVerbose force fileType
      extraArgs =>
    [.openDatabase path loadDebugInfo debugInfoPath debugInfoVerbose force fileType autoAnalyse
      extraArgs]
  | .close => [.close]
  | .shutdown => [.shutdown]
  | .analysisStatus => [.analysisStatus]
  | .listFunctions offset limit filter => [.listFunctions offset limit filter none]
  | .resolveFunction name => [.resolveFunction name]
  | .functionAt addr name offset => [.functionAt addr name offset]
  | .addrInfo addr name offset => [.addrInfo addr name offset]
  | .disasm addr count => [.disasm addr count]
  | .disasmByName name count => [.disasmByName name count]
  | .disasmFunctionAt addr name offset count => [.disasmFunctionAt addr name offset count]
  | .decompile addr => [.decompile addr]
  | .segments => [.segments]
  | .strings offset limit (some query) => [.findString query false false offset limit none]
  | .strings offset limit none => [.strings offset limit none none]
  | .getBytes addr size => [.getBytes (some addr) none 0 size]
  | .xrefsTo addr => [.xrefsTo addr]
  | .xrefsFrom addr => [.xrefsFrom addr]
  | .xrefsToString query exact caseInsensitive offset limit maxXrefs =>
    [.xrefsToString query exact caseInsensitive offset limit maxXrefs none]
  | .imports offset limit => [.imports offset limit]
  | .exports offset limit => [.exports offset limit]
  | .entrypoints => [.entrypoints]
  | .databaseInfo => [.idbMeta]
  | .listGlobals query offset limit => [.listGlobals query offset limit none]
  | .readString addr maxLen => [.getString addr maxLen]
  | .readInt addr size => [.readInt addr size]
  | .searchText text maxResults => [.searchText text maxResults none]
  | .searchBytes pattern maxResults => [.findBytes pattern maxResults none]
  | .runScript code => [.runScript code none]
  | .pseudocodeAt addr endAddr => [.pseudocodeAt addr endAddr]
  | .batchDecompile addrs => (addrs.filterMap Compat.parseAddressValue).map .decompile
  | .searchPseudocode pattern limit => [.searchPseudocode pattern limit none]
  | .diffPseudocode addr1 addr2 => [.decompile addr1,.decompile addr2]
  | .callers addr => [.callers addr]
  | .callees addr => [.callees addr]

inductive Kind
  | text
  | number
  | flag
  | address
  /-- A text that is no list. -/
  | word
  | items
  | value

def Kind.Has : Kind → Json → Prop
  | .text,v => ∃ s,v=.str s
  | .number,v => ∃ n : UInt64,v=.ofNat n.toNat
  | .flag,v => ∃ b,v=.bool b
  | .address,v => ∃ a,Denotes v a
  | .word,v => ∃ s,v=.str s ∧ (trim s.toList).head?≠some '['
  | .items,v => ∃ vs,v=.arr vs
  | .value,_ => True

/-- What may stand under a key, where `null` is as good as nothing. -/
inductive Want
  | absent
  | optional (k : Kind)
  | required (k : Kind)

def Want.Fits : Want → Option Json → Prop
  | .absent,x => x=none ∨ x=some .null
  | .optional k,x => x=none ∨ x=some .null ∨ ∃ v,x=some v ∧ k.Has v
  | .required k,x => ∃ v,x=some v ∧ k.Has v

/-- Each field stands under its name, if at all, and none under another name it goes by. -/
def Keyed (p : Json) : List Field → List Want → Prop
  | [],[] => True
  | f::fs,w::ws =>
    ((∀ a ∈ f.aliases,p.get? a=none) ∧ w.Fits (p.get? f.name)) ∧ Keyed p fs ws
  | _,_ => False

structure Shaped {α : Type} (p : Json) (S : Schema α) (ws : List Want) : Prop where
  object : ∃ es,p=.obj es
  keyed : Keyed p S.fields ws

section
variable {α : Type} {S : Schema α} {p : Json} {ws : List Want}

theorem Keyed.pickAll {fs : List Field} (h : Keyed p fs ws) :
    Field.pickAll p fs=some (fs.map fun f => p.get? f.name) := by
  induction fs generalizing ws with
  | nil => rfl
  | cons f fs ih =>
    cases ws with
    | nil => cases h
    | cons w ws =>
      obtain ⟨⟨ha,-⟩,h⟩:=h
      rw [Field.pickAll,Field.pick_of rfl ha,ih h]
      rfl

theorem Shaped.decode (h : Shaped p S ws) :
    S.decode p=S.read (S.fields.map fun f => p.get? f.name) := by
  obtain ⟨es,rfl⟩:=h.object
  rw [Schema.decode,Field.row,h.keyed.pickAll]
  rfl

theorem Shaped.native (h : Shaped p S ws) {J : α → Result Job} {ops : Option (List Op)}
    (hJ : ((S.read (S.fields.map fun f => p.get? f.name)).bind fun req => (J req).toOption).map
      (fun job => job.ops.map Op.untimed)=ops) :
    (parseParams S p >>= J).toOption.map (fun job => job.ops.map Op.untimed)=ops := by
  rw [← hJ,parseParams,h.decode]
  cases S.read (S.fields.map fun f => p.get? f.name) <;> rfl

theorem Want.Fits.opt {c : Codec α} {k : Kind} {x : Option Json}
    (h : (Want.optional k).Fits x) (hn : c.dec .null=none)
    (hk : ∀ v,k.Has v → ∃ a,c.dec v=some a) : c.opt x=some (x.bind c.dec) := by
  rcases h with rfl | rfl | ⟨v,rfl,hv⟩
  · rfl
  · rw [Option.bind_some,hn]
    rfl
  · obtain ⟨a,ha⟩:=hk v hv
    rw [Option.bind_some,ha]
    cases v with
    | null => rw [hn] at ha; cases ha
    | _ => exact congrArg (Option.map some) ha

theorem Want.Fits.text {x : Option Json} (h : (Want.optional .text).Fits x) :
    Codec.string.opt x=some (x.bind Json.asStr) :=
  h.opt rfl fun v ⟨s,hs⟩ => ⟨s,by rw [hs]; rfl⟩

theorem Want.Fits.number {x : Option Json} (h : (Want.optional .number).Fits x) :
    Codec.u64.opt x=some ((x.bind Json.asU64).map UInt64.ofNat) := by
  rw [h.opt rfl fun v ⟨n,hn⟩ => ⟨n,by rw [hn]; exact Codec.u64.back n⟩]
  cases x <;> rfl

theorem Want.Fits.flag {x : Option Json} (h : (Want.optional .flag).Fits x) :
    Codec.bool.opt x=some (x.bind Json.asBool) :=
  h.opt rfl fun v ⟨b,hb⟩ => ⟨b,by rw [hb]; rfl⟩

end

section
variable {p : Json} {x : Option Json}

theorem Want.Fits.address (h : (Want.required .address).Fits x) :
    ∃ v a,x=some v ∧ parseAddressValue v=some a ∧ parseAddressValues v=.ok [a] := by
  obtain ⟨v,rfl,a,ha⟩:=h
  exact ⟨v,a,rfl,parseAddressValue_eq_some_iff.mpr ha,ha.values⟩

end

end Rpc
