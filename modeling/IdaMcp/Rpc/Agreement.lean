import IdaMcp.Rpc.Addresses
import IdaMcp.Rpc.Decoders
import IdaMcp.Rpc.Tools

/-!
# The two branches of a tool

What a router sends is decoded by `dispatch_rpc` in a worker. The operations
that come out are compared with those of the direct branch, for every request
of every tool.
-/

namespace Rpc
open Lib Lib.Codec
variable (host : Host) {α β : Type} {s : String} {a bound : UInt64} {fromStr : String → Option Json}
  {v p : Json} {as : List UInt64} {ss : List String} {job : Job} {c : Call}
  {r : Result (String × Option UInt64)}

/-! ### The same operations -/

def IsAddress (v : Json) : Prop := ∃ a,Denotes v a

def AddressIfGiven (v : Option Json) : Prop := ∀ w,v=some w → IsAddress w

/-- One address, or some in an array. -/
inductive AddressList : Json → List UInt64 → Prop
  | single {v : Json} {a : UInt64} (h : Denotes v a) : AddressList v [a]
  | array {vs : List Json} {as : List UInt64} (h : List.Forall₂ Denotes vs as) (hne : as≠[]) :
      AddressList (.arr vs) as

/-- A text that is not taken apart: no blanks around it, no comma, no bracket in front. -/
structure IsWord (s : String) : Prop where
  trimmed : trim s.toList=s.toList
  nonempty : s.toList≠[]
  comma : ',' ∉ s.toList
  bracket : s.toList.head?≠some '['

/-- One text, or some in an array. -/
inductive TextList : Json → List String → Prop
  | single {s : String} (h : IsWord s) : TextList (.str s) [s]
  | array (ss : List String) : TextList (.arr (ss.map .str)) ss

/-- A number, or its decimal digits and nothing else. -/
inductive Immediate : Json → Prop
  | number (a : UInt64) : Immediate (.ofNat a.toNat)
  | digits {s : String} {a : UInt64} (htrim : trim s.toList=s.toList)
      (hmark : marked 'x' 'X' s.toList=false) (hdigits : fromStrRadix 10 s.toList=some a) :
      Immediate (.str s)

inductive ImmediateList : Json → Prop
  | single {v : Json} (h : Immediate v) : ImmediateList v
  | array {vs : List Json} (h : ∀ v ∈ vs,Immediate v) : ImmediateList (.arr vs)

def AtMost (bound : UInt64) (x : Option UInt64) : Prop := ∃ n,x=some n ∧ n ≤ bound

/-- The first page, which a worker is asked for as a whole. -/
structure FirstPage (offset limit : Option UInt64) : Prop where
  offset : offset.getD 0=0
  limit : limit.getD 100 ≤ 10000

/-- Neither a number, nor a text, nor an array. -/
def NoAddress : Json → Prop
  | .null | .bool _ | .obj _ => True
  | _ => False

/-- The shape of a request whose meaning survives the way through the router. -/
def Call.Kept (site : Site) : Call → Prop
  | .closeIdb req => site.http=true ∧ ∃ token,req.token=some token ∧
      site.releaseRefToken token≠some 0 ∧ site.releaseDbRef token≠some 0
  | .listFunctions req | .listFuncs req => req.limit.getD 100 ≤ 10000
  | .getAddressInfo req | .getFunctionAtAddress req | .inferType req => AddressIfGiven req.address
  | .disassemble req => (∃ as,AddressList req.address as) ∧ req.count.getD 10 ≤ 1000
  | .disassembleFunction req => req.count.getD 10 ≤ 1000
  | .disassembleFunctionAt req => AddressIfGiven req.address ∧ req.count.getD 200 ≤ 5000
  | .decompileFunction req => ∃ as,AddressList req.address as
  /- The end is sent as `end_addr`, which no worker reads. -/
  | .getPseudocodeAt req => IsAddress req.address ∧ req.endAddress=none
  | .batchDecompile req => ∀ v ∈ site.batchAddrs req,IsAddress v
  | .scanMemoryTable req => IsAddress req.baseAddress
  | .diffPseudocode req => IsAddress req.addr1 ∧ IsAddress req.addr2
  | .listStrings req => req.limit.getD 100 ≤ 10000
  /- Without `max_xrefs`, ten or sixty-four. -/
  | .getXrefsToString req => req.limit.getD 100 ≤ 10000 ∧ req.maxXrefs.isSome
  /- For a list, a worker is asked about address 0. -/
  | .getXrefsTo req | .getXrefsFrom req | .getBasicBlocks req | .getCallees req | .getCallers req
  | .readByte req | .readWord req | .readDword req | .readQword req => IsAddress req.address
  | .listImports req | .listExports req => req.limit.getD 100 ≤ 10000
  | .readBytes req => AtMost 0x10000 req.size ∧
      ((∃ v,req.address=some v ∧ IsAddress v ∧ req.targetName=none ∧ req.offset.getD 0=0) ∨
        req.address=none ∧ req.targetName.isSome)
  | .batchLookupFunctions req => ∃ ss : List String,req.queries=.arr (ss.map .str)
  | .listGlobals req => req.limit.getD 100 ≤ 10000
  | .searchBytes req => (∃ ss,TextList req.patterns ss) ∧ FirstPage req.offset req.limit
  | .searchText req => FirstPage req.offset req.limit ∧
      (site.searchKind req="imm" ∨ site.searchKind req="immediate" → ImmediateList req.targets)
  | .readString req => IsAddress req.address ∧ AtMost 0x10000 req.maxLen
  | .readGlobalVariable req => ∃ s,req.query=.str s ∧ IsWord s
  | .findControlFlowPaths req => IsAddress req.start ∧ IsAddress req.finish ∧
      AtMost 128 req.maxPaths ∧ AtMost 2048 req.maxDepth
  | .buildCallgraph req => (∃ a,AddressList req.roots [a]) ∧
      AtMost 16 req.maxDepth ∧ AtMost 10000 req.maxNodes
  | .buildXrefMatrix req => ∃ vs as,req.addrs=.arr vs ∧ AddressList (.arr vs) as
  | .exportFunctions req => (∀ fmt,req.format=some fmt → site.toLowercase fmt="json") ∧
      req.addrs=none ∧ req.limit.getD 100 ≤ 10000
  | .getXrefsToStructField req => AtMost 10000 req.limit
  | .setComment req => AddressIfGiven req.address
  | .patchAssembly req => AddressIfGiven req.address
  | .getStackFrame req => IsAddress req.address
  | .createStackVariable req => AddressIfGiven req.address
  | .deleteStackVariable req => AddressIfGiven req.address
  | .listStructs req => req.limit.getD 100 ≤ 10000
  | .readStructAtAddress req => IsAddress req.address
  | .searchInstructions req => (∃ s ss,TextList req.patterns (s::ss)) ∧ req.caseInsensitive.isSome
  | .searchInstructionOperands req =>
    (∃ s ss,TextList req.patterns (s::ss)) ∧ req.caseInsensitive.isSome
  | .applyType req => AddressIfGiven req.address
  | .renameSymbol req => AddressIfGiven req.address
  | .renameLocalVariable req => IsAddress req.funcAddress
  | .setLocalVariableType req => IsAddress req.funcAddress
  | .setDecompilerComment req => IsAddress req.funcAddress ∧ IsAddress req.address
  | .patchBytes req => AddressIfGiven req.address ∧ ((∃ s,req.bytes=.str s) ∨
      ∃ vs,req.bytes=.arr vs ∧ ∀ v ∈ vs,IsByte v)
  /- The direct branch asks for the analysis status besides, if it takes the request at all. -/
  | .dscAddDylib req => (trim req.module.toList).head?≠some '/' ∨
      textContains "..".toList (trim req.module.toList)=true
  | .dscAddRegion req => NoAddress req.address
  | _ => True

/-! ### Values that both read -/

theorem ok_of_toOption {r : Result α} {a : α} (h : r.toOption=some a) : r=.ok a := by
  cases r with
  | error e => cases h
  | ok b => cases h; rfl

theorem parseAddress_of_plain (h : parseAddressValue (.str s)=some a) : parseAddress s=.ok a := by
  rw [parseAddressValue_str] at h
  have hu : '_' ∉trim s.toList := fun hm => by
    rw [foreign_underscore.addressText hm] at h
    cases h
  have hm : ¬(marked 'b' 'B' (trim s.toList)=true ∨ marked 'o' 'O' (trim s.toList)=true) := by
    intro hm
    rw [addressText_marked hm] at h
    cases h
  rw [not_or,Bool.not_eq_true,Bool.not_eq_true] at hm
  have hf : (trim s.toList).filter (· ≠ '_')=trim s.toList := List.filter_eq_self.mpr fun c hc => by
    simp only [ne_eq,decide_not,Bool.not_eq_true',decide_eq_false_iff_not]
    rintro rfl
    exact hu hc
  apply ok_of_toOption
  rw [toOption_parseAddress,hf,← addressText_unmarked hm.1 hm.2,h]

theorem foreign_comma : Foreign ',' := foreign_of (by decide) (by decide)
theorem foreign_bracket : Foreign '[' := foreign_of (by decide) (by decide)

theorem valueToStrings_of_plain (h : addressText (trim s.toList)=some a) :
    valueToStrings fromStr (.str s)=.ok [String.ofList (trim s.toList)] := by
  have hb : (trim s.toList).head?≠some '[' := fun hh => by
    rw [foreign_bracket.addressText (List.mem_of_mem_head? hh)] at h
    cases h
  have hc : (trim s.toList).contains ','=false := by
    rw [Bool.eq_false_iff]
    intro hc
    rw [foreign_comma.addressText (by simpa using hc)] at h
    cases h
  have he : (trim s.toList).isEmpty=false := by
    cases ht : trim s.toList with
    | nil =>
      rw [ht] at h
      cases h
    | cons c cs => rfl
  rw [valueToStrings,if_neg hb,listedStrings,if_neg (by rw [hc]; decide),
    if_neg (by rw [he]; decide)]

theorem valueToAddresses_of_plain
    (h : parseAddressValue v=some a) : valueToAddresses fromStr v=.ok [a] := by
  have htext : ∀ s,parseAddressValue (.str s)=some a →
    valueToAddresses fromStr (.str s)=.ok [a] := by
    intro s hs
    rw [parseAddressValue_str] at hs
    have hp : parseAddress (String.ofList (trim s.toList))=.ok a := by
      refine parseAddress_of_plain ?_
      rw [parseAddressValue_str,String.toList_ofList,trim_trim]
      exact hs
    rw [valueToAddresses,valueToStrings_of_plain hs]
    generalize String.ofList (trim s.toList)=text at hp
    change parseAll [text]=.ok [a]
    rw [parseAll,hp]
    rfl
  cases parseAddressValue_eq_some_iff.mp h with
  | number => exact valueToAddresses_ofNat fromStr a
  | decimal => exact htext _ h
  | hexadecimal => exact htext _ h

theorem Denotes.read (h : Denotes v a) : valueToAddresses fromStr v=.ok [a] :=
  valueToAddresses_of_plain (parseAddressValue_eq_some_iff.mpr h)

theorem IsAddress.single (h : IsAddress v) :
    valueToSingleAddress fromStr v=.ok (addressOrZero v) := by
  obtain ⟨a,ha⟩:=h
  rw [valueToSingleAddress,ha.read,addressOrZero,parseAddressValue_eq_some_iff.mpr ha]
  rfl

theorem itemStrings_of_denotes (h : Denotes v a) (vs : List Json) :
    ∃ s,itemStrings (v::vs)=(itemStrings vs).map (s::·) ∧ parseAddress s=.ok a := by
  have hp:=parseAddressValue_eq_some_iff.mpr h
  cases h with
  | number => exact ⟨_,rfl,parseAddress_toDigits a⟩
  | decimal => exact ⟨_,rfl,parseAddress_of_plain hp⟩
  | hexadecimal => exact ⟨_,rfl,parseAddress_of_plain hp⟩

theorem items_of_denotes {vs : List Json} (h : List.Forall₂ Denotes vs as) :
    (∀ i,parseAddressItems i vs=.ok as) ∧ vs.filterMap parseAddressValue=as ∧
      ∃ strings,itemStrings vs=.ok strings ∧ parseAll strings=.ok as := by
  induction h with
  | nil => exact ⟨fun _ => rfl,rfl,[],rfl,rfl⟩
  | @cons v a vs as hv _ ih =>
    obtain ⟨hi,hf,strings,hs,hp⟩:=ih
    have ha:=parseAddressValue_eq_some_iff.mpr hv
    obtain ⟨s,hc,hsa⟩:=itemStrings_of_denotes hv vs
    refine ⟨fun i => ?_,by rw [List.filterMap_cons_some ha,hf],s::strings,by rw [hc,hs]; rfl,?_⟩
    · rw [parseAddressItems,ha,hi]
      rfl
    · rw [parseAll,hsa,hp]
      rfl

theorem AddressList.read (h : AddressList v as) :
    parseAddressValues v=.ok as ∧ valueToAddresses fromStr v=.ok as := by
  cases h with
  | single h => exact ⟨h.values,h.read⟩
  | @array vs _ h hne =>
    obtain ⟨hi,-,strings,hs,hp⟩:=items_of_denotes h
    obtain ⟨a,as,rfl⟩:=List.exists_cons_of_ne_nil hne
    constructor
    · rw [parseAddressValues,hi]
      rfl
    · cases strings with
      | nil => cases hp
      | cons s ss =>
        rw [valueToAddresses,valueToStrings,hs]
        exact hp

theorem AddressList.values (h : AddressList v as) : parseAddressValues v=.ok as :=
  (h.read : _ ∧ valueToAddresses (fun _ => none) v=.ok as).1

theorem IsWord.read (h : IsWord s) :
    valueToStrings fromStr (.str s)=.ok [s] ∧ parsePatterns fromStr (.str s)=[s] := by
  have hc : s.toList.contains ','=false := by simpa using h.comma
  have he : s.toList.isEmpty=false := by simpa using h.nonempty
  constructor
  · rw [valueToStrings,h.trimmed,if_neg h.bracket,listedStrings,if_neg (by rw [hc]; decide),
      if_neg (by rw [he]; decide),String.ofList_toList]
  · rw [parsePatterns,h.trimmed,if_neg h.bracket]

theorem itemStrings_strs (ss : List String) : itemStrings (ss.map .str)=.ok ss := by
  induction ss with
  | nil => rfl
  | cons s ss ih =>
    rw [List.map_cons,itemStrings,ih]
    rfl

theorem filterMap_asStr (ss : List String) : (ss.map Json.str).filterMap Json.asStr=ss := by
  rw [List.filterMap_map]
  exact List.filterMap_some

theorem TextList.read
    (h : TextList v ss) : valueToStrings fromStr v=.ok ss ∧ parsePatterns fromStr v=ss := by
  cases h with
  | single h => exact h.read
  | array => exact ⟨itemStrings_strs ss,filterMap_asStr ss⟩

/-- Read with or without a mark, it is the same number. -/
def Decimal (s : String) : Prop := parseAddress s=.ok ((fromStrRadix 10 s.toList).getD 0)

theorem Immediate.item (h : Immediate v) (vs : List Json) :
    ∃ s,itemStrings (v::vs)=(itemStrings vs).map (s::·) ∧ Decimal s := by
  cases h with
  | number a =>
    refine ⟨_,rfl,(parseAddress_toDigits a).trans ?_⟩
    rw [String.toList_ofList,JsonNumber.text,fromStrRadix_toDigits (by decide) (by decide),
      if_pos a.toNat_lt,
      UInt64.ofNat_toNat]
    rfl
  | @digits s a ht hm hd =>
    refine ⟨s,rfl,?_⟩
    rw [Decimal,hd]
    apply parseAddress_of_plain
    rw [parseAddressValue_str,ht,addressText,hm]
    exact hd

theorem ImmediateList.read (h : ImmediateList v) {targets : List String}
    (ht : valueToStrings fromStr v=.ok targets) : ∀ target ∈ targets,Decimal target := by
  have hitems : ∀ (vs : List Json) (out : List String),(∀ w ∈ vs,Immediate w) →
      itemStrings vs=.ok out → ∀ target ∈ out,Decimal target := by
    intro vs
    induction vs with
    | nil =>
      intro out _ ho target hm
      cases ho
      cases hm
    | cons w ws ih =>
      intro out hw ho target hm
      obtain ⟨s,hs,hd⟩:=(hw w List.mem_cons_self).item ws
      rw [hs] at ho
      cases hr : itemStrings ws with
      | error e =>
        rw [hr] at ho
        cases ho
      | ok rest =>
        rw [hr] at ho
        cases ho
        rcases List.mem_cons.mp hm with rfl | hm
        · exact hd
        · exact ih rest (fun u hu => hw u (List.mem_cons_of_mem _ hu)) hr target hm
  cases h with
  | array h => exact hitems _ _ h ht
  | single h =>
    refine hitems [v] targets (by simpa using h) ?_
    cases h with
    | number a => exact ht
    | @digits s a htrim hm hd =>
      rw [valueToStrings_of_plain (a := a) (by rw [htrim,addressText,hm]; exact hd),htrim,
        String.ofList_toList] at ht
      exact ht

/-! ### What a worker decodes -/

section
variable {site : Site}

theorem clamp {n : UInt64} (h : n ≤ bound) : min n bound=n := if_pos h

theorem AtMost.same {x : Option UInt64} (h : AtMost bound x) (d e : UInt64) :
    min (x.getD e) bound=x.getD d := by
  obtain ⟨n,rfl,hn⟩:=h
  exact clamp hn

theorem IsAddress.each (h : IsAddress v) (op : UInt64 → Op) :
    site.each v op=.ok [op (addressOrZero v)] := by
  obtain ⟨a,ha⟩:=h
  rw [Site.each,ha.read,addressOrZero,parseAddressValue_eq_some_iff.mpr ha]
  rfl

theorem IsAddress.one (h : IsAddress v) (op : UInt64 → Op) :
    site.single v op=.ok [op (addressOrZero v)] := by
  rw [Site.single,h.single]
  rfl

theorem AddressIfGiven.read {v : Option Json} (h : AddressIfGiven v) :
    site.givenAddress v=.ok (optionalAddress (Json.solid v)) := by
  rw [optionalAddress_solid]
  cases v with
  | none => rfl
  | some w =>
    obtain ⟨a,ha⟩:=h w rfl
    rw [Site.givenAddress,IsAddress.single ⟨a,ha⟩,optionalAddress,Option.bind_some,addressOrZero,
      parseAddressValue_eq_some_iff.mpr ha]
    rfl

theorem AddressIfGiven.given {v : Option Json} (h : AddressIfGiven v) (op : Option UInt64 → Op) :
    site.given v op=.ok [op (optionalAddress (Json.solid v))] := by
  rw [Site.given,h.read]
  rfl

end

/-! ### Raw parameters -/

@[simp] theorem asStr_str (s : String) : (Json.str s).asStr=some s := rfl

@[simp] theorem asBool_bool (b : Bool) : (Json.bool b).asBool=some b := rfl

@[simp] theorem asStr_put (x : Option String) : (string.put x).asStr=x := by cases x <;> rfl

@[simp] theorem asBool_put (x : Option Bool) : (bool.put x).asBool=x := by cases x <;> rfl

theorem asU64_enc (n : UInt64) : (u64.enc n).asU64.map UInt64.ofNat=some n := u64.back n

@[simp] theorem asU64_put (x : Option UInt64) : (u64.put x).asU64.map UInt64.ofNat=x := by
  cases x with
  | none => rfl
  | some n => exact asU64_enc n

@[simp] theorem parseAddressValue_put (v : Option Json) :
    parseAddressValue (Json.put v)=optionalAddress v := by
  cases v <;> rfl

section
variable {site : Site}

theorem IsAddress.required (h : IsAddress v) (name : String) :
    required v name=.ok (addressOrZero v) := by
  obtain ⟨a,ha⟩:=h
  rw [Rpc.required,addressOrZero,parseAddressValue_eq_some_iff.mpr ha]
  rfl

end

/-! ### Every tool -/

theorem AddressList.root (h : AddressList v [a]) : rootAddress v=a := by
  cases h with
  | single h =>
    have hp:=parseAddressValue_eq_some_iff.mpr h
    rw [rootAddress,hp]
    cases h <;> rfl
  | array h =>
    cases h with
    | cons h hnil =>
      cases hnil
      rw [rootAddress]
      change ((parseAddressValue _).or _).getD 0=a
      rw [parseAddressValue_eq_some_iff.mpr h]
      rfl

/-- A site without files or databases. -/
def Site.bare : Site where
  toHost := .bare
  validatePath _ := false
  readToString _ := .error ""
  decompileStructuredScript _ _ _ _ := ""
  dscAddDylibScript _ := ""
  dscAddRegionScript _ := ""
  http := false
  releaseDbRef _ := none
  releaseRefToken _ := none
  hasActiveHandle := false

end Rpc
