import IdaMcp.Rpc.Table

/-!
# Addresses that a request names

Which addresses the operations of a request go to, against those its fields
name. Four arms check their addresses; all others put 0, or nothing, in the
place of what is no address.
-/

namespace Rpc
open Lib
variable (host : Host) {v p : Json} {α : Type} {vs : List Json}
variable {S : Schema α} {J : α → Result Job} {f : α → Json}

/-! ### Fields that name addresses -/

/-- A number, or a text of decimal digits, or one of hexadecimal digits behind `0x`. -/
inductive Denotes : Json → UInt64 → Prop
  | number (a : UInt64) : Denotes (.ofNat a.toNat) a
  | decimal {s : String} {a : UInt64} (hmark : marked 'x' 'X' (trim s.toList)=false)
      (hdigits : fromStrRadix 10 (trim s.toList)=some a) : Denotes (.str s) a
  | hexadecimal {s : String} {a : UInt64} (hmark : marked 'x' 'X' (trim s.toList)=true)
      (hdigits : fromStrRadix 16 ((trim s.toList).drop 2)=some a) : Denotes (.str s) a

theorem parseAddressValue_eq_some_iff {a : UInt64} : parseAddressValue v=some a ↔ Denotes v a := by
  constructor
  · intro h
    cases v with
    | number n =>
      cases n with
      | nat n =>
        rw [parseAddressValue,Json.asU64] at h
        by_cases hn : n < UInt64.size
        · rw [if_pos hn] at h
          cases h
          have hd:=Denotes.number (UInt64.ofNat n)
          rwa [UInt64.toNat_ofNat_of_lt' hn] at hd
        · rw [if_neg hn] at h
          cases h
      | neg n => cases h
      | float n => cases h
    | str s =>
      change addressText (trim s.toList)=some a at h
      rw [addressText] at h
      cases hm : marked 'x' 'X' (trim s.toList) with
      | false =>
        rw [hm] at h
        exact .decimal hm h
      | true =>
        rw [hm] at h
        exact .hexadecimal hm h
    | null => cases h
    | bool b => cases h
    | arr vs => cases h
    | obj fields => cases h
  · intro h
    cases h with
    | number =>
      have hu : (Json.ofNat a.toNat).asU64=some a.toNat := if_pos a.toNat_lt
      rw [parseAddressValue,hu]
      exact congrArg some UInt64.ofNat_toNat
    | decimal hm hd =>
      change addressText _=_
      rw [addressText,hm]
      exact hd
    | hexadecimal hm hd =>
      change addressText _=_
      rw [addressText,hm]
      exact hd

theorem Denotes.values {a : UInt64} (h : Denotes v a) : parseAddressValues v=.ok [a] := by
  have hv:=parseAddressValue_eq_some_iff.mpr h
  cases h with
  | number =>
    unfold parseAddressValues
    dsimp only [Json.ofNat] at hv ⊢
    rw [hv]
  | decimal =>
    unfold parseAddressValues
    dsimp only
    rw [hv]
  | hexadecimal =>
    unfold parseAddressValues
    dsimp only
    rw [hv]

theorem optionalAddress_solid (v : Option Json) :
    optionalAddress (Json.solid v)=optionalAddress v := by
  cases v with
  | none => rfl
  | some v => cases v <;> rfl

/-- What a request has to say about one address argument of an operation. -/
inductive Slot
  /-- One of the values is the address. -/
  | required (choices : List Json)
  /-- The value is the address, if there is one at all. -/
  | optional (value : Option Json)
  /-- All of the values are addresses. -/
  | each (values : List Json)
  /-- An entry of a table that begins at the value. -/
  | entry (base : Json) (stride : UInt64) (index : Nat)

namespace Slot

/-- The slot names an address. -/
def Names : Slot → UInt64 → Prop
  | .required choices,a => ∃ v ∈ choices,Denotes v a
  | .optional value,a => ∃ v,value=some v ∧ Denotes v a
  | .each values,a => ∃ v ∈ values,Denotes v a
  | .entry base stride index,a => ∃ b,Denotes base b ∧ a.toNat=b.toNat+index*stride.toNat

/-- What has to be there is. -/
def Filled : Slot → Prop
  | .required choices => ∃ v ∈ choices,∃ a,Denotes v a
  | .each values => values ≠ [] ∧ ∀ v ∈ values,∃ a,Denotes v a
  | .optional _ | .entry _ _ _ => True

end Slot

/-- The fields of a request: for the arguments of each operation, and those that have to be
there. -/
structure Naming where
  args : Nat → List Slot
  needed : List Slot

def Naming.of (slots : List Slot) : Naming := ⟨fun _ => slots,slots⟩

/-- The address arguments of an operation, in their order. -/
def Op.addresses : Op → List (List UInt64)
  | .getFunctionPrototype addr _ | .functionAt addr _ _ | .disasmFunctionAt addr _ _ _
  | .applyTypes addr _ _ _ _ _ _ _ _ _ | .inferTypes addr _ _ | .setFunctionPrototype addr _ _
  | .addrInfo addr _ _ | .declareStack addr _ _ _ _ _ | .deleteStack addr _ _ _
  | .renameStackVariable addr _ _ _ | .setStackVariableType addr _ _ _ | .getBytes addr _ _ _
  | .setComments addr _ _ _ _ | .setFunctionComment addr _ _ _ | .rename addr _ _ _
  | .patchBytes addr _ _ _ | .patchAsm addr _ _ _ => [addr.toList]
  | .disasm addr _ | .decompile addr | .stackFrame addr | .readStruct addr _ _ | .xrefsTo addr
  | .xrefsFrom addr | .readInt addr _ | .getString addr _ | .renameLvar addr _ _
  | .setLvarType addr _ _ | .basicBlocks addr | .callees addr | .callers addr
  | .callgraph addr _ _ => [[addr]]
  | .pseudocodeAt addr endAddr => [[addr],endAddr.toList]
  | .setDecompilerComment funcAddr addr _ _ => [[funcAddr],[addr]]
  | .findPaths start finish _ _ => [[start],[finish]]
  | .xrefMatrix addrs => [addrs]
  | .batchRename entries => entries.map fun e => e.1.toList
  | .openDatabase .. | .close | .shutdown | .loadDebugInfo .. | .analysisStatus
  | .listFunctions .. | .resolveFunction _ | .lookupFuncs _ | .exportFuncs .. | .disasmByName ..
  | .segments | .strings .. | .findString .. | .xrefsToString .. | .localTypes .. | .declareType ..
  | .listEnums .. | .createEnum .. | .structs .. | .structInfo .. | .xrefsToField .. | .imports ..
  | .exports .. | .entrypoints | .getGlobalValue _ | .idbMeta | .listGlobals .. | .analyzeFuncs _
  | .findBytes .. | .searchText .. | .searchImm .. | .findInsns .. | .findInsnOperands ..
  | .searchPseudocode .. | .runScript .. => []

/-- An array stands for its elements, anything else for itself. -/
def elements : Json → List Json
  | .arr vs => vs
  | v => [v]

/-- A call graph has one root. -/
def rootItem : Json → List Json
  | .arr vs => vs.head?.toList
  | v => [v]

def Method.naming (host : Host) (p : Json) : Method → Option Naming
  | .getFunctionPrototype => some (.of [.optional (p.get? "address")])
  | .getFunctionAtAddress | .inferType | .getAddressInfo =>
    (AddrInfoRequest.schema.decode p).map fun req => .of [.optional req.address]
  | .disassembleFunctionAt =>
    (DisasmFunctionAtRequest.schema.decode p).map fun req => .of [.optional req.address]
  | .applyType => (ApplyTypesRequest.schema.decode p).map fun req => .of [.optional req.address]
  | .setFunctionPrototype =>
    (SetFunctionPrototypeRequest.schema.decode p).map fun req => .of [.optional req.address]
  | .renameStackVariable =>
    (RenameStackVariableRequest.schema.decode p).map fun req => .of [.optional req.funcAddress]
  | .setStackVariableType =>
    (SetStackVariableTypeRequest.schema.decode p).map fun req => .of [.optional req.funcAddress]
  | .createStackVariable =>
    (DeclareStackRequest.schema.decode p).map fun req => .of [.optional req.address]
  | .deleteStackVariable =>
    (DeleteStackRequest.schema.decode p).map fun req => .of [.optional req.address]
  | .readBytes => (GetBytesRequest.schema.decode p).map fun req => .of [.optional req.address]
  | .setComment => (SetCommentsRequest.schema.decode p).map fun req => .of [.optional req.address]
  | .setFunctionComment =>
    (SetFunctionCommentRequest.schema.decode p).map fun req => .of [.optional req.address]
  | .renameSymbol => (RenameRequest.schema.decode p).map fun req => .of [.optional req.address]
  | .patchBytes => (PatchRequest.schema.decode p).map fun req => .of [.optional req.address]
  | .patchAssembly => (PatchAsmRequest.schema.decode p).map fun req => .of [.optional req.address]
  | .batchRename => (BatchRenameRequest.schema.decode p).map fun req =>
    .of (req.renames.map fun e => .optional e.address)
  | .disassemble => (DisasmRequest.schema.decode p).map fun req =>
    .of [.each (elements req.address)]
  | .decompileFunction =>
    (DecompileRequest.schema.decode p).map fun req => .of [.each (elements req.address)]
  | .batchDecompile => (BatchDecompileRequest.schema.decode p).map fun req =>
    .of [.each (batchItems host req.addresses)]
  | .buildXrefMatrix =>
    (XrefMatrixRequest.schema.decode p).map fun req => .of [.each (elements req.addrs)]
  | .getStackFrame | .getXrefsTo | .getXrefsFrom | .getBasicBlocks | .getCallees | .getCallers =>
    (AddressRequest.schema.decode p).map fun req => .of [.required [req.address]]
  | .readStructAtAddress =>
    (ReadStructRequest.schema.decode p).map fun req => .of [.required [req.address]]
  | .readString => (GetStringRequest.schema.decode p).map fun req => .of [.required [req.address]]
  | .readInt => some (.of [.required ((p.get? "address").toList++(p.get? "addr").toList)])
  | .renameLocalVariable =>
    (RenameLvarRequest.schema.decode p).map fun req => .of [.required [req.funcAddress]]
  | .setLocalVariableType =>
    (SetLvarTypeRequest.schema.decode p).map fun req => .of [.required [req.funcAddress]]
  | .setDecompilerComment => (SetDecompilerCommentRequest.schema.decode p).map fun req =>
    .of [.required [req.funcAddress],.required [req.address]]
  | .getPseudocodeAt => (PseudocodeAtRequest.schema.decode p).map fun req =>
    .of [.required [req.address],.optional (req.endAddress.map .str)]
  | .buildCallgraph =>
    (CallGraphRequest.schema.decode p).map fun req => .of [.required (rootItem req.roots)]
  | .findControlFlowPaths => (FindPathsRequest.schema.decode p).map fun req =>
    .of [.required [req.start],.required [req.finish]]
  | .scanMemoryTable => (TableScanRequest.schema.decode p).map fun req =>
    ⟨fun i => [.entry req.baseAddress (max (req.stride.getD 8) 1) i],
      [.required [req.baseAddress]]⟩
  | .diffPseudocode => (DiffFunctionsRequest.schema.decode p).map fun req =>
    ⟨fun i => [.required [if i=0 then req.addr1 else req.addr2]],
      [.required [req.addr1],.required [req.addr2]]⟩
  | _ => some (.of [])

/-- Every operation goes to the addresses its fields name. -/
def Naming.Covers (n : Naming) (ops : List Op) : Prop :=
  ∀ i op,ops[i]?=some op →
    List.Forall₂ (fun slot addrs => ∀ a ∈ addrs,slot.Names a) (n.args i) op.addresses

/-- What is asked of dispatch: an operation goes where the request says, and a request with
a field that names nothing where it has to is an error. -/
structure AddressSafe (host : Host) (method : String) (p : Json) : Prop where
  named : ∀ m,Method.ofName (Tools.primaryNameFor method)=some m →
    ∀ job,dispatchRpc host method p=.ok job → ∀ w,
      ∃ n,m.naming host p=some n ∧ n.Covers (job.performed w)
  refused : ∀ m,Method.ofName (Tools.primaryNameFor method)=some m →
    ∀ n,m.naming host p=some n → (∃ slot ∈ n.needed,¬slot.Filled) →
      ∃ e,dispatchRpc host method p=.error e

/-! ### One arm -/

/-- The same for what one arm makes of a request. -/
structure Follows (naming : Option Naming) (r : Result Job) : Prop where
  named : ∀ job,r=.ok job → ∃ n,naming=some n ∧ n.Covers job.ops
  refused : ∀ n,naming=some n → (∃ slot ∈ n.needed,¬slot.Filled) → ∃ e,r=.error e

theorem follows_iff {N : α → Naming}
    (hcovers : ∀ req,(∀ slot ∈ (N req).needed,slot.Filled) → ∀ job,J req=.ok job →
      (N req).Covers job.ops)
    (hlax : ∀ req,(∃ slot ∈ (N req).needed,¬slot.Filled) → ∃ job,J req=.ok job) :
    Follows ((S.decode p).map N) (parseParams S p >>= J) ↔
      ∀ n,(S.decode p).map N=some n → ∀ slot ∈ n.needed,slot.Filled := by
  cases hd : S.decode p with
  | none =>
    have hp : parseParams S p=.error .undecoded := by rw [parseParams,hd]
    rw [hp]
    exact ⟨fun _ n hn => (by cases hn),fun _ =>
      ⟨fun job hj => (by cases hj),fun n hn => (by cases hn)⟩⟩
  | some req =>
    have hp : (parseParams S p >>= J)=J req := by
      rw [parseParams,hd]
      rfl
    rw [hp]
    constructor
    · intro h n hn slot hs
      cases hn
      by_contra hf
      obtain ⟨job,hj⟩:=hlax req ⟨slot,hs,hf⟩
      obtain ⟨e,he⟩:=h.refused _ rfl ⟨slot,hs,hf⟩
      rw [hj] at he
      cases he
    · intro h
      refine ⟨fun job hj => ⟨_,rfl,hcovers req (h _ rfl) job hj⟩,?_⟩
      rintro n hn ⟨slot,hs,hf⟩
      exact absurd (h n hn slot hs) hf

theorem follows_strict {N : α → Naming} (h : ∀ req,S.decode p=some req → ∀ job,J req=.ok job →
      (∀ slot ∈ (N req).needed,slot.Filled) ∧ (N req).Covers job.ops) :
    Follows ((S.decode p).map N) (parseParams S p >>= J) := by
  cases hd : S.decode p with
  | none =>
    have hp : parseParams S p=.error .undecoded := by rw [parseParams,hd]
    rw [hp]
    exact ⟨fun job hj => (by cases hj),fun n hn => (by cases hn)⟩
  | some req =>
    have hp : (parseParams S p >>= J)=J req := by
      rw [parseParams,hd]
      rfl
    rw [hp]
    refine ⟨fun job hj => ⟨_,rfl,(h req hd job hj).2⟩,?_⟩
    rintro n hn ⟨slot,hs,hf⟩
    cases hn
    cases hj : J req with
    | error e => exact ⟨e,rfl⟩
    | ok job => exact absurd ((h req hd job hj).1 slot hs) hf

theorem follows_raw {n : Naming} {job : Job}
    (hcovers : (∀ slot ∈ n.needed,slot.Filled) → n.Covers job.ops) :
    Follows (some n) (.ok job) ↔ ∀ n',some n=some n' → ∀ slot ∈ n'.needed,slot.Filled := by
  constructor
  · intro h n' hn slot hs
    cases hn
    by_contra hf
    obtain ⟨e,he⟩:=h.refused _ rfl ⟨slot,hs,hf⟩
    cases he
  · intro h
    refine ⟨fun job' hj => ?_,?_⟩
    · cases hj
      exact ⟨n,rfl,hcovers (h n rfl)⟩
    · rintro n' hn ⟨slot,hs,hf⟩
      exact absurd (h n' hn slot hs) hf

theorem follows_free {r : Result Job} (h : ∀ job,r=.ok job → ∀ op ∈ job.ops,op.addresses=[]) :
    Follows (some (.of [])) r ↔ ∀ n,some (Naming.of [])=some n → ∀ slot ∈ n.needed,slot.Filled := by
  refine ⟨fun _ n hn slot hs => ?_,fun _ => ⟨fun job hj => ⟨_,rfl,fun i op hop => ?_⟩,?_⟩⟩
  · cases hn
    cases hs
  · rw [h job hj op (List.mem_of_getElem? hop)]
    exact .nil
  · rintro n hn ⟨slot,hs,-⟩
    cases hn
    cases hs

theorem follows_free_parse {J : α → Job} (h : ∀ req,∀ op ∈ (J req).ops,op.addresses=[]) :
    Follows (some (.of [])) (parseParams S p >>= fun req => pure (J req)) ↔
      ∀ n,some (Naming.of [])=some n → ∀ slot ∈ n.needed,slot.Filled := by
  refine follows_free fun job hj => ?_
  cases hp : parseParams S p with
  | error e =>
    rw [hp] at hj
    cases hj
  | ok req =>
    rw [hp] at hj
    cases hj
    exact h req

theorem free_single {op : Op} (h : op.addresses=[]) : ∀ o ∈ [op],o.addresses=[] := by
  intro o ho
  rw [List.mem_singleton.mp ho,h]

/-! ### Slots of one operation -/

theorem covers_single {slots : List Slot} {op : Op}
    (h : List.Forall₂ (fun slot addrs => ∀ a ∈ addrs,slot.Names a) slots op.addresses) :
    (Naming.of slots).Covers [op] := by
  intro i o ho
  cases i with
  | zero =>
    cases ho
    exact h
  | succ i => cases ho

theorem names_optional (v : Option Json) :
    ∀ a ∈ (optionalAddress v).toList,(Slot.optional v).Names a := by
  intro a ha
  have ha:=Option.mem_toList.mp ha
  obtain ⟨w,rfl,hw⟩:=Option.bind_eq_some_iff.mp ha
  exact ⟨w,rfl,parseAddressValue_eq_some_iff.mp hw⟩

theorem names_required (h : (Slot.required [v]).Filled) :
    ∀ a ∈ [addressOrZero v],(Slot.required [v]).Names a := by
  intro a ha
  obtain ⟨w,hw,b,hb⟩:=h
  rw [List.mem_singleton] at hw ha
  subst hw
  rw [ha,addressOrZero,parseAddressValue_eq_some_iff.mpr hb]
  exact ⟨w,List.mem_singleton_self _,hb⟩

theorem follows_optional {f : α → Option Json} (h : ∀ req job,J req=.ok job →
      ∃ op,job.ops=[op] ∧ op.addresses=[(optionalAddress (f req)).toList]) :
    Follows ((S.decode p).map fun req => .of [.optional (f req)]) (parseParams S p >>= J) ↔
      ∀ n,((S.decode p).map fun req => Naming.of [.optional (f req)])=some n →
        ∀ slot ∈ n.needed,slot.Filled := by
  refine follows_iff (fun req _ job hj => ?_) fun req hopen => ?_
  · obtain ⟨op,hops,haddrs⟩:=h req job hj
    rw [hops]
    apply covers_single
    rw [haddrs]
    exact .cons (names_optional _) .nil
  · obtain ⟨slot,hs,hf⟩:=hopen
    rw [List.mem_singleton.mp hs] at hf
    exact absurd trivial hf

theorem follows_required {J : α → Op} (h : ∀ req,(J req).addresses=[[addressOrZero (f req)]]) :
    Follows ((S.decode p).map fun req => .of [.required [f req]])
        (parseParams S p >>= fun req => pure (.plain (J req))) ↔
      ∀ n,((S.decode p).map fun req => Naming.of [.required [f req]])=some n →
        ∀ slot ∈ n.needed,slot.Filled := by
  refine follows_iff (fun req hf job hj => ?_) fun req _ => ⟨_,rfl⟩
  cases hj
  apply covers_single
  rw [h req]
  exact .cons (names_required (hf _ (List.mem_singleton_self _))) .nil

theorem follows_required_two {g : α → Json} {J : α → Op}
    (h : ∀ req,(J req).addresses=[[addressOrZero (f req)],[addressOrZero (g req)]]) :
    Follows ((S.decode p).map fun req => .of [.required [f req],.required [g req]])
        (parseParams S p >>= fun req => pure (.plain (J req))) ↔
      ∀ n,((S.decode p).map fun req => Naming.of [.required [f req],.required [g req]])=some n →
        ∀ slot ∈ n.needed,slot.Filled := by
  refine follows_iff (fun req hf job hj => ?_) fun req _ => ⟨_,rfl⟩
  cases hj
  apply covers_single
  rw [h req]
  exact .cons (names_required (hf _ (List.mem_cons_self ..))) (.cons (names_required
    (hf _ (List.mem_cons_of_mem _ (List.mem_singleton_self _)))) .nil)

/-- The request names what the arm does not check. -/
def Method.AddressSound (host : Host) (p : Json) : Method → Prop
  | .disassemble | .decompileFunction | .diffPseudocode => True
  | .scanMemoryTable => ∀ req,TableScanRequest.schema.decode p=some req →
      ∀ base,Denotes req.baseAddress base →
        TableFits base.toNat (max (req.stride.getD 8) 1).toNat (min (req.count.getD 16) 256).toNat
  | m => ∀ n,m.naming host p=some n → ∀ slot ∈ n.needed,slot.Filled

theorem names_each : ∀ a ∈ vs.filterMap parseAddressValue,(Slot.each vs).Names a := by
  intro a ha
  obtain ⟨v,hv,hp⟩:=List.mem_filterMap.mp ha
  exact ⟨v,hv,parseAddressValue_eq_some_iff.mp hp⟩

theorem parseAddressItems_eq_ok {i : Nat} {addrs : List UInt64}
    (h : parseAddressItems i vs=.ok addrs) :
    addrs=vs.filterMap parseAddressValue ∧ ∀ v ∈ vs,∃ a,Denotes v a := by
  induction vs generalizing i addrs with
  | nil =>
    cases h
    exact ⟨rfl,fun v hv => (by cases hv)⟩
  | cons v vs ih =>
    rw [parseAddressItems] at h
    cases hv : parseAddressValue v with
    | none =>
      rw [hv] at h
      cases h
    | some a =>
      rw [hv] at h
      cases hr : parseAddressItems (i+1) vs with
      | error e =>
        rw [hr] at h
        cases h
      | ok rest =>
        rw [hr] at h
        cases h
        obtain ⟨hrest,hall⟩:=ih hr
        refine ⟨by rw [List.filterMap_cons_some hv,← hrest],fun w hw => ?_⟩
        rcases List.mem_cons.mp hw with rfl | hw
        · exact ⟨a,parseAddressValue_eq_some_iff.mp hv⟩
        · exact hall w hw

theorem parseAddressValues_eq_ok {addrs : List UInt64} (h : parseAddressValues v=.ok addrs) :
    addrs=(elements v).filterMap parseAddressValue ∧ (Slot.each (elements v)).Filled := by
  unfold parseAddressValues at h
  split at h
  · next vs =>
    cases hp : parseAddressItems 0 vs with
    | error e =>
      rw [hp] at h
      cases h
    | ok as =>
      rw [hp] at h
      obtain ⟨has,hall⟩:=parseAddressItems_eq_ok hp
      cases as with
      | nil => cases h
      | cons a as =>
        cases h
        refine ⟨has,?_,hall⟩
        rintro hnil
        rw [show vs=[] from hnil] at has
        cases has
  · next harr =>
    have hel : elements v=[v] := by
      cases v with
      | arr vs => exact absurd rfl (harr vs)
      | null | bool _ | number _ | str _ | obj _ => rfl
    rw [hel]
    cases hv : parseAddressValue v with
    | none =>
      rw [hv] at h
      cases h
    | some a =>
      rw [hv] at h
      cases h
      refine ⟨by rw [List.filterMap_cons_some hv]; rfl,List.cons_ne_nil _ _,fun w hw => ?_⟩
      rw [List.mem_singleton.mp hw]
      exact ⟨a,parseAddressValue_eq_some_iff.mp hv⟩

theorem covers_each {op : UInt64 → Op} (hop : ∀ a,(op a).addresses=[[a]]) :
    (Naming.of [.each vs]).Covers ((vs.filterMap parseAddressValue).map op) := by
  intro i o ho
  obtain ⟨a,ha,rfl⟩:=List.mem_map.mp (List.mem_of_getElem? ho)
  rw [hop]
  refine .cons (fun b hb => ?_) .nil
  rw [List.mem_singleton.mp hb]
  exact names_each a ha

theorem follows_perAddress (key : String) (form : Json → Json) {op : α → UInt64 → Op}
    (hop : ∀ req a,(op req a).addresses=[[a]]) :
    Follows ((S.decode p).map fun req => .of [.each (elements (f req))])
      (parseParams S p >>= fun req => parseAddressValues (f req) >>= fun addrs =>
        pure (perAddress key form (op req) addrs)) := by
  refine follows_strict fun req _ job hj => ?_
  cases ha : parseAddressValues (f req) with
  | error e =>
    rw [ha] at hj
    cases hj
  | ok addrs =>
    rw [ha] at hj
    cases hj
    obtain ⟨rfl,hfilled⟩:=parseAddressValues_eq_ok ha
    refine ⟨fun slot hs => by rwa [List.mem_singleton.mp hs],?_⟩
    rw [ops_perAddress]
    exact covers_each (hop req)

theorem names_root {roots : Json} (h : (Slot.required (rootItem roots)).Filled) :
    ∀ a ∈ [rootAddress roots],(Slot.required (rootItem roots)).Names a := by
  intro a ha
  obtain ⟨v,hv,b,hb⟩:=h
  have hp:=parseAddressValue_eq_some_iff.mpr hb
  have hroot : rootAddress roots=b := by
    cases roots with
    | arr vs =>
      have hv : vs.head?=some v := Option.mem_toList.mp hv
      simp [rootAddress,Json.asArray,hv,hp]
    | _ =>
      cases List.mem_singleton.mp hv
      simp [rootAddress,Json.asArray,hp]
  rw [List.mem_singleton.mp ha,hroot]
  exact ⟨v,hv,hb⟩

theorem names_either {u v : Option Json} (h : (Slot.required (u.toList++v.toList)).Filled) :
    ∀ a ∈ [((u.bind parseAddressValue).or (v.bind parseAddressValue)).getD 0],
      (Slot.required (u.toList++v.toList)).Names a := by
  intro a ha
  rw [List.mem_singleton] at ha
  have hfrom : ∀ {w : Option Json} {b},w.bind parseAddressValue=some b → w.toList ⊆ u.toList++
    v.toList →
      (Slot.required (u.toList++v.toList)).Names b := by
    intro w b hb hsub
    obtain ⟨x,rfl,hx⟩:=Option.bind_eq_some_iff.mp hb
    exact ⟨x,hsub (List.mem_singleton_self _),parseAddressValue_eq_some_iff.mp hx⟩
  cases hu : u.bind parseAddressValue with
  | some b =>
    rw [ha,hu]
    exact hfrom hu (List.subset_append_left _ _)
  | none =>
    cases hv : v.bind parseAddressValue with
    | some b =>
      rw [ha,hu,hv]
      exact hfrom hv (List.subset_append_right _ _)
    | none =>
      obtain ⟨x,hx,b,hb⟩:=h
      have hp:=parseAddressValue_eq_some_iff.mpr hb
      rcases List.mem_append.mp hx with hx | hx
      · rw [Option.mem_toList.mp hx,Option.bind_some,hp] at hu
        cases hu
      · rw [Option.mem_toList.mp hx,Option.bind_some,hp] at hv
        cases hv

theorem follows_diff (p : Json) :
    Follows (Method.diffPseudocode.naming host p) (Method.diffPseudocode.dispatch host p) := by
  refine follows_strict fun req _ job hj => ?_
  cases h1 : parseAddressValue req.addr1 with
  | none =>
    rw [required,h1] at hj
    cases hj
  | some a =>
    cases h2 : parseAddressValue req.addr2 with
    | none =>
      rw [required,h1,required,h2] at hj
      cases hj
    | some b =>
      rw [required,h1,required,h2] at hj
      cases hj
      have hd1:=parseAddressValue_eq_some_iff.mp h1
      have hd2:=parseAddressValue_eq_some_iff.mp h2
      refine ⟨fun slot hs => ?_,fun i op hop => ?_⟩
      · rcases List.mem_cons.mp hs with rfl | hs
        · exact ⟨_,List.mem_singleton_self _,a,hd1⟩
        · rw [List.mem_singleton.mp hs]
          exact ⟨_,List.mem_singleton_self _,b,hd2⟩
      · cases i with
        | zero =>
          cases hop
          refine .cons (fun c hc => ?_) .nil
          rw [List.mem_singleton.mp hc]
          exact ⟨_,List.mem_singleton_self _,hd1⟩
        | succ i =>
          cases i with
          | zero =>
            cases hop
            refine .cons (fun c hc => ?_) .nil
            rw [List.mem_singleton.mp hc]
            exact ⟨_,List.mem_singleton_self _,hd2⟩
          | succ i => cases hop

theorem covers_table {base : UInt64} (h : Denotes v base) (stride : UInt64) (count : Nat) :
    Naming.Covers ⟨fun i => [.entry v stride i],[.required [v]]⟩ (scanTable base stride count).ops ↔
      TableFits base.toNat stride.toNat count := by
  have hops : ∀ i,(scanTable base stride count).ops[i]?=
      if i < count then some
        (.getBytes (some (entryAddress base stride i)) none 0 stride) else none := by
    intro i
    by_cases hi : i < count
    · simp [scanTable,hi]
    · simp [scanTable,hi]
  constructor
  · intro hc i hi
    have hop:=hc i _ ((hops i).trans (if_pos hi))
    cases hop with
    | cons hname _ =>
      obtain ⟨b,hb,hn⟩:=hname _ (List.mem_singleton_self _)
      have hbase : b=base :=
        Option.some.inj ((parseAddressValue_eq_some_iff.mpr hb).symm.trans
          (parseAddressValue_eq_some_iff.mpr h))
      rw [← hbase,← hn]
      exact UInt64.toNat_lt _
  · intro hfits i op hop
    rw [hops] at hop
    by_cases hi : i < count
    · rw [if_pos hi] at hop
      cases hop
      refine .cons (fun a ha => ⟨base,h,?_⟩) .nil
      rw [List.mem_singleton.mp ha,entryAddress_eq,UInt64.toNat_ofNat_of_lt' (hfits i hi)]
    · rw [if_neg hi] at hop
      cases hop

theorem follows_table_iff (p : Json) :
    Follows (Method.scanMemoryTable.naming host p) (Method.scanMemoryTable.dispatch host p) ↔
      Method.scanMemoryTable.AddressSound host p := by
  constructor
  · intro h req hd base hbase
    have hj : Method.scanMemoryTable.dispatch host p=.ok
        (scanTable base (max (req.stride.getD 8) 1) (min (req.count.getD 16) 256).toNat) := by
      simp only [Method.dispatch]
      rw [parseParams_eq_ok.mpr hd]
      change (required req.baseAddress "base_address" >>= _)=_
      rw [required_eq_ok.mpr (parseAddressValue_eq_some_iff.mpr hbase)]
      rfl
    obtain ⟨n,hn,hc⟩:=h.named _ hj
    rw [Method.naming,hd] at hn
    cases hn
    exact (covers_table hbase _ _).mp hc
  · intro h
    refine follows_strict fun req hd job hj => ?_
    cases hb : parseAddressValue req.baseAddress with
    | none =>
      rw [required,hb] at hj
      cases hj
    | some base =>
      rw [required,hb] at hj
      cases hj
      have hbase:=parseAddressValue_eq_some_iff.mp hb
      refine ⟨fun slot hs => ?_,(covers_table hbase _ _).mpr (h req hd base hbase)⟩
      rw [List.mem_singleton.mp hs]
      exact ⟨_,List.mem_singleton_self _,base,hbase⟩

theorem Method.follows_iff_sound (p : Json) (m : Method) :
    Follows (m.naming host p) (m.dispatch host p) ↔ m.AddressSound host p := by
  cases m with
  | getFunctionPrototype =>
    exact follows_raw fun _ => covers_single (.cons (names_optional _) .nil)
  | getFunctionAtAddress | inferType | getAddressInfo | disassembleFunctionAt | applyType
  | setFunctionPrototype | renameStackVariable | setStackVariableType | createStackVariable
  | deleteStackVariable | readBytes | setComment | setFunctionComment | renameSymbol
  | patchAssembly =>
    refine follows_optional fun req job hj => ?_
    cases hj
    exact ⟨_,rfl,rfl⟩
  | patchBytes =>
    refine follows_optional fun req job hj => ?_
    cases hb : parsePatchBytes req.bytes with
    | error e =>
      rw [hb] at hj
      cases hj
    | ok bytes =>
      rw [hb] at hj
      cases hj
      exact ⟨_,rfl,rfl⟩
  | batchRename =>
    refine follows_iff (fun req _ job hj => ?_) fun req hopen => ?_
    · cases hj
      apply covers_single
      change List.Forall₂ _ _ (List.map _ (List.map _ _))
      rw [List.map_map,List.forall₂_map_left_iff,List.forall₂_map_right_iff,List.forall₂_same]
      exact fun e _ => names_optional e.address
    · obtain ⟨slot,hs,hf⟩:=hopen
      obtain ⟨e,-,rfl⟩:=List.mem_map.mp hs
      exact absurd trivial hf
  | getStackFrame | getXrefsTo | getXrefsFrom | getBasicBlocks | getCallees | getCallers
  | readStructAtAddress | readString | renameLocalVariable | setLocalVariableType =>
    exact follows_required fun _ => rfl
  | setDecompilerComment | findControlFlowPaths => exact follows_required_two fun _ => rfl
  | getPseudocodeAt =>
    refine follows_iff (fun req hf job hj => ?_) fun req _ => ⟨_,rfl⟩
    cases hj
    have hend:=names_optional (req.endAddress.map .str)
    rw [optionalAddress,Option.bind_map] at hend
    exact covers_single (.cons (names_required (hf _ (List.mem_cons_self ..))) (.cons hend .nil))
  | readInt =>
    exact follows_raw fun hf => covers_single
      (.cons (names_either (hf _ (List.mem_singleton_self _))) .nil)
  | buildCallgraph =>
    refine follows_iff (fun req hf job hj => ?_) fun req _ => ⟨_,rfl⟩
    cases hj
    exact covers_single (.cons (names_root (hf _ (List.mem_singleton_self _))) .nil)
  | buildXrefMatrix =>
    refine follows_iff (fun req hf job hj => ?_) fun req _ => ⟨_,rfl⟩
    cases hj
    refine covers_single (.cons (fun a ha => names_each a ?_) .nil)
    cases hv : req.addrs with
    | arr vs => rwa [matrixAddresses,hv] at ha
    | _ =>
      rw [matrixAddresses,hv] at ha
      cases ha
  | batchDecompile =>
    refine follows_iff (fun req hf job hj => ?_) fun req _ => ⟨_,rfl⟩
    cases hj
    exact covers_each fun _ => rfl
  | disassemble => exact iff_of_true (follows_perAddress "disasm" id fun _ _ => rfl) trivial
  | decompileFunction => exact iff_of_true (follows_perAddress "code" hinted fun _ _ => rfl) trivial
  | diffPseudocode => exact iff_of_true (follows_diff host p) trivial
  | scanMemoryTable => exact follows_table_iff host p
  | loadDebugInfo | listFunctions | getFunctionByName | batchLookupFunctions | exportFunctions
  | disassembleFunction | getXrefsToString | listLocalTypes | declareCType | listEnums | createEnum
  | listStructs | getStructInfo | getXrefsToStructField | listImports | listExports
  | readGlobalVariable | listGlobals | runAutoAnalysis | searchInstructions
  | searchInstructionOperands | runScript | searchPseudocode =>
    exact follows_free_parse fun _ => free_single rfl
  | searchBytes =>
    refine follows_free_parse fun req op hop => ?_
    rw [ops_findEach] at hop
    obtain ⟨pattern,-,rfl⟩:=List.mem_map.mp hop
    rfl
  | openDatabase | close | shutdown | getAnalysisStatus | listSegments | listEntryPoints
  | getDatabaseInfo | searchText | searchImm =>
    refine follows_free fun job hj => ?_
    cases hj
    exact free_single rfl
  | listStrings =>
    refine follows_free fun job hj => ?_
    rw [Method.dispatch] at hj
    cases hq : (rawStr p "query").or (rawStr p "filter") with
    | some q =>
      rw [hq] at hj
      cases hj
      exact free_single rfl
    | none =>
      rw [hq] at hj
      cases hj
      exact free_single rfl

/-! ### All requests -/

theorem addressSafe_iff_follows (method : String) (p : Json) :
    AddressSafe host method p ↔ ∀ m,Method.ofName (Tools.primaryNameFor method)=some m →
      Follows (m.naming host p) (m.dispatch host p) := by
  have hdis : ∀ {m},Method.ofName (Tools.primaryNameFor method)=some m →
      dispatchRpc host method p=m.dispatch host p := by
    intro m hm
    rw [dispatchRpc,hm]
  constructor
  · intro h m hm
    refine ⟨fun job hj => ?_,fun n hn hopen => ?_⟩
    · have hn:=h.named m hm job ((hdis hm).trans hj) Plan.willing
      rwa [Plan.performed_willing] at hn
    · obtain ⟨e,he⟩:=h.refused m hm n hn hopen
      exact ⟨e,(hdis hm).symm.trans he⟩
  · intro h
    refine ⟨fun m hm job hj w => ?_,fun m hm n hn hopen => ?_⟩
    · obtain ⟨n,hn,hc⟩:=(h m hm).named job ((hdis hm).symm.trans hj)
      refine ⟨n,hn,fun i op hop => hc i op ?_⟩
      rw [Plan.performed,List.getElem?_take] at hop
      by_cases hi : i < (job.answers w).length
      · rwa [if_pos hi] at hop
      · rw [if_neg hi] at hop
        cases hop
    · obtain ⟨e,he⟩:=(h m hm).refused n hn hopen
      exact ⟨e,(hdis hm).trans he⟩

/-- Addresses are safe exactly where the request itself names every address it needs, and a
table has no entry past the last address. -/
theorem addressSafe_iff (host : Host) (method : String) (p : Json) :
    AddressSafe host method p ↔ ∀ m,Method.ofName (Tools.primaryNameFor method)=some m →
      m.AddressSound host p := by
  rw [addressSafe_iff_follows]
  exact forall₂_congr fun m _ => m.follows_iff_sound host p

/-- The references to `x` are the references to address 0. -/
theorem address_substituted :
    dispatchRpc .bare "get_xrefs_to" (.ofFields [("address",.str "x")])=.ok (.plain (.xrefsTo 0)) ∧
      ¬AddressSafe .bare "get_xrefs_to" (.ofFields [("address",.str "x")]) := by
  have hd : AddressRequest.schema.decode (.ofFields [("address",.str "x")])=
      some ⟨none,.str "x"⟩ := by rfl
  have hj : Method.getXrefsTo.dispatch .bare (.ofFields [("address",.str "x")])=
      .ok (.plain (.xrefsTo 0)) := by
    rw [Method.dispatch,atAddress,parseParams_eq_ok.mpr hd]
    rfl
  have hm : dispatchRpc .bare "get_xrefs_to" (.ofFields [("address",.str "x")])=_ :=
    dispatchRpc_name .bare Method.getXrefsTo _
  have hname : Method.ofName (Tools.primaryNameFor "get_xrefs_to")=some .getXrefsTo := by
    rw [show "get_xrefs_to"=Method.getXrefsTo.name from rfl,Method.primary]
    exact Method.ofName_eq_some_iff.mpr rfl
  have hempty : ¬(Slot.required [.str "x"]).Filled := by
    rintro ⟨v,hv,a,ha⟩
    rw [List.mem_singleton.mp hv] at ha
    have hp:=parseAddressValue_eq_some_iff.mpr ha
    cases hp
  refine ⟨hm.trans hj,fun h => ?_⟩
  obtain ⟨e,he⟩:=h.refused .getXrefsTo hname (.of [.required [.str "x"]])
    (by rw [Method.naming,hd]; rfl) ⟨_,List.mem_singleton_self _,hempty⟩
  rw [hm,hj] at he
  cases he

end Rpc
