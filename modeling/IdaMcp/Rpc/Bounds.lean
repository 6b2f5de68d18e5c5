import IdaMcp.Rpc.Dispatch
import IdaMcp.Ida.Disasm

/-!
# Work per request

How many elements the handlers of `list_functions`, `disassemble` and
`disassemble_function` ask for beforehand, and how many addresses
`get_pseudocode_at` looks at, against the documented maxima. The worker's loop
hands an operation to its handler with the arguments as they are.
-/

namespace Rpc
open Lib Ida

/-- What is spent on one of the operations that are looked at here: elements and addresses. -/
def Op.spent (toLowercase : String → String) (idb : Option Idb) : Op → Option (Nat × Nat)
  | .listFunctions offset limit filter _ =>
    let h:=handleListFunctions toLowercase idb offset limit filter
    some (h.allocated,h.scanned)
  | .disasm addr count =>
    let h:=handleDisasm idb addr count
    some (h.allocated,h.scanned)
  | .disasmByName name count =>
    let h:=handleDisasmByName idb name count
    some (h.allocated,h.scanned)
  | .pseudocodeAt addr endAddr =>
    let h:=handlePseudocodeAt idb addr endAddr
    some (h.allocated,h.scanned)
  | _ => none

/-- The documented maximum of `limit` or `count`. -/
def Op.maxElements : Op → Nat
  | .listFunctions _ _ _ _ => 10000
  | .disasm _ _ | .disasmByName _ _ => 1000
  | _ => 0

/-- The size of the function that contains the address of a scan. -/
def Op.scope (idb : Option Idb) : Op → Nat
  | .pseudocodeAt addr _ => ((idb.bind (·.functionAt addr)).map Function.size).getD 0
  | _ => 0

/-- The work for an operation stays within its bounds. -/
def Op.Bounded (toLowercase : String → String) (idb : Option Idb) (op : Op) : Prop :=
  ∀ spent,op.spent toLowercase idb=some spent →
    spent.1 ≤ op.maxElements ∧ spent.2 ≤ op.scope idb

/-- The work for a request does, whatever the worker answers in between. -/
def Bounded (host : Host) (idb : Option Idb) (method : String) (p : Json) : Prop :=
  ∀ job,dispatchRpc host method p=.ok job → ∀ w,∀ op∈job.performed w,
    op.Bounded host.toLowercase idb

/-- What the arguments have to keep to for that. -/
def Op.Modest (idb : Option Idb) : Op → Prop
  | .listFunctions _ limit _ _ => idb.isSome → limit.toNat ≤ 10000
  | .disasm _ count => idb.isSome → count.toNat ≤ 1000
  | .disasmByName name count => (idb.bind (·.functionNamed name)).isSome → count.toNat ≤ 1000
  | .pseudocodeAt addr endAddr => ∀ db,idb=some db → ∀ f,db.Decompiles addr f →
      ∀ finish,endAddr=some finish → finish.toNat-addr.toNat ≤ f.size
  | _ => True

section Handlers
variable (toLowercase : String → String)

theorem listFunctions_bounded_iff (idb : Option Idb) (offset limit : UInt64)
    (filter : Option String) (timeout : Option UInt64) :
    (Op.listFunctions offset limit filter timeout).Bounded toLowercase idb ↔
      (Op.listFunctions offset limit filter timeout).Modest idb := by
  cases idb with
  | none => simp [Op.Bounded,Op.Modest,Op.spent,handleListFunctions,Handled.fail]
  | some db => simp [Op.Bounded,Op.Modest,Op.spent,handleListFunctions,withCapacity,
      Op.maxElements]

theorem disasm_bounded_iff (idb : Option Idb) (addr count : UInt64) :
    (Op.disasm addr count).Bounded toLowercase idb ↔ (Op.disasm addr count).Modest idb := by
  cases idb with
  | none => simp [Op.Bounded,Op.Modest,Op.spent,handleDisasm,Handled.fail]
  | some db => simp [Op.Bounded,Op.Modest,Op.spent,handleDisasm,withCapacity,
      Op.maxElements]

theorem disasmByName_bounded_iff (idb : Option Idb) (name : String) (count : UInt64) :
    (Op.disasmByName name count).Bounded toLowercase idb ↔
      (Op.disasmByName name count).Modest idb := by
  cases idb with
  | none => simp [Op.Bounded,Op.Modest,Op.spent,handleDisasmByName,Handled.fail]
  | some db =>
    cases hn : db.functionNamed name with
    | none => simp [Op.Bounded,Op.Modest,Op.spent,handleDisasmByName,hn,Handled.fail]
    | some f =>
      simp [Op.Bounded,Op.Modest,Op.spent,handleDisasmByName,hn,handleDisasm,withCapacity,
      Op.maxElements]

theorem pseudocodeAt_bounded_iff (idb : Option Idb) (addr : UInt64) (endAddr : Option UInt64) :
    (Op.pseudocodeAt addr endAddr).Bounded toLowercase idb ↔
      (Op.pseudocodeAt addr endAddr).Modest idb := by
  cases idb with
  | none => simp [Op.Bounded,Op.Modest,Op.spent,handlePseudocodeAt,Handled.fail]
  | some db =>
    by_cases hd : db.decompilerAvailable
    · cases hf : db.functionAt addr with
      | none =>
        simp [Op.Bounded,Op.Modest,Op.spent,handlePseudocodeAt,Handled.fail,hd,hf,
          Idb.Decompiles]
      | some f =>
        cases hc : db.decompile f with
        | error message =>
          simp [Op.Bounded,Op.Modest,Op.spent,handlePseudocodeAt,Handled.fail,hd,hf,hc,
            Idb.Decompiles]
        | ok cfunc =>
          -- one address without an end, and a function has one at least
          have hpos:=f.size_pos
          cases endAddr with
          | none =>
            simp [Op.Bounded,Op.Modest,Op.spent,handlePseudocodeAt,hd,hf,hc,Op.scope]
            exact hpos
          | some finish =>
            simp [Op.Bounded,Op.Modest,Op.spent,handlePseudocodeAt,hd,hf,hc,Op.scope,
              Scan.scanned_range,Idb.Decompiles]
    · simp [Op.Bounded,Op.Modest,Op.spent,handlePseudocodeAt,Handled.fail,hd,Idb.Decompiles]

theorem Op.bounded_iff (idb : Option Idb) (op : Op) :
    op.Bounded toLowercase idb ↔ op.Modest idb := by
  cases op with
  | listFunctions offset limit filter timeout => exact listFunctions_bounded_iff ..
  | disasm addr count => exact disasm_bounded_iff ..
  | disasmByName name count => exact disasmByName_bounded_iff ..
  | pseudocodeAt addr endAddr => exact pseudocodeAt_bounded_iff ..
  | _ => simp [Op.Bounded,Op.Modest,Op.spent]

end Handlers

/-- What the parameters of a request have to keep to. -/
def Method.Modest (idb : Option Idb) (p : Json) : Method → Prop
  | .listFunctions => ∀ req,ListFunctionsRequest.schema.decode p=some req →
      idb.isSome → (req.limit.getD 100).toNat ≤ 10000
  | .disassemble => ∀ req,DisasmRequest.schema.decode p=some req →
      ∀ addrs,parseAddressValues req.address=.ok addrs →
      idb.isSome → (req.count.getD 10).toNat ≤ 1000
  | .disassembleFunction => ∀ req,DisasmByNameRequest.schema.decode p=some req →
      (idb.bind (·.functionNamed req.name)).isSome → (req.count.getD 10).toNat ≤ 1000
  | .getPseudocodeAt => ∀ req,PseudocodeAtRequest.schema.decode p=some req →
      ∀ db,idb=some db → ∀ f,db.Decompiles (addressOrZero req.address) f →
      ∀ text,req.endAddress=some text → ∀ finish,parseAddressValue (.str text)=some finish →
      finish.toNat-(addressOrZero req.address).toNat ≤ f.size
  | _ => True

theorem Method.always_modest_iff (host : Host) (idb : Option Idb) (p : Json) (m : Method) :
    Always (fun job => ∀ op∈job.ops,op.Modest idb) (m.dispatch host p) ↔ m.Modest idb p := by
  cases m with
  | disassemble =>
    simp only [Method.dispatch,always_bind,always_pure,parseParams_eq_ok,ops_perAddress,
      List.forall_mem_map,Op.Modest,Method.Modest]
    constructor
    · intro h req hr addrs ha
      obtain ⟨a,ha'⟩:=List.exists_mem_of_ne_nil addrs (parseAddressValues_ne_nil ha)
      exact h req hr addrs ha a ha'
    · intro h req hr addrs ha a _
      exact h req hr addrs ha
  | getPseudocodeAt =>
    simp only [Method.dispatch,always_bind,always_pure,parseParams_eq_ok,Job.ops_plain,
      List.forall_mem_singleton,Op.Modest,Method.Modest,Option.bind_eq_some_iff]
    constructor
    · intro h req hr db hd f hf text ht finish hp
      exact h req hr db hd f hf finish ⟨text,ht,hp⟩
    · rintro h req hr db hd f hf finish ⟨text,ht,hp⟩
      exact h req hr db hd f hf text ht finish hp
  | listStrings =>
    simp only [Method.dispatch]
    split <;> simp [Op.Modest,Method.Modest]
  | _ =>
    simp only [Method.dispatch,atAddress,atTarget,paginated,filtered,decompileEach,scanTable,
      diffJob,always_bind,always_pure,always_ok,parseParams_eq_ok,Job.ops_plain,Job.ops_under,
      Job.ops_acknowledged,ops_perAddress,ops_findEach,List.forall_mem_singleton,
      List.forall_mem_map,List.forall_mem_cons,Op.Modest,Method.Modest]
    try simp

theorem bounded_iff_always (host : Host) (idb : Option Idb) (method : String) (p : Json) :
    Bounded host idb method p ↔
      Always (fun job => ∀ op∈job.ops,op.Modest idb) (dispatchRpc host method p) := by
  constructor
  · intro h job hj op hop
    have hp : op∈job.performed Plan.willing := by
      rw [Plan.performed_willing]
      exact hop
    exact (Op.bounded_iff _ idb op).mp (h job hj _ op hp)
  · intro h job hj w op hop
    exact (Op.bounded_iff _ idb op).mpr (h job hj op (Plan.mem_performed hop))

/-- Nothing on the way looks at the maxima: the parameters themselves have to keep to them. -/
theorem bounded_iff_modest (host : Host) (idb : Option Idb) (method : String) (p : Json) :
    Bounded host idb method p ↔
      ∀ m,Method.ofName (Tools.primaryNameFor method)=some m → m.Modest idb p := by
  rw [bounded_iff_always,dispatchRpc]
  cases hm : Method.ofName (Tools.primaryNameFor method) with
  | none => simp
  | some m =>
    rw [Method.always_modest_iff]
    simp

/-- A limit of all sixty-four bits is asked for as it is. -/
theorem limit_unbounded :
    ¬Bounded .bare (some Idb.empty) "list_functions"
      (.ofFields [("limit",.ofNat (UInt64.size-1))]) := by
  rw [bounded_iff_always,show "list_functions"=Method.listFunctions.name from rfl,dispatchRpc_name,
    Method.always_modest_iff]
  intro h
  have hd : ListFunctionsRequest.schema.decode (.ofFields [("limit",.ofNat (UInt64.size-1))])=
      some ⟨none,none,some (UInt64.ofNat (UInt64.size-1)),none,none⟩ := by rfl
  exact absurd (h _ hd rfl) (by decide)

end Rpc
