import IdaMcp.Rpc.Values

/-!
# What a worker is asked to do (`src/ida/worker_trait.rs`)

The operations of `WorkerDispatch` with their arguments, and the answer to a
request as a job: the operations it performs one after the other, whether one
that fails is the last, and what is replied.
-/

namespace Rpc
open Lib

inductive Op
  | openDatabase (path : String) (loadDebugInfo : Bool) (debugInfoPath : Option String)
      (debugInfoVerbose force : Bool) (fileType : Option String) (autoAnalyse : Bool)
      (extraArgs : List String)
  | close
  | shutdown
  | loadDebugInfo (path : Option String) (verbose : Bool)
  | analysisStatus
  | listFunctions (offset limit : UInt64) (filter : Option String) (timeoutSecs : Option UInt64)
  | resolveFunction (name : String)
  | getFunctionPrototype (addr : Option UInt64) (name : Option String)
  | functionAt (addr : Option UInt64) (name : Option String) (offset : UInt64)
  | lookupFuncs (queries : List String)
  | exportFuncs (offset limit : UInt64)
  | disasm (addr count : UInt64)
  | disasmByName (name : String) (count : UInt64)
  | disasmFunctionAt (addr : Option UInt64) (name : Option String) (offset count : UInt64)
  | decompile (addr : UInt64)
  | pseudocodeAt (addr : UInt64) (endAddr : Option UInt64)
  | segments
  | strings (offset limit : UInt64) (filter : Option String) (timeoutSecs : Option UInt64)
  | findString (query : String) (exact caseInsensitive : Bool) (offset limit : UInt64)
      (timeoutSecs : Option UInt64)
  | xrefsToString (query : String) (exact caseInsensitive : Bool) (offset limit maxXrefs : UInt64)
      (timeoutSecs : Option UInt64)
  | localTypes (offset limit : UInt64) (filter : Option String) (timeoutSecs : Option UInt64)
  | declareType (decl : String) (relaxed replace multi : Bool)
  | applyTypes (addr : Option UInt64) (name : Option String) (offset : UInt64)
      (stackOffset : Option Int64) (stackName decl typeName : Option String)
      (relaxed delay strict : Bool)
  | inferTypes (addr : Option UInt64) (name : Option String) (offset : UInt64)
  | setFunctionPrototype (addr : Option UInt64) (name : Option String) (prototype : String)
  | listEnums (filter : Option String) (offset limit : UInt64)
  | createEnum (decl : String) (replace : Bool)
  | addrInfo (addr : Option UInt64) (name : Option String) (offset : UInt64)
  | declareStack (addr : Option UInt64) (name : Option String) (offset : Int64)
      (varName : Option String) (decl : String) (relaxed : Bool)
  | deleteStack (addr : Option UInt64) (name : Option String) (offset : Option Int64)
      (varName : Option String)
  | stackFrame (addr : UInt64)
  | renameStackVariable (funcAddr : Option UInt64) (funcName : Option String)
      (oldName newName : String)
  | setStackVariableType (funcAddr : Option UInt64) (funcName : Option String)
      (varName typeDecl : String)
  | structs (offset limit : UInt64) (filter : Option String) (timeoutSecs : Option UInt64)
  | structInfo (ordinal : Option UInt32) (name : Option String)
  | readStruct (addr : UInt64) (ordinal : Option UInt32) (name : Option String)
  | xrefsTo (addr : UInt64)
  | xrefsFrom (addr : UInt64)
  | xrefsToField (ordinal : Option UInt32) (name : Option String) (memberIndex : Option UInt32)
      (memberName : Option String) (limit : UInt64)
  | imports (offset limit : UInt64)
  | exports (offset limit : UInt64)
  | entrypoints
  | getBytes (addr : Option UInt64) (name : Option String) (offset size : UInt64)
  | readInt (addr size : UInt64)
  | getString (addr maxLen : UInt64)
  | getGlobalValue (query : String)
  | setComments (addr : Option UInt64) (name : Option String) (offset : UInt64) (comment : String)
      (repeatable : Bool)
  | setFunctionComment (addr : Option UInt64) (name : Option String) (comment : String)
      (repeatable : Bool)
  | rename (addr : Option UInt64) (currentName : Option String) (newName : String) (flags : Int32)
  | batchRename (entries : List (Option UInt64 × Option String × String))
  | renameLvar (funcAddr : UInt64) (lvarName newName : String)
  | setLvarType (funcAddr : UInt64) (lvarName typeStr : String)
  | setDecompilerComment (funcAddr addr : UInt64) (itp : Int32) (comment : String)
  | patchBytes (addr : Option UInt64) (name : Option String) (offset : UInt64) (bytes : List UInt8)
  | patchAsm (addr : Option UInt64) (name : Option String) (offset : UInt64) (line : String)
  | basicBlocks (addr : UInt64)
  | callees (addr : UInt64)
  | callers (addr : UInt64)
  | callgraph (addr maxDepth maxNodes : UInt64)
  | findPaths (start finish maxPaths maxDepth : UInt64)
  | xrefMatrix (addrs : List UInt64)
  | idbMeta
  | listGlobals (query : Option String) (offset limit : UInt64) (timeoutSecs : Option UInt64)
  | analyzeFuncs (timeoutSecs : Option UInt64)
  | findBytes (pattern : String) (maxResults : UInt64) (timeoutSecs : Option UInt64)
  | searchText (text : String) (maxResults : UInt64) (timeoutSecs : Option UInt64)
  | searchImm (imm maxResults : UInt64) (timeoutSecs : Option UInt64)
  | findInsns (patterns : List String) (maxResults : UInt64) (caseInsensitive : Bool)
      (timeoutSecs : Option UInt64)
  | findInsnOperands (patterns : List String) (maxResults : UInt64) (caseInsensitive : Bool)
      (timeoutSecs : Option UInt64)
  | searchPseudocode (pattern : String) (limit : UInt64) (timeoutSecs : Option UInt64)
  | runScript (code : String) (timeoutSecs : Option UInt64)
  deriving DecidableEq

/-- A text is answered as a JSON string, anything else as `serde_json::to_value` writes it. -/
abbrev Answer := Result Json

/-- What a worker answers, which may depend on all it did before. -/
abbrev Worker := List Op → Op → Answer

/-- Operations to be performed in turn. -/
structure Plan where
  ops : List Op
  /-- Whether one that fails is the last. -/
  stops : Bool

def Answer.failed : Answer → Bool
  | .error _ => true
  | .ok _ => false

namespace Plan

def answersAfter (stops : Bool) (w : Worker) : List Op → List Op → List Answer
  | _,[] => []
  | past,op::ops =>
    let answer:=w past op
    if stops && Answer.failed answer then [answer]
    else answer::answersAfter stops w (past++[op]) ops

def answers (plan : Plan) (w : Worker) : List Answer := answersAfter plan.stops w [] plan.ops

/-- The operations that a worker is asked for in the end. -/
def performed (plan : Plan) (w : Worker) : List Op := plan.ops.take (plan.answers w).length

def single (op : Op) : Plan := ⟨[op],true⟩

theorem length_answersAfter_le (stops : Bool) (w : Worker) (past ops : List Op) :
    (answersAfter stops w past ops).length ≤ ops.length := by
  induction ops generalizing past with
  | nil => exact Nat.le_refl 0
  | cons op ops ih =>
    rw [answersAfter]
    split
    · exact Nat.succ_le_succ (Nat.zero_le _)
    · exact Nat.succ_le_succ (ih _)

theorem length_answersAfter {stops : Bool} {w : Worker} {past ops : List Op}
    (h : stops=false ∨ ∀ past op,Answer.failed (w past op)=false) :
    (answersAfter stops w past ops).length=ops.length := by
  induction ops generalizing past with
  | nil => rfl
  | cons op ops ih =>
    have hgo : (stops && Answer.failed (w past op))=false := by
      rcases h with rfl | hw
      · rfl
      · rw [hw,Bool.and_false]
    rw [answersAfter,if_neg (by simp [hgo]),List.length_cons,ih,List.length_cons]

/-- A worker for which everything succeeds. -/
def willing : Worker := fun _ _ => .ok .null

@[simp] theorem performed_willing (plan : Plan) : plan.performed willing=plan.ops := by
  have hl : (plan.answers willing).length=plan.ops.length :=
    length_answersAfter (.inr fun _ _ => rfl)
  rw [performed,hl,List.take_length]

theorem mem_performed {plan : Plan} {w : Worker} {op : Op} (h : op∈plan.performed w) :
    op∈plan.ops :=
  List.mem_of_mem_take h

end Plan

/-- What dispatch makes of a request. -/
structure Job extends Plan where
  reply : List Answer → Result Json

namespace Job

def run (job : Job) (w : Worker) : Result Json := job.reply (job.answers w)

/-- One operation, and its answer in some form. -/
def one (op : Op) (form : Json → Json) : Job where
  toPlan := .single op
  reply
    | answer::_ => answer.map form
    | [] => .ok .null

def plain (op : Op) : Job := one op id

/-- Models `json!({"disasm": r})` and the like. -/
def under (key : String) (op : Op) : Job := one op fun v => .ofFields [(key,v)]

/-- Models `worker.close().await?` and then a fixed reply. -/
def acknowledged (op : Op) : Job := one op fun _ => .ofFields [("ok",.bool true)]

end Job

end Rpc
