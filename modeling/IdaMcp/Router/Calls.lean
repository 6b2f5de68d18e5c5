import IdaMcp.Router.Exec

/-!
# The router's async functions

`RouterState`'s functions of `src/src/router/mod.rs` as programs, one
operation for each mutex taken or given back and one for each critical section.
A guard is given back where Rust drops it; a guard that is a temporary of the
scrutinee of an `if let` or a `match` is held to the end of that statement.
-/

namespace Router
open Lib (Map Json Prog)
open Lib.Prog (forEach)

abbrev Run (α : Type) := Prog Op.Res α

abbrev act (op : Op) : Run op.Res := Prog.perform op

def withLock {α : Type} (m : Mutex) (body : Run α) : Run α := do
  act (.lock m)
  let r ← body
  act (.unlock m)
  return r

/-- One critical section of `inner`. -/
def locked (o : InnerOp) : Run o.Res := withLock .inner (act (.inner o))

/-- A critical section of one operation, and what comes after it. -/
theorem wp_section {M α : Type} {A : Lib.Monitor Op.Res M} {x : Mutex} {op : Op}
    {f : op.Res → Run α} {Q : α → M → Prop} {m : M} (hl : A.allowed m (.lock x))
    (ho : A.allowed (A.next m ⟨.lock x,()⟩) op)
    (hf : ∀ r,let n:=A.next (A.next m ⟨.lock x,()⟩) ⟨op,r⟩
      A.allowed n (.unlock x) ∧ A.wp (f r) Q (A.next n ⟨.unlock x,()⟩)) :
    A.wp (withLock x (act op) >>= f) Q m := by
  simp only [withLock,Lib.Monitor.wp_bind,Lib.Monitor.wp_perform,Lib.Monitor.wp_pure]
  exact ⟨hl,fun _ _ => ⟨ho,fun r _ => ⟨(hf r).1,fun _ _ => (hf r).2⟩⟩⟩

def world (o : WorldOp) : Run o.Res := act (.world o)

/-- `canonicalize(expand_path(p))`, or the expanded path where that fails. -/
def canonicalPath (path : Path) : Run Path := do
  let expanded ← world (.expandPath path)
  let canonical ← world (.canonicalize expanded)
  return canonical.getD expanded

/-- Lines 449-487. -/
def probeWorkerBackend : Run (Except String RuntimeProbeResult) := do
  match ← withLock .cachedProbe (act (.probe .read)) with
  | some cached => return .ok cached
  | none => match ← world .runProbe with
    | .error e => return .error e
    | .ok probe =>
      withLock .cachedProbe (act (.probe (.store probe)))
      return .ok probe

/-- Lines 947-977. It always returns `Ok(())`. -/
def closeWorker (handle : DbHandle) (why : Reason) : Run Unit :=
  withLock .inner do
    withLock .warmPool (act (.warm (.retain handle)))
    act (.inner (.closeRemove handle why))

/-- Lines 983-993. -/
def releaseRefToken (token : Token) (closes : Bool) : Run (Option (DbHandle × Nat)) :=
  locked (.releaseRefToken token closes)

/-- Lines 1199-1218. -/
def issueRefForHandle (handle : DbHandle) : Run Token := locked (.issueRef handle)

/-- Lines 562-599. -/
def evictLoop : Nat → Run Unit
  | 0 => .halt
  | n+1 => do
    match ← locked .evictCandidate with
    | some handle =>
      closeWorker handle .evict
      evictLoop n
    | none => return ()

/-- Lines 543-840, under the spawn permit. -/
def spawnFresh (key : WorkerKey) (ensure : Bool) : Run (Except String (DbHandle × Option Token)) :=
    do
  match ← probeWorkerBackend with
  | .error e => return .error e
  | .ok probe => match probe.backend with
    | none => return .error (probe.reason.getD "runtime probe reported no usable worker backend")
    | some backend =>
      evictLoop (← world .rounds)
      match ← locked (.spawnRegister key backend ensure) with
      | .refused e => return .error e
      | .reused h t => return .ok (h,some t)
      | .fresh h t => return .ok (h,some t)

def spawnWorker (path : Path) (tenantId : Option String) (ensure : Bool) :
    Run (Except String (DbHandle × Option Token)) := do
  let canonical ← canonicalPath path
  let key:=workerKey canonical (normalizeTenant tenantId)
  match ← locked (.spawnLookup key ensure) with
  | some (h,t) => return .ok (h,some t)
  | none =>
    act .acquireSpawn
    let r ← spawnFresh key ensure
    act .releaseSpawn
    return r

/-- Lines 938-944. -/
def awaitAnswer (chan : Chan) (method : String) (params : Json) : Run (Except ToolError Json) := do
  match ← act (.receive chan) with
  | .answer (.ok v) => return .ok v
  | .answer (.error e) => return .error (.idaError e)
  | .dropped => return .error .workerClosed
  | .timedOut => return .error (.timeout (timeoutSecs method params))

def routeRequest (handle : Option DbHandle) (method : String) (params : Json) :
    Run (Except ToolError Json) := do
  match ← locked (.routeTarget handle) with
  | .error e => return .error e
  | .ok target =>
    let id ← locked .newReqId
    let chan ← act (.channel id)
    match ← locked (.routeRegister target id chan) with
    | .error e => return .error e
    | .ok _ => awaitAnswer chan method params

def stripHexPrefix : List Char → List Char
  | '0' :: 'x' :: cs => stripHexPrefix cs
  | cs => cs

def hexDigit (c : Char) : Option Nat :=
  if '0' ≤ c ∧ c ≤ '9' then some (c.toNat-48)
  else if 'a' ≤ c ∧ c ≤ 'f' then some (c.toNat-87)
  else if 'A' ≤ c ∧ c ≤ 'F' then some (c.toNat-55)
  else none

/-- `u64::from_str_radix(_, 16)`. -/
def fromStrRadix16 (cs : List Char) : Option Nat :=
  let digits:=match cs with
    | '+' :: rest => rest
    | _ => cs
  if digits=[] then none
  else (digits.mapM hexDigit).bind fun ds =>
    let n:=ds.foldl (fun acc d => 16*acc+d) 0
    if n < UInt64.size then some n else none

def fieldStr (v : Json) (k : String) : Option String := (v.get? k).bind Json.asStr

def entryAddress (v : Json) : Option Nat :=
  (fieldStr v "address").bind fun s => fromStrRadix16 (stripHexPrefix s.toList)

def edgesFrom (edges : List Json) (addr : String) : Nat :=
  (edges.filter fun e => fieldStr e "from"=some addr).length

/-- Of exactly two callees of the entry point, the one with more calls of its own. -/
def busierCallee (skip : String → Bool) (entry : String) (edges : List Json) : Option String :=
  let direct:=(edges.filterMap fun e =>
    if fieldStr e "from"=some entry then fieldStr e "to" else none).filter fun a => !skip a
  match direct with
  | [a,b] =>
    if edgesFrom edges a=edgesFrom edges b then none
    else some (if edgesFrom edges b < edgesFrom edges a then a else b)
  | _ => none

/-- Lines 1347-1357: a later node of the same address wins. -/
def isSyscall (nodes : List Json) (addr : String) : Bool :=
  match nodes.reverse.find? fun n =>
    fieldStr n "address"=some addr && (fieldStr n "name").isSome with
  | none => false
  | some n => match fieldStr n "name" with
    | none => false
    | some name => "_sol_".isPrefixOf name || name=="_abort"

def addressParam (addr : String) : Json :=
  .ofFields [("roots",.str addr),("max_depth",.ofNat 2),("max_nodes",.ofNat 256)]

def renameParam (addr : String) : Json :=
  .ofFields [("address",.str addr),("new_name",.str "process_instruction")]

def detectAndRenameSbpfEntry (handle : DbHandle) : Run Unit := do
  match ← routeRequest (some handle) "get_function_by_name"
      (.ofFields [("name",.str "entrypoint")]) with
  | .error _ => return ()
  | .ok v => match entryAddress v with
    | none => return ()
    | some addr =>
      let entry:="0x"++hex addr
      match ← routeRequest (some handle) "build_callgraph" (addressParam entry) with
      | .error _ => return ()
      | .ok graph => match (graph.get? "edges").bind Json.asArray with
        | none => return ()
        | some edges =>
          let nodes:=((graph.get? "nodes").bind Json.asArray).getD []
          match busierCallee (isSyscall nodes) entry edges with
          | none => return ()
          | some addr =>
            let _ ← routeRequest (some handle) "rename_symbol" (renameParam addr)
            return ()

end Router
