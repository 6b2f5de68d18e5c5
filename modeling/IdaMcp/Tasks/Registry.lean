import Mathlib.Data.List.Sort
import IdaMcp.Router.State

/-!
# The task registry

`TaskRegistry` of `src/src/server/task.rs`. Every function works under the one
mutex of the registry, so each is one step. A clock reading, the order in which
the hash map is walked and the ids drawn for other registries of the process
are inputs (`Reading`).
-/

namespace Tasks
open Lib (Map Json)
open Router (TaskId Instant)

@[irreducible] def TERMINAL_TASK_CAP : Nat := 256

inductive TaskStatus where
  | running | completed | failed | cancelled
  deriving Repr,DecidableEq

structure TaskState where
  id : TaskId
  status : TaskStatus
  message : String
  metadata : Option Json
  result : Option Json
  createdAt : Instant
  updatedAt : Instant
  createdAtIso : String
  updatedAtIso : String
  key : Option String

/-- The handle is the number of a spawned task. -/
structure TaskEntry where
  state : TaskState
  handle : Option Nat

/- `counter` is the static `COUNTER`, taken not to reach the end of `u64`. `aborted` are the tasks
whose handle was told to abort. The last two fields are history; no function reads them. -/
structure TaskRegistry where
  entries : Map TaskId TaskEntry
  counter : Nat
  aborted : List Nat
  created : List TaskId
  pruned : List TaskId

/-- What one call reads of the world outside: the time, the walks over the map
before and after the change, how many ids other registries have drawn. -/
structure Reading where
  now : Instant := 0
  iso : String := ""
  walk : List TaskId := []
  walkAfter : List TaskId := []
  elsewhere : Nat := 0

namespace TaskRegistry

def new (counter : Nat) : TaskRegistry := ⟨∅,counter,[],[],[]⟩

/-- The keys in the order of a walk. -/
def walked (reg : TaskRegistry) (walk : List TaskId) : List TaskId :=
  if walk.isPerm reg.entries.keysOf then walk else reg.entries.keysOf

def nextTaskId (pre : String) (n : Nat) : TaskId := pre++"-"++toString n

def refreshUpdated (r : Reading) (state : TaskState) : TaskState :=
  {state with updatedAt := r.now,updatedAtIso := r.iso}

/-- Lines 286-294: the terminal tasks with the time of their last update. -/
def terminalIds (walk : List TaskId) (reg : TaskRegistry) : List (TaskId × Instant) :=
  (reg.walked walk).filterMap fun id => (reg.entries.get id).bind fun e =>
    if e.state.status≠.running then some (id,e.state.updatedAt) else none

/-- Lines 296-302: those over the cap, oldest first. -/
def surplus (walk : List TaskId) (reg : TaskRegistry) : List TaskId :=
  let ordered:=(reg.terminalIds walk).insertionSort fun a b => a.2 ≤ b.2
  (ordered.take (ordered.length-TERMINAL_TASK_CAP)).map Prod.fst

def pruneTerminalTasks (walk : List TaskId) (reg : TaskRegistry) : TaskRegistry :=
  let gone:=reg.surplus walk
  {reg with
    entries := gone.foldl Map.remove reg.entries
    pruned := gone++reg.pruned}

def insert (id : TaskId) (state : TaskState) (reg : TaskRegistry) : TaskRegistry :=
  {reg with
    entries := reg.entries.insert id ⟨state,none⟩
    created := id::reg.created}

/-- Models `if let Some(entry) = entries.get_mut(id)`. -/
def modify (id : TaskId) (f : TaskEntry → TaskEntry) (reg : TaskRegistry) : TaskRegistry :=
  match reg.entries.get id with
  | some e => {reg with entries := reg.entries.insert id (f e)}
  | none => reg

/-- Lines 80-91: a running task with the key. -/
def duplicate (key : String) (walk : List TaskId) (reg : TaskRegistry) : Option TaskId :=
  (reg.walked walk).findSome? fun id => (reg.entries.get id).bind fun e =>
    if e.state.status=.running ∧ e.state.key=some key then some e.state.id else none

/-- Lines 93-116. -/
def createFresh (pre : String) (key : Option String) (message : String) (metadata : Option Json)
    (r : Reading) (reg : TaskRegistry) : TaskId × TaskRegistry :=
  let n:=reg.counter+r.elsewhere
  let id:=nextTaskId pre n
  let state : TaskState:=⟨id,.running,message,metadata,none,r.now,r.now,r.iso,r.iso,key⟩
  (id,({reg with counter := n+1}.insert id state).pruneTerminalTasks r.walkAfter)

def createInternal (pre : String) (key : Option String) (message : String) (metadata : Option Json)
    (r : Reading) (reg : TaskRegistry) : Except TaskId TaskId × TaskRegistry :=
  match key.bind fun key => reg.duplicate key r.walk with
  | some existing => (.error existing,reg)
  | none => let made:=reg.createFresh pre key message metadata r; (.ok made.1,made.2)

def createKeyed (key message : String) : Reading → TaskRegistry →
    Except TaskId TaskId × TaskRegistry :=
  createInternal "dsc" (some key) message none

/-- It panics, with no result, if the creation fails. -/
def create (pre message : String) (r : Reading) (reg : TaskRegistry) :
    Option TaskId × TaskRegistry :=
  let made:=reg.createInternal pre none message none r
  (made.1.toOption,made.2)

def createWithKey (pre : String) (key : Option String) (message : String) : Reading →
    TaskRegistry → Except TaskId TaskId × TaskRegistry :=
  createInternal pre key message none

def createWithMeta (pre : String) (key : Option String) (message : String) (metadata : Json) :
    Reading → TaskRegistry → Except TaskId TaskId × TaskRegistry :=
  createInternal pre key message (some metadata)

def createCompleted (message : String) (result : Json) (r : Reading) (reg : TaskRegistry) :
    TaskId × TaskRegistry :=
  let n:=reg.counter+r.elsewhere
  let id:=nextTaskId "task" n
  let state : TaskState:=⟨id,.completed,message,none,some result,r.now,r.now,r.iso,r.iso,none⟩
  (id,({reg with counter := n+1}.insert id state).pruneTerminalTasks r.walkAfter)

def setHandle (id : TaskId) (handle : Nat) : TaskRegistry → TaskRegistry :=
  modify id fun e => {e with handle := some handle}

def get (id : TaskId) (reg : TaskRegistry) : Option TaskState :=
  (reg.entries.get id).map TaskEntry.state

def listAll (walk : List TaskId) (reg : TaskRegistry) : List TaskState :=
  (reg.walked walk).filterMap fun id => reg.get id

def updateMessage (id : TaskId) (message : String) (r : Reading) : TaskRegistry → TaskRegistry :=
  modify id fun e => {e with state := refreshUpdated r {e.state with message := message}}

/-- A patch that is an object goes into an object field by field; any other patch
replaces what was there. -/
def mergedMeta : Option Json → Json → Json
  | some (.obj existing),.obj patch =>
    .obj (patch.foldl (fun fields e => Json.setField e.1 e.2 fields) existing)
  | _,patch => patch

def mergeMeta (id : TaskId) (patch : Json) (r : Reading) : TaskRegistry → TaskRegistry :=
  modify id fun e => {e with
    state := refreshUpdated r {e.state with metadata := some (mergedMeta e.state.metadata patch)}}

def complete (id : TaskId) (result : Json) (r : Reading) (reg : TaskRegistry) : TaskRegistry :=
  (reg.modify id fun e =>
    ⟨refreshUpdated r {e.state with
      status := .completed,message := "Completed",result := some result},none⟩).pruneTerminalTasks
    r.walkAfter

def fail (id : TaskId) (error : String) (r : Reading) (reg : TaskRegistry) : TaskRegistry :=
  (reg.modify id fun e =>
    ⟨refreshUpdated r {e.state with status := .failed,message := error},none⟩).pruneTerminalTasks
    r.walkAfter

def cancel (id : TaskId) (r : Reading) (reg : TaskRegistry) : Bool × TaskRegistry :=
  match reg.entries.get id with
  | some e =>
    if e.state.status=.running then
      (true,({reg with aborted := e.handle.toList++reg.aborted}.modify id fun e =>
        ⟨refreshUpdated r {e.state with status := .cancelled,message := "Cancelled by client"},
          none⟩).pruneTerminalTasks r.walkAfter)
    else (false,reg)
  | none => (false,reg)

end TaskRegistry

inductive TaskOp where
  | createKeyed (key message : String)
  | create (pre message : String)
  | createWithKey (pre : String) (key : Option String) (message : String)
  | createWithMeta (pre : String) (key : Option String) (message : String) (metadata : Json)
  | setHandle (id : TaskId) (handle : Nat)
  | get (id : TaskId)
  | listAll
  | updateMessage (id : TaskId) (message : String)
  | mergeMeta (id : TaskId) (patch : Json)
  | complete (id : TaskId) (result : Json)
  | fail (id : TaskId) (error : String)
  | cancel (id : TaskId)
  | createCompleted (message : String) (result : Json)

namespace TaskOp

@[reducible] def Res : TaskOp → Type
  | .createKeyed _ _ | .createWithKey _ _ _ | .createWithMeta _ _ _ _ => Except TaskId TaskId
  | .create _ _ => Option TaskId
  | .get _ => Option TaskState
  | .listAll => List TaskState
  | .cancel _ => Bool
  | .createCompleted _ _ => TaskId
  | .setHandle _ _ | .updateMessage _ _ | .mergeMeta _ _ | .complete _ _ | .fail _ _ => Unit

def run : (o : TaskOp) → Reading → TaskRegistry → o.Res × TaskRegistry
  | .createKeyed key message,r,reg => reg.createKeyed key message r
  | .create pre message,r,reg => reg.create pre message r
  | .createWithKey pre key message,r,reg => reg.createWithKey pre key message r
  | .createWithMeta pre key message metadata,r,reg => reg.createWithMeta pre key message metadata r
  | .setHandle id handle,_,reg => ((),reg.setHandle id handle)
  | .get id,_,reg => (reg.get id,reg)
  | .listAll,r,reg => (reg.listAll r.walk,reg)
  | .updateMessage id message,r,reg => ((),reg.updateMessage id message r)
  | .mergeMeta id patch,r,reg => ((),reg.mergeMeta id patch r)
  | .complete id result,r,reg => ((),reg.complete id result r)
  | .fail id error,r,reg => ((),reg.fail id error r)
  | .cancel id,r,reg => reg.cancel id r
  | .createCompleted message result,r,reg => reg.createCompleted message result r

end TaskOp

end Tasks
