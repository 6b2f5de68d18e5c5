import IdaMcp.Lib.Assoc
import IdaMcp.Lib.Path
import IdaMcp.Rpc.Values

/-!
# Opening and closing in the worker loop

`handle_open` of `src/src/ida/handlers/database.rs`, the lock of `src/src/ida/lock.rs`
and the `Open` and `Close` requests of `src/src/ida/loop_impl.rs`. What the file
system and IDA answer is left open. The loop owns three variables, the database and
the two halves of its lock; of the file system only the names of lock files are kept.
-/

namespace Ida
open Lib Lib.Path
open Rpc (ToolError Result)

abbrev Inode := Nat

structure Disk where
  names : Map Text Inode
  next : Inode

/-- Models `OpenOptions` with `create` and `truncate`. -/
def Disk.openCreate (d : Disk) (path : Text) : Inode × Disk :=
  match d.names.get path with
  | some file => (file,d)
  | none => (d.next,⟨d.names.insert path d.next,d.next+1⟩)

def Disk.removeFile (d : Disk) (unlinks : Bool) (path : Text) : Disk :=
  if unlinks then {d with names:=d.names.remove path} else d

/- `into_parts` is the only way it is given up, so its `Drop` does nothing. -/
structure McpLock where
  file : Inode
  path : Text
  deriving DecidableEq

structure StaleLockInfo where
  path : Text
  pid : Nat
  reason : String

def lockPathOf (dbPath : Text) : Text := withExtension dbPath "imcp".toList
def display (path : Text) : String := String.ofList path

structure Db where
  path : Text
  fileType : String
  processor : String
  is64bit : Bool
  is32bitExactly : Bool
  functionCount : Nat
  analysisStatus : Json

structure RawDatabaseOptions where
  autoAnalyse : Bool
  idbOutput : Text
  fileType : Option String
  extraArgs : List String

/-- Where a file is looked for. -/
inductive Check where
  | input | id0 | debugInfo | candidate

/-- The answers to one `Open`. -/
structure Outcomes where
  expandPath : Text → Text
  found : Check → Text → Bool
  /-- The store's database for a raw binary, and where a new one would be. -/
  lookup : Text → Option Text
  idbPath : Text → Text
  /-- Models `clean_stale_mcp_lock`: the pid in the file, whether it runs, whether nobody
  holds the lock, and whether the name can be removed. -/
  readPid : Option Nat
  running : Nat → Bool
  unheld : Bool
  staleUnlinks : Bool
  /-- Models `acquire_mcp_lock`: why the file cannot be opened, and who holds it. -/
  createError : Option String
  heldBy : Option Nat
  releaseUnlinks : Bool
  openExistingDatabase : Text → Except String Db
  openRawBinary : Text → RawDatabaseOptions → Except String Db
  loadDebugInfo : Text → Bool → Except String Bool
  lockedByPid : Text → Option Nat

variable (o : Outcomes)

/-- Lines 117-177. -/
def cleanStaleMcpLock (dbPath : Text) (d : Disk) : Option StaleLockInfo × Disk :=
  let path:=lockPathOf dbPath
  let removed (pid : Nat) (reason : String) : Option StaleLockInfo × Disk :=
    if o.staleUnlinks then (some ⟨path,pid,reason⟩,d.removeFile true path) else (none,d)
  if (d.names.get path).isNone then (none,d)
  else match o.readPid with
    | none => if o.unheld then removed 0 "no valid PID and no fcntl lock held" else (none,d)
    | some pid => if o.running pid then
        (none,d) else removed pid s!"process {pid} is no longer running"

def lockedText (path : Text) (pid : Nat) : String :=
  let name:=display path
  s!"{name} (locked by pid {pid})"

/-- Lines 44-91. What is written into the file is left out. -/
def acquireMcpLock (dbPath : Text) (d : Disk) : Result McpLock × Disk :=
  let path:=lockPathOf dbPath
  match o.createError with
  | some e => (.error (.openFailed (display path++": "++e)),d)
  | none =>
    let opened:=d.openCreate path
    match o.heldBy with
    | some pid =>
      (.error (.databaseLocked (if 0 < pid then lockedText path pid else display path)),opened.2)
    | none => (.ok ⟨opened.1,path⟩,opened.2)

/-- Lines 102-105. -/
def releaseMcpLockFile (lock : McpLock) (d : Disk) : Disk :=
  d.removeFile o.releaseUnlinks lock.path

def extensionOf (path : Text) : Option Text := (fileName path).bind fun parts => (cut parts.2).2

/-- Lines 218-264. -/
def detectDbLock (path : Text) : Option String :=
  let ext:=(extensionOf path).map String.ofList
  let sides:=
    if ext=some "i64" ∨ ext=some "idb" ∨ ext=some "id0" then
      (if ext=some "id0" then ["i64"] else [])++["id0","id1","nam"]
    else []
  let candidates:=path::(sides++["imcp"]).map fun e => withExtension path e.toList
  (candidates.filter fun c => o.found .candidate c).findSome? fun c =>
    (o.lockedByPid c).map fun pid =>
      if pid=0 then display c++" (locked by another process)" else lockedText c pid

structure OpenRequest where
  path : Text
  loadDebugInfo : Bool
  debugInfoPath : Option Text
  debugInfoVerbose : Bool
  force : Bool
  fileType : Option String
  autoAnalyse : Bool
  extraArgs : List String

structure DebugInfoLoad where
  path : String
  loaded : Bool
  error : Option String

structure DbInfo where
  path : String
  fileType : String
  processor : String
  bits : Nat
  functionCount : Nat
  debugInfo : Option DebugInfoLoad
  analysisStatus : Json

def buildDbInfo (db : Db) (path : Text) (debugInfo : Option DebugInfoLoad) : DbInfo where
  path := display path
  fileType := db.fileType
  processor := db.processor
  bits := if db.is64bit then 64 else if db.is32bitExactly then 32 else 16
  functionCount := db.functionCount
  debugInfo := debugInfo
  analysisStatus := db.analysisStatus

/-- Equality of paths: by their components. -/
def components (path : Text) : Bool × List Text :=
  let parts:=path.splitOn '/'
  let named:=parts.filter fun p => p≠[] ∧ p≠['.']
  (path.head?=some '/',if parts.head?=some ['.'] then ['.']::named else named)

/-- Lines 107-116. -/
def isIdb (path : Text) : Bool :=
  let ext:=String.ofList (((extensionOf path).getD []).map Char.toLower)
  ext="i64" || ext="idb" || ext="id0"

def unpackedId0Path (path : Text) : Option Text :=
  let ext:=(extensionOf path).map String.ofList
  if ext=some "i64" ∨ ext=some "idb" then some (withExtension path "id0".toList) else none

variable (req : OpenRequest)

/-- Lines 167-204: what IDA opens, and what came of it. -/
def openDatabase (expanded : Text) : Text × Except String Db :=
  if isIdb expanded then
    match o.openExistingDatabase expanded with
    | .ok db => (expanded,.ok db)
    | .error e => match (unpackedId0Path expanded).filter (o.found .id0) with
      | some id0 => (id0,o.openExistingDatabase id0)
      | none => (expanded,.error e)
  else
    let out:=(o.lookup expanded).getD (o.idbPath expanded)
    (out,o.openRawBinary expanded ⟨req.autoAnalyse,out,req.fileType,req.extraArgs⟩)

/-- Lines 44-55. -/
def dsymExpectedPathForBinary (path : Text) : Option Text :=
  (fileName path).map fun parts =>
    path++".dSYM/Contents/Resources/DWARF/".toList++parts.2

/-- Lines 230-243. -/
def debugInfoFile (expanded : Text) : Option Text :=
  match req.debugInfoPath with
  | some path => some path
  | none =>
    let ext:=String.ofList (((extensionOf expanded).getD []).map Char.toLower)
    dsymExpectedPathForBinary
      (if ext="i64" ∨ ext="idb" then withExtension expanded [] else expanded)

/-- Lines 228-289. The dSYM of a binary that is opened for the first time is loaded
as well, and nothing depends on how that goes. -/
def debugInfoOf (expanded : Text) : Option DebugInfoLoad :=
  if req.loadDebugInfo then
    (debugInfoFile req expanded).map fun path =>
      let load:=DebugInfoLoad.mk (display path)
      if o.found .debugInfo path then
        match o.loadDebugInfo path req.debugInfoVerbose with
        | .ok true => load true none
        | .ok false => load false (some "load returned false")
        | .error e => load false (some e)
      else load false (some "debug info not found")
  else none

/-- The variables of `run_ida_loop`, and the names of lock files around it. -/
structure Worker where
  idb : Option Db
  lockFile : Option Inode
  lockPath : Option Text
  disk : Disk

/-- The lock of an `Open`, lines 131-144. -/
def takeLock (expanded : Text) (d : Disk) : Result McpLock × Disk :=
  acquireMcpLock o expanded (cleanStaleMcpLock o expanded d).2

def openFailed (expanded opened : Text) (e : String) : ToolError :=
  match detectDbLock o expanded with
  | some message => .databaseLocked message
  | none => .openFailed (display opened++": "++e)

/-- Lines 146-310, with the lock in hand. -/
def openLocked (expanded : Text) (lock : McpLock) (w : Worker) :
    Result DbInfo × Worker :=
  match openDatabase o req expanded with
  | (opened,.error e) =>
    (.error (openFailed o expanded opened e),{w with disk:=releaseMcpLockFile o lock w.disk})
  | (opened,.ok db) =>
    (.ok (buildDbInfo db opened (debugInfoOf o req expanded)),
      {w with idb:=some db,lockFile:=some lock.file,lockPath:=some lock.path})

def handleOpen (w : Worker) : Result DbInfo × Worker :=
  let expanded:=o.expandPath req.path
  match w.idb with
  | some db =>
    if components db.path=components expanded then (.ok (buildDbInfo db db.path none),w)
    else (.error (.databaseAlreadyOpen (display db.path)),w)
  | none =>
    if o.found .input expanded then
      match takeLock o expanded w.disk with
      | (.error e,disk) => (.error e,{w with disk:=disk})
      | (.ok lock,disk) => openLocked o req expanded lock {w with disk:=disk}
    else (.error (.invalidPath ("File not found: "++display expanded)),w)

/-- Lines 94-99. -/
def releaseMcpLock (unlinks : Bool) (w : Worker) : Worker where
  idb := w.idb
  lockFile := none
  lockPath := none
  disk := match w.lockPath with
    | some path => w.disk.removeFile unlinks path
    | none => w.disk

/-- Lines 113-122. -/
def handleClose (unlinks : Bool) (w : Worker) : Worker := releaseMcpLock unlinks {w with idb:=none}

/-- What comes to the loop. A caller of `Open` may be gone, or have waited too long;
and other processes work on the lock files between two requests. -/
inductive Request where
  | opens (req : OpenRequest) (o : Outcomes)
  | skipped (req : OpenRequest)
  | close (unlinks : Bool)
  | others (disk : Disk)

def Worker.step (w : Worker) : Request → Worker
  | .opens req o => (handleOpen o req w).2
  | .skipped _ => w
  | .close unlinks => handleClose unlinks w
  | .others disk => {w with disk:=disk}

def Worker.new (disk : Disk) : Worker := ⟨none,none,none,disk⟩

def Worker.run (disk : Disk) (requests : List Request) : Worker :=
  requests.foldl Worker.step (Worker.new disk)

/-- The lock that an `Open` comes to hold on its way. -/
def lockOf (w : Worker) : Option McpLock :=
  if w.idb.isNone ∧ o.found .input (o.expandPath req.path) then
    (takeLock o (o.expandPath req.path) w.disk).1.toOption
  else none

/-- What an `Open` leaves. -/
inductive Left (o : Outcomes) (w : Worker) : Option McpLock → Result DbInfo → Worker → Prop where
  | same (info : DbInfo) (h : w.idb.isSome) : Left o w none (.ok info) w
  | refused (e : ToolError) (disk : Disk) : Left o w none (.error e) {w with disk:=disk}
  | released (lock : McpLock) (e : ToolError) (disk : Disk) :
      Left o w (some lock) (.error e) {w with disk:=releaseMcpLockFile o lock disk}
  | opened (lock : McpLock) (info : DbInfo) (db : Db) (disk : Disk) :
      Left o w (some lock) (.ok info) ⟨some db,some lock.file,some lock.path,disk⟩

theorem left_openLocked (expanded : Text) (lock : McpLock) (w : Worker)
    (disk : Disk) : Left o w (some lock)
      (openLocked o req expanded lock {w with disk:=disk}).1
      (openLocked o req expanded lock {w with disk:=disk}).2 := by
  unfold openLocked
  rcases openDatabase o req expanded with ⟨opened,e | db⟩
  · exact .released lock _ disk
  · exact .opened lock _ db disk

theorem left_handleOpen (w : Worker) :
    Left o w (lockOf o req w) (handleOpen o req w).1 (handleOpen o req w).2 := by
  obtain ⟨idb,lockFile,lockPath,disk⟩:=w
  cases idb with
  | some db =>
    have hl : lockOf o req ⟨some db,lockFile,lockPath,disk⟩=none :=
      if_neg fun h => Bool.noConfusion h.1
    rw [hl]
    by_cases hp : components db.path=components (o.expandPath req.path)
    · simp only [handleOpen,if_pos hp]
      exact .same _ rfl
    · simp only [handleOpen,if_neg hp]
      exact .refused _ disk
  | none =>
    by_cases hf : o.found .input (o.expandPath req.path)=true
    · have hl : lockOf o req ⟨none,lockFile,lockPath,disk⟩=
          (takeLock o (o.expandPath req.path) disk).1.toOption := if_pos ⟨rfl,hf⟩
      rw [hl]
      simp only [handleOpen,if_pos hf]
      rcases takeLock o (o.expandPath req.path) disk with ⟨e | lock,taken⟩
      · exact .refused e taken
      · exact left_openLocked o req _ lock ⟨none,lockFile,lockPath,disk⟩ taken
    · have hl : lockOf o req ⟨none,lockFile,lockPath,disk⟩=none := if_neg fun h => hf h.2
      rw [hl]
      simp only [handleOpen,if_neg hf]
      exact .refused _ disk

def Worker.Guarded (w : Worker) : Prop :=
  w.lockFile.isSome=w.idb.isSome ∧ w.lockPath.isSome=w.idb.isSome

theorem Left.guarded {o : Outcomes} {w v : Worker} {lock : Option McpLock} {r : Result DbInfo}
    (h : Left o w lock r v) (hw : w.Guarded) : v.Guarded := by
  cases h with
  | same info hs => exact hw
  | refused e disk => exact hw
  | released lock e disk => exact hw
  | opened lock info db disk => exact ⟨rfl,rfl⟩

theorem Worker.Guarded.step {w : Worker} (hw : w.Guarded) (r : Request) : (w.step r).Guarded := by
  cases r with
  | opens req o => exact (left_handleOpen o req w).guarded hw
  | skipped req => exact hw
  | close unlinks => exact ⟨rfl,rfl⟩
  | others disk => exact hw

theorem Worker.guarded_run (disk : Disk) (requests : List Request) :
    (Worker.run disk requests).Guarded := by
  have hfold : ∀ w : Worker,w.Guarded → (requests.foldl Worker.step w).Guarded := by
    induction requests with
    | nil => exact fun w hw => hw
    | cons r rs ih => exact fun w hw => ih (w.step r) (hw.step r)
  exact hfold _ ⟨rfl,rfl⟩

theorem get_removeFile (d : Disk) (path : Text) : (d.removeFile true path).names.get path=none := by
  simp [Disk.removeFile]

theorem Left.failed {o : Outcomes} {w v : Worker} {lock : Option McpLock} {e : ToolError}
    (h : Left o w lock (.error e) v) : v.idb=w.idb ∧ v.lockFile=w.lockFile ∧ v.lockPath=w.lockPath ∧
      ∀ l∈lock,o.releaseUnlinks=true → v.disk.names.get l.path=none := by
  cases h with
  | refused e disk => exact ⟨rfl,rfl,rfl,fun l hl => by cases hl⟩
  | released lock e disk =>
    refine ⟨rfl,rfl,rfl,fun l hl hu => ?_⟩
    cases hl
    simp only [releaseMcpLockFile,hu]
    exact get_removeFile disk lock.path

/-- After any requests the lock is there exactly with the database, and an `Open` that
fails then changes neither, and takes away the lock file it acquired. -/
theorem open_atomic (disk : Disk) (requests : List Request) :
    ((Worker.run disk requests).lockFile.isSome=(Worker.run disk requests).idb.isSome ∧
      (Worker.run disk requests).lockPath.isSome=(Worker.run disk requests).idb.isSome) ∧
    ∀ (o : Outcomes) (req : OpenRequest) (e : ToolError) (v : Worker),
      handleOpen o req (Worker.run disk requests)=(.error e,v) →
      v.idb=(Worker.run disk requests).idb ∧ v.lockFile=(Worker.run disk requests).lockFile ∧
        v.lockPath=(Worker.run disk requests).lockPath ∧
        ∀ lock∈lockOf o req (Worker.run disk requests),o.releaseUnlinks=true →
          v.disk.names.get lock.path=none := by
  refine ⟨Worker.guarded_run disk requests,fun o req e v h => ?_⟩
  have hl:=left_handleOpen o req (Worker.run disk requests)
  rw [h] at hl
  exact hl.failed

/-- IDA refuses a raw binary that the lock was taken for. -/
def refusing : Outcomes where
  expandPath := id
  found _ _ := true
  lookup _ := none
  idbPath := id
  readPid := none
  running _ := true
  unheld := false
  staleUnlinks := false
  createError := none
  heldBy := none
  releaseUnlinks := true
  openExistingDatabase _ := .error "refused"
  openRawBinary _ _ := .error "refused"
  loadDebugInfo _ _ := .ok true
  lockedByPid _ := none

def rawRequest : OpenRequest := ⟨['a'],false,none,false,false,none,true,[]⟩

theorem open_atomic_refused :
    lockOf refusing rawRequest (Worker.run ⟨∅,0⟩ [])=some ⟨0,['a', '.', 'i', 'm', 'c', 'p']⟩ ∧
      (handleOpen refusing rawRequest (Worker.run ⟨∅,0⟩ [])).2.disk.names.get
        ['a', '.', 'i', 'm', 'c', 'p']=none := by
  have hl : lockOf refusing rawRequest (Worker.run ⟨∅,0⟩ [])=
      some ⟨0,['a', '.', 'i', 'm', 'c', 'p']⟩ := by decide +kernel
  exact ⟨hl,((open_atomic ⟨∅,0⟩ []).2 refusing rawRequest _ _ rfl).2.2.2 _ hl rfl⟩

end Ida
