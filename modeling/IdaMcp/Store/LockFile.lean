import IdaMcp.Lib.Assoc
import IdaMcp.Lib.Pool

/-!
# The lock file of a database (`src/ida/lock.rs`)

Worker processes share a directory in which the `.imcp` name of one database
may be bound to a file. A record lock is held by a process on a file, not on a
name, and goes when that process closes any of its descriptors of the file.
Each step is one system call; `holders` is history that no step reads.
-/

namespace McpLock
open Lib

abbrev Pid := Nat
abbrev Inode := Nat
abbrev Fd := Nat

structure Files where
  /-- What the `.imcp` name is bound to. -/
  name : Option Inode
  /-- The `pid=` line of the files that have one. -/
  pids : Map Inode Pid
  locks : Map Inode Pid
  descriptors : Map Fd Inode
  owners : Map Fd Pid
  nextInode : Nat
  nextFd : Nat
  alive : List Pid
  /-- The processes between a successful acquire and its release. -/
  holders : List Pid

/-- The directory before any process runs: without the file, or with one that
an earlier run left, readable or not. -/
def Files.new : Option (Option Pid) → Files
  | none => ⟨none,∅,∅,∅,∅,0,0,[],[]⟩
  | some none => ⟨some 0,∅,∅,∅,∅,1,0,[],[]⟩
  | some (some pid) => ⟨some 0,Map.insert ∅ 0 pid,∅,∅,∅,1,0,[],[]⟩

/-- The functions that lock or unlink. -/
inductive Site
  | acquire | cleanStale | release
  deriving DecidableEq

inductive Op
  | spawn
  | exit
  | kill (pid : Pid)
  | present
  /-- Models `read write create truncate` -/
  | openCreate
  | openExisting
  /-- Models `F_SETLK` with a write lock on the whole file -/
  | setLock (site : Site) (fd : Fd)
  /-- Models `F_GETLK` -/
  | getLock (fd : Fd)
  | setLen (fd : Fd)
  | writeInfo (fd : Fd)
  | readPid (fd : Fd)
  | close (fd : Fd)
  | unlink (site : Site)
  /-- Models `kill(pid, 0)` -/
  | isRunning (pid : Pid)
  | enter
  | leave
  | openDatabase
  /-- Models `locked_by_pid` on the candidates other than the lock file -/
  | otherLocked
  | rounds
  deriving DecidableEq

@[reducible] def Op.Res : Op → Type
  | .present | .setLock _ _ | .unlink _ | .isRunning _ | .openDatabase => Bool
  | .openCreate | .openExisting => Option Fd
  | .getLock _ | .readPid _ | .otherLocked => Option Pid
  | .rounds => Nat
  | .spawn | .exit | .kill _ | .setLen _ | .writeInfo _ | .close _ | .enter | .leave => Unit

/-- The environment's share in a step. -/
structure Env where
  fails : Bool := false
  holds : Bool := false
  locked : Option Pid := none
  rounds : Nat := 0

namespace Files

variable (s : Files)

/-- A descriptor of `inode` for process `i`. -/
def opened (i : Pid) (inode : Inode) : Files :=
  {s with
    descriptors:=s.descriptors.insert s.nextFd inode
    owners:=s.owners.insert s.nextFd i
    nextFd:=s.nextFd+1}

/-- The end of a process: its descriptors are closed, and its locks go. -/
def ends (i : Pid) : Files :=
  {s with
    locks:=s.locks.keep fun _ o => decide (o≠i)
    descriptors:=s.descriptors.keep fun fd _ => decide (s.owners.get fd≠some i)
    owners:=s.owners.keep fun _ o => decide (o≠i)
    alive:=s.alive.filter (· ≠ i)
    holders:=s.holders.filter (· ≠ i)}

def openCreate (i : Pid) : Option Fd × Files :=
  match s.name with
  | some inode => (some s.nextFd,{s.opened i inode with pids:=s.pids.remove inode})
  | none =>
    (some s.nextFd,
      {s.opened i s.nextInode with name:=some s.nextInode,nextInode:=s.nextInode+1})

def openExisting (i : Pid) : Option Fd × Files :=
  match s.name with
  | some inode => (some s.nextFd,s.opened i inode)
  | none => (none,s)

/-- Another process's lock refuses it; one's own is taken again. -/
def setLock (i : Pid) (fd : Fd) : Bool × Files :=
  match s.descriptors.get fd with
  | none => (false,s)
  | some inode =>
    if (s.locks.get inode).all (· = i) then (true,{s with locks:=s.locks.insert inode i})
    else (false,s)

def getLock (i : Pid) (fd : Fd) : Option Pid :=
  ((s.descriptors.get fd).bind s.locks.get).filter (· ≠ i)

def setPid (fd : Fd) (pid : Option Pid) : Files :=
  match s.descriptors.get fd,pid with
  | some inode,some pid => {s with pids:=s.pids.insert inode pid}
  | some inode,none => {s with pids:=s.pids.remove inode}
  | none,_ => s

def close (i : Pid) (fd : Fd) : Files :=
  match s.descriptors.get fd with
  | none => s
  | some inode =>
    {s with
      descriptors:=s.descriptors.remove fd
      owners:=s.owners.remove fd
      locks:=s.locks.keep fun a o => decide (¬(a=inode ∧ o=i))}

def unlink : Bool × Files := (s.name.isSome,{s with name:=none})

/-- What a running process's call does. -/
def perform (i : Pid) (env : Env) : (op : Op) → Op.Res op × Files
  | .spawn => ((),s)
  | .exit => ((),s.ends i)
  | .kill _ => ((),s)
  | .present => (s.name.isSome,s)
  | .openCreate => if env.fails then (none,s) else s.openCreate i
  | .openExisting => if env.fails then (none,s) else s.openExisting i
  | .setLock _ fd => s.setLock i fd
  | .getLock fd => (s.getLock i fd,s)
  | .setLen fd => ((),if env.fails then s else s.setPid fd none)
  | .writeInfo fd => ((),if env.fails then s else s.setPid fd (some i))
  | .readPid fd => ((s.descriptors.get fd).bind s.pids.get,s)
  | .close fd => ((),s.close i fd)
  | .unlink _ => if env.fails then (false,s) else s.unlink
  -- a pid may have gone to a process of another program
  | .isRunning pid => (decide (pid∈s.alive) || env.holds,s)
  | .enter => ((),{s with holders:=i::s.holders})
  | .leave => ((),{s with holders:=s.holders.filter (· ≠ i)})
  | .openDatabase => (env.holds,s)
  | .otherLocked => (env.locked,s)
  | .rounds => (env.rounds,s)

end Files

/-- A process that is not running makes no call; a crash comes from outside. -/
def exec (i : Nat) (op : Op) (env : Env) (s : Files) : Option (Op.Res op × Files) :=
  match op with
  | .spawn => some ((),{s with alive:=i::s.alive})
  | .kill pid => some ((),s.ends pid)
  | op => if i∈s.alive then some (s.perform i env op) else none

abbrev Run (α : Type) := Prog Op.Res α
def act (op : Op) : Run (Op.Res op) := Prog.perform op

inductive LockError
  | openFailed
  | databaseLocked (pid : Pid)

structure StaleLockInfo where
  pid : Pid
  reason : String

/-- Lines 270-289. -/
def tryLockFile (site : Site) (fd : Fd) : Run (Except Pid Unit) := do
  if ← act (.setLock site fd) then return .ok ()
  else return .error ((← act (.getLock fd)).getD 0)

/-- Lines 44-91. -/
def acquireMcpLock : Run (Except LockError Fd) := do
  match ← act .openCreate with
  | none => return .error .openFailed
  | some fd =>
    match ← tryLockFile .acquire fd with
    | .error pid =>
      act (.close fd)
      return .error (.databaseLocked pid)
    | .ok () =>
      act (.setLen fd)
      act (.writeInfo fd)
      return .ok fd

/-- Lines 94-99: the name goes first, then the descriptor. -/
def releaseMcpLock (fd : Fd) : Run Unit := do
  let _ ← act (.unlink .release)
  act (.close fd)

/-- Lines 102-105: the file lives to the end of the function. -/
def releaseMcpLockFile (fd : Fd) : Run Unit := do
  let _ ← act (.unlink .release)
  act (.close fd)

/-- Lines 180-190. -/
def readLockFilePid : Run (Option Pid) := do
  match ← act .openExisting with
  | none => return none
  | some fd =>
    let pid ← act (.readPid fd)
    act (.close fd)
    return pid

/-- Lines 128-147: no pid to read. -/
def cleanUnreadable : Run (Option StaleLockInfo) := do
  match ← act .openExisting with
  | none => return none
  | some fd =>
    match ← tryLockFile .cleanStale fd with
    | .error _ =>
      act (.close fd)
      return none
    | .ok () =>
      act (.close fd)
      if ← act (.unlink .cleanStale) then
        return some ⟨0,"no valid PID and no fcntl lock held"⟩
      else return none

/-- Lines 117-177. -/
def cleanStaleMcpLock : Run (Option StaleLockInfo) := do
  if ← act .present then
    match ← readLockFilePid with
    | none => cleanUnreadable
    | some pid =>
      if ← act (.isRunning pid) then return none
      else if ← act (.unlink .cleanStale) then
        return some ⟨pid,"process "++toString pid++" is no longer running"⟩
      else return none
  else return none

/-- Lines 298-328. -/
def lockedByPid : Run (Option Pid) := do
  match ← act .openExisting with
  | none => return none
  | some fd =>
    let pid ← act (.getLock fd)
    act (.close fd)
    return pid

/-- Lines 218-264; the lock file is the last candidate. -/
def detectDbLock : Run (Option Pid) := do
  match ← act .otherLocked with
  | some pid => return some pid
  | none => if ← act .present then lockedByPid else return none

/-- Models `handle_open` as far as it deals with the lock, and the `Close` request
that ends what it began (`loop_impl.rs`, lines 113-122). -/
def session : Run Unit := do
  let _ ← cleanStaleMcpLock
  match ← acquireMcpLock with
  | .error _ => return ()
  | .ok fd =>
    act .enter
    if ← act .openDatabase then
      act .leave
      releaseMcpLock fd
    else
      act .leave
      releaseMcpLockFile fd
      let _ ← detectDbLock
      return ()

def sessions : Nat → Run Unit
  | 0 => act .exit
  | n+1 => do
    session
    sessions n

inductive Job
  | process
  | crash (pid : Pid)

def Job.body : Job → Run Unit
  | .process => do
    act .spawn
    sessions (← act .rounds)
  | .crash pid => act (.kill pid)

def system : Machine Op.Res Job Files Env where
  exec:=exec
  body:=Job.body
  entry _:=true
  forks _ _:=[]

abbrev System := Pool Op.Res Job Files

end McpLock
