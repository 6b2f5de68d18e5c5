import IdaMcp.Lib.Pool
import IdaMcp.Store.Idb

/-!
# Who writes `index.json` (`src/idb_store.rs`)

`record`, `remove` and `clean` read the index, change their copy of it, and write
the copy back through `index.json.tmp`, a name that all processes share. Each step
is one use of the file system; a process that has a file open writes to that file
whatever name it goes by. `history` is read by no step.
-/

namespace IndexFile
open Lib Store

abbrev Text := Lib.Path.Text
abbrev Inode := Nat

/-- What a file holds: nothing yet, the text of an index, or what is left where the texts
of two writers overlap. -/
inductive Content
  | empty
  | doc (index : Index)
  | torn

def Content.parse : Content → Option Index
  | .doc m => some m
  | .empty | .torn => none

structure Disk where
  inodes : Inode → Content
  /-- What the names `index.json` and `index.json.tmp` are bound to. -/
  index : Option Inode
  temp : Option Inode
  nextInode : Inode
  history : List Effect

/-- The directory before any call: with or without an index, and with whatever an earlier
process has left under the temporary name. -/
def Disk.new (found : Option Index) (left : Option Content) : Disk where
  inodes n := if n=0 then (found.map .doc).getD .empty else left.getD .empty
  index := found.map fun _ => 0
  temp := left.map fun _ => 1
  nextInode := 2
  history := []

inductive Op
  | read
  /-- Models `lookup_by_hash` -/
  | lookup (hash : Text)
  | removeFiles (hash : Text)
  /-- Models `fs::write` opens and empties the temporary file, and then writes its text. -/
  | create
  | write (file : Inode) (index : Index)
  | rename (effect : Effect)

@[reducible] def Op.Res : Op → Type
  | .read => Index
  | .lookup _ => Bool
  | .create => Inode
  | .removeFiles _ | .write _ _ | .rename _ => Unit

structure Env where
  /-- Whether the directory has a database with the hash. -/
  found : Bool := false
  /-- Whether what another has written meanwhile is longer. -/
  longer : Bool := false

namespace Disk

def set (d : Disk) (n : Inode) (c : Content) : Disk :=
  {d with inodes := fun i => if i=n then c else d.inodes i}

/-- A missing or unreadable index is an empty one. -/
def load (d : Disk) : Index := ((d.index.map d.inodes).bind Content.parse).getD ∅

def create (d : Disk) : Inode × Disk :=
  match d.temp with
  | some n => (n,d.set n .empty)
  | none => (d.nextInode,{d.set d.nextInode .empty with
      temp := some d.nextInode
      nextInode := d.nextInode+1})

def write (d : Disk) (n : Inode) (index : Index) (longer : Bool) : Disk :=
  match d.inodes n with
  | .empty => d.set n (.doc index)
  | _ => d.set n (if longer then .torn else .doc index)

/-- It fails where the temporary name is gone, and nobody looks at that. -/
def rename (d : Disk) (effect : Effect) : Disk :=
  match d.temp with
  | some n => {d with index := some n,temp := none,history := effect::d.history}
  | none => {d with history := effect::d.history}

end Disk

def exec (_ : Nat) : (op : Op) → Env → Disk → Option (op.Res × Disk)
  | .read,_,d => some (d.load,d)
  | .lookup _,e,d => some (e.found,d)
  | .removeFiles _,_,d => some ((),d)
  | .create,_,d => some d.create
  | .write n index,e,d => some ((),d.write n index e.longer)
  | .rename effect,_,d => some ((),d.rename effect)

abbrev Run (α : Type) := Prog Op.Res α
abbrev act (op : Op) : Run op.Res := Prog.perform op

/-- Lines 210-214, 353-357 and 403-407. -/
def writeBack (index : Index) (effect : Effect) : Run Unit := do
  let file ← act .create
  act (.write file index)
  act (.rename effect)

/-- Lines 178-215. -/
def record (hash path : Text) (kind : BinaryType) (size now : Nat) : Run Unit := do
  let index ← act .read
  writeBack (index.insert hash (entry index hash path kind size now)) (.put hash path kind size now)

/-- Lines 344-363. -/
def remove (hash : Text) : Run Bool := do
  let index ← act .read
  match index.get hash with
  | none => return false
  | some _ =>
    act (.removeFiles hash)
    writeBack (index.remove hash) (.drop [hash])
    return true

/-- Lines 389-396. -/
def orphans : List ((_ : Text) × IdbEntry) → Run (List ((_ : Text) × IdbEntry))
  | [] => return []
  | e::es => do
    let found ← act (.lookup e.1)
    let rest ← orphans es
    return if found then rest else e::rest

/-- Lines 382-412. -/
def clean : Run (List IdbEntry) := do
  let index ← act .read
  let orphaned ← orphans index.entries
  let toRemove:=orphaned.map Sigma.fst
  if toRemove.isEmpty then return []
  writeBack (toRemove.foldl (fun m h => m.remove h) index) (.drop toRemove)
  return orphaned.map Sigma.snd

inductive Call
  | record (hash path : Text) (kind : BinaryType) (size now : Nat)
  | remove (hash : Text)
  | clean

def Call.body : Call → Run Unit
  | .record hash path kind size now => IndexFile.record hash path kind size now
  | .remove hash => do
    let _ ← IndexFile.remove hash
    return ()
  | .clean => do
    let _ ← IndexFile.clean
    return ()

/-- Any number of processes, with any number of calls. -/
def processes : Machine Op.Res Call Disk Env where
  exec := exec
  body := Call.body
  entry _ := true
  forks _ _ := []

end IndexFile
