import IdaMcp.Lib.Assoc
import IdaMcp.Lib.Path
import Mathlib.Data.List.Sort
import Mathlib.Data.Char
import Mathlib.Data.List.Lex

/-!
# The store of databases (`src/idb_store.rs`)

A directory of files and an `index.json` that lists what was analysed. A
directory is read in an order of its own, so the order of `files` stands for
one such reading; sizes and times of what is written come from outside.
-/

namespace Store
open Lib Lib.Path

scoped instance (x : Text) (l : List Text) : Decidable (x∈l) := List.instDecidableMemOfLawfulBEq x l

def isHex (c : Char) : Bool := c.isDigit || ('a' ≤ c && c ≤ 'f')

/-- Models `compute_hash`: the first twelve digits of a hash in lower-case hexadecimal. -/
structure Digest where
  chars : Text
  length : chars.length=12
  hex : chars.all isHex=true
  deriving DecidableEq

structure Binary (Content : Type) where
  name : Name
  content : Content

/-- The files the disassembler keeps for one database. -/
inductive Part
  | i64 | id0 | id1 | id2 | nam | til | imcp
  deriving DecidableEq

def Part.extension : Part → Text
  | .i64 => ['i', '6', '4']
  | .id0 => ['i', 'd', '0']
  | .id1 => ['i', 'd', '1']
  | .id2 => ['i', 'd', '2']
  | .nam => ['n', 'a', 'm']
  | .til => ['t', 'i', 'l']
  | .imcp => ['i', 'm', 'c', 'p']

def dylib : Text := ['d', 'y', 'l', 'i', 'b']

theorem Part.no_dot (p : Part) : '.' ∉ p.extension := by cases p <;> decide
theorem Part.no_slash (p : Part) : '/' ∉ p.extension := by cases p <;> decide

theorem Digest.not_mem (h : Digest) (c : Char) (hc : isHex c=false) : c ∉ h.chars := by
  intro hm
  have hx:=List.all_eq_true.mp h.hex c hm
  rw [hc] at hx
  contradiction

theorem Digest.no_dot (h : Digest) : '.' ∉ h.chars := h.not_mem '.' (by decide)
theorem Digest.no_slash (h : Digest) : '/' ∉ h.chars := h.not_mem '/' (by decide)

structure File where
  name : Name
  isFile : Bool
  size : Nat
  mtime : Int
  deriving DecidableEq

inductive BinaryType
  | native | sbpf
  deriving DecidableEq, Repr

structure IdbEntry where
  hash : Text
  originalPath : Text
  binaryType : BinaryType
  size : Nat
  createdAt : Nat
  lastAccessed : Nat

abbrev Index := Map Text IdbEntry

/-- What a call does to the index. -/
inductive Effect
  | put (hash path : Text) (kind : BinaryType) (size now : Nat)
  | drop (hashes : List Text)
  deriving DecidableEq

/-- Lines 196-208. -/
def entry (index : Index) (hash path : Text) (kind : BinaryType) (size now : Nat) : IdbEntry :=
  ⟨hash,path,kind,size,((index.get hash).map (·.createdAt)).getD now,now⟩

def Effect.apply : Effect → Index → Index
  | .put hash path kind size now,m => m.insert hash (entry m hash path kind size now)
  | .drop hashes,m => hashes.foldl (fun m h => m.remove h) m

def Effect.hashes : Effect → List Text
  | .put hash _ _ _ _ => [hash]
  | .drop hashes => hashes

theorem Effect.get_apply_other {e : Effect} {h : Text} (he : h∉e.hashes) (m : Index) :
    (e.apply m).get h=m.get h := by
  cases e with
  | put hash path kind size now =>
    simp only [Effect.apply,Map.get_insert]
    exact if_neg fun hx : h=hash => he (List.mem_singleton.mpr hx)
  | drop hashes =>
    simp only [Effect.apply,Map.get_foldl_remove]
    exact if_neg he

theorem Effect.get_drop {hashes : List Text} {m : Index} {h : Text} {e : IdbEntry} :
    ((drop hashes).apply m).get h=some e ↔ h∉hashes ∧ m.get h=some e := by
  simp only [Effect.apply,Map.get_foldl_remove,Option.ite_none_left_eq_some]

structure IdbStore where
  root : Text
  files : List File
  /-- What `index.json` holds while that file is there. -/
  contents : Index

section Names
variable {Content : Type} (hash : Content → Digest)

def partChars (b : Binary Content) (p : Part) : Text :=
  b.name.chars++ '.'::((hash b.content).chars++ '.'::(dylib++ '.'::p.extension))

theorem two_lt_partChars (b : Binary Content) (p : Part) : 2 < (partChars hash b p).length := by
  simp only [partChars,List.length_append,List.length_cons]
  omega

def partName (b : Binary Content) (p : Part) : Name where
  chars:=partChars hash b p
  nonempty h:=by
    have hl:=two_lt_partChars hash b p
    rw [h,List.length_nil] at hl
    omega
  plain:=by
    have hd : '/' ∉ dylib := by decide
    simp only [partChars,List.mem_append,List.mem_cons,b.name.plain,(hash b.content).no_slash,hd,
      p.no_slash,or_false]
    decide
  notHere h:=by
    have hl:=two_lt_partChars hash b p
    rw [h,List.length_singleton] at hl
    omega
  notUp h:=by
    have hl:=two_lt_partChars hash b p
    rw [h] at hl
    exact absurd hl (by decide)

/-- Lines 136-143: `{basename}.{hash12}.dylib.i64`. -/
def idbName (b : Binary Content) : Name := partName hash b .i64

end Names

def indexChars : Text := ['i', 'n', 'd', 'e', 'x', '.', 'j', 's', 'o', 'n']
def indexName : Name := ⟨indexChars,by decide,by decide,by decide,by decide⟩

/-- Models `.{hash}.` -/
def pattern (h : Text) : Text := '.'::h++['.']

def contains (name : Name) (p : Text) : Bool := decide (p <:+: name.chars)
def endsWith (name : Name) (p : Text) : Bool := decide (p <:+ name.chars)

namespace IdbStore

def empty (root : Text) : IdbStore := ⟨root,[],∅⟩

variable (s : IdbStore)

/-- A file written, in place of one of the same name. -/
def put (f : File) : IdbStore :=
  {s with files:=s.files.filter (·.name≠f.name)++[f]}

def drop (gone : File → Bool) : IdbStore :=
  {s with files:=s.files.filter fun f => !gone f}

/-- The index as it is read: empty where the file is missing. -/
def index : Index :=
  if s.files.any (·.name=indexName) then s.contents else ∅

/-- The index written through a temporary file and a rename. -/
def writeIndex (m : Index) (size : Nat) (mtime : Int) : IdbStore :=
  {s.put ⟨indexName,true,size,mtime⟩ with contents:=m}

theorem index_writeIndex (m : Index) (size : Nat) (mtime : Int) :
    (s.writeIndex m size mtime).index=m := by
  simp [writeIndex,put,index]

/-- Lines 160-171. -/
def lookupByHash (h : Text) : Option Name :=
  (s.files.find? fun f =>
    contains f.name (pattern h) && endsWith f.name ('.'::Part.i64.extension)).map (·.name)

/-- Lines 154-157. -/
def lookup {Content : Type} (hash : Content → Digest) (s : IdbStore) (b : Binary Content) :
    Option Name :=
  s.lookupByHash (hash b.content).chars

/-- Lines 178-217. -/
def record {Content : Type} (hash : Content → Digest) (s : IdbStore) (b : Binary Content)
    (path : Text) (size now : Nat) (written : Nat) (mtime : Int) : IdbStore :=
  let h:=(hash b.content).chars
  let kind:=if b.name.extension=some ['s', 'o'] then BinaryType.sbpf else .native
  s.writeIndex ((Effect.put h path kind size now).apply s.index) written mtime

/-- Lines 220-227. -/
def list : List IdbEntry := s.index.entries.map (·.2)

/-- Lines 366-377. -/
def removeFilesByHash (h : Text) : IdbStore :=
  s.drop fun f => contains f.name (pattern h)

/-- Lines 344-363. -/
def remove (h : Text) (written : Nat) (mtime : Int) : Bool × IdbStore :=
  match s.index.get h with
  | none => (false,s)
  | some _ =>
    let index:=s.index
    (true,(s.removeFilesByHash h).writeIndex ((Effect.drop [h]).apply index) written mtime)

/-- Lines 382-415. -/
def clean (written : Nat) (mtime : Int) : List IdbEntry × IdbStore :=
  let orphaned:=s.index.keep fun h _ => (s.lookupByHash h).isNone
  if orphaned.size=0 then ([],s)
  else
    (orphaned.entries.map (·.2),
      s.writeIndex ((Effect.drop orphaned.keysOf).apply s.index) written mtime)

end IdbStore

/-- Addition of sizes stops at the largest `u64`. -/
def saturatingAdd (a b : Nat) : Nat := min (a+b) (UInt64.size-1)

/-- Lines 257-271. -/
structure Group where
  files : List File
  bytes : Nat
  newestMtime : Int

def Group.default : Group := ⟨[],0,0⟩

/-- Lines 286-293. -/
def Group.push (g : Group) (f : File) : Group where
  files:=g.files++[f]
  bytes:=saturatingAdd g.bytes f.size
  newestMtime:=if f.mtime > g.newestMtime then f.mtime else g.newestMtime

structure IdbEvictionStats where
  evictedGroups : Nat
  evictedFiles : Nat
  evictedBytes : Nat
  remainingBytes : Nat

namespace IdbStore

/-- Models `path.with_extension("")` of a file in the store. -/
def groupStem (root : Text) (f : File) : Text := withExtension (join root f.name) []

/-- Lines 277-296: the files by what is left of their path without the extension. -/
def groups (s : IdbStore) : Map Text Group :=
  (s.files.filter (·.isFile)).foldl (fun m f =>
    let stem:=groupStem s.root f
    m.insert stem (((m.get stem).getD .default).push f)) ∅

def totalSize (s : IdbStore) : Nat :=
  (s.files.filter (·.isFile)).foldl (fun n f => saturatingAdd n f.size) 0

/-- Lines 307-308: the order of the keys, then by the newest file of a group. -/
def ordered (s : IdbStore) : List ((_ : Text) × Group) :=
  (s.groups.entries.insertionSort fun a b => a.1 ≤ b.1).insertionSort
    fun a b => a.2.newestMtime ≤ b.2.newestMtime

/-- Where the loop of lines 314-330 stands. -/
structure Eviction where
  totalSize : Nat
  evictedGroups : Nat
  evictedFiles : Nat
  evictedBytes : Nat
  deleted : List File

def Eviction.take (e : Eviction) (g : Group) : Eviction where
  totalSize:=e.totalSize-g.bytes
  evictedGroups:=e.evictedGroups+1
  evictedFiles:=e.evictedFiles+g.files.length
  evictedBytes:=saturatingAdd e.evictedBytes g.bytes
  deleted:=e.deleted++g.files

def evictLoop (maxBytes : Nat) (pinned : List Text) :
    List ((_ : Text) × Group) → Eviction → Eviction
  | [],e => e
  | g::gs,e =>
    if e.totalSize ≤ maxBytes then e
    else if g.1∈pinned then evictLoop maxBytes pinned gs e
    else evictLoop maxBytes pinned gs (e.take g.2)

/-- Lines 252-305 and 307-330: what is gone when the loop ends. -/
def eviction (s : IdbStore) (maxBytes : Nat) (pinned : List Text) : Eviction :=
  if s.totalSize ≤ maxBytes then ⟨s.totalSize,0,0,0,[]⟩
  else evictLoop maxBytes pinned s.ordered ⟨s.totalSize,0,0,0,[]⟩

/-- Lines 252-338. -/
def evictToLimit (s : IdbStore) (maxBytes : Nat) (pinned : List Text) (written : Nat)
    (mtime : Int) :
    IdbEvictionStats × IdbStore :=
  let e:=s.eviction maxBytes pinned
  let stats:=⟨e.evictedGroups,e.evictedFiles,e.evictedBytes,e.totalSize⟩
  if s.totalSize ≤ maxBytes then (stats,s)
  else (stats,((s.drop fun f => f∈e.deleted).clean written mtime).2)

end IdbStore
end Store
