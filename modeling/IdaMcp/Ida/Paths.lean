import IdaMcp.Ida.Database
import IdaMcp.Lib.Paths

/-!
# Paths through a function (`src/ida/handlers/controlflow.rs`)

`handle_find_paths` searches the blocks of a function by their index in the
list of blocks.
-/

namespace Ida
open Lib Rpc
variable (blocks : List BasicBlock)

/-- Models `index_by_start`: a later block takes the place of an earlier one. -/
def indexByStart (addr : UInt64) : Option Nat :=
  blocks.zipIdx.foldl (fun found entry => if entry.1.start=addr then some entry.2 else found) none

/-- Models `blocks[idx].start_address()`. -/
def startOf (idx : Nat) : UInt64 :=
  match blocks[idx]? with
  | some block => block.start
  | none => 0

/-- The successors of a block that are blocks of the function. -/
def nextIndices (idx : Nat) : List Nat :=
  match blocks[idx]? with
  | some block => block.succs.filterMap (indexByStart blocks)
  | none => []

def renderPath (path : List Nat) : List String :=
  path.map fun idx => hexText (startOf blocks idx)

def pathsReply (paths : List (List String)) : Json :=
  .ofFields [("paths",.arr (paths.map fun path => .arr (path.map .str))),
    ("count",.ofNat paths.length)]

def positionOf (addr : UInt64) : Result Nat :=
  match blocks.findIdx? (·.containsAddress addr) with
  | some idx => .ok idx
  | none => .error (.addressOutOfRange addr)

/-- Lines 162-267. -/
def handleFindPaths (idb : Option Idb) (start finish maxPaths maxDepth : UInt64) : Result Json := do
  let db ← openDb idb
  match db.functionAt start with
  | none => .error (.functionNotFound start)
  | some func =>
    if !func.containsAddress finish then
      .error (.notSupported "find_paths only supports addresses within the same function")
    else match db.cfg func with
      | .error e => .error (.idaError e)
      | .ok blocks =>
        let startIdx ← positionOf blocks start
        let endIdx ← positionOf blocks finish
        let maxDepth:=max maxDepth.toNat 1
        let maxPaths:=max maxPaths.toNat 1
        return pathsReply
          (dfs (nextIndices blocks) endIdx (renderPath blocks) maxDepth maxPaths startIdx [] [])

/-- One block may come after another. -/
def Flows (i j : Nat) : Prop :=
  ∃ a b,blocks[i]?=some a ∧ blocks[j]?=some b ∧ b.start ∈ a.succs

structure Graph : Prop where
  distinct : (blocks.map (·.start)).Nodup
  plain : ∀ block ∈ blocks,block.succs.Nodup

theorem indexByStart_append (block : BasicBlock) (addr : UInt64) :
    indexByStart (blocks++[block]) addr=
      if block.start=addr then some blocks.length else indexByStart blocks addr := by
  rw [indexByStart,List.zipIdx_append,List.foldl_append]
  simp [indexByStart]

variable {blocks} {idx : Nat}

theorem startOf_eq {block : BasicBlock}
    (h : blocks[idx]?=some block) : startOf blocks idx=block.start := by
  rw [startOf,h]

theorem indexByStart_sound {addr : UInt64} (h : indexByStart blocks addr=some idx) :
      ∃ block,blocks[idx]?=some block ∧ block.start=addr := by
  induction blocks using List.reverseRecOn with
  | nil => cases h
  | append_singleton blocks last ih =>
    rw [indexByStart_append] at h
    by_cases hl : last.start=addr
    · rw [if_pos hl] at h
      cases h
      exact ⟨last,List.getElem?_concat_length,hl⟩
    · rw [if_neg hl] at h
      obtain ⟨block,hb,hs⟩:=ih h
      have hlt:=(List.getElem?_eq_some_iff.mp hb).1
      exact ⟨block,by rw [List.getElem?_append_left hlt,hb],hs⟩

theorem indexByStart_complete (hd : (blocks.map (·.start)).Nodup) {block : BasicBlock}
    (h : blocks[idx]?=some block) : indexByStart blocks block.start=some idx := by
  have hsome : (indexByStart blocks block.start).isSome := by
    clear hd
    induction blocks using List.reverseRecOn generalizing idx with
    | nil => cases h
    | append_singleton blocks last ih =>
      rw [indexByStart_append]
      by_cases hl : last.start=block.start
      · rw [if_pos hl]
        rfl
      · rw [if_neg hl]
        have hmem:=List.mem_of_getElem? h
        rcases List.mem_append.mp hmem with hmem | hmem
        · obtain ⟨j,hj⟩:=List.mem_iff_getElem?.mp hmem
          exact ih hj
        · exact absurd (congrArg (·.start) (List.mem_singleton.mp hmem)).symm hl
  obtain ⟨j,hj⟩:=Option.isSome_iff_exists.mp hsome
  obtain ⟨other,ho,hs⟩:=indexByStart_sound hj
  have hi : (blocks.map (·.start))[idx]?=some block.start := by rw [List.getElem?_map,h]; rfl
  have hj' : (blocks.map (·.start))[j]?=some block.start := by rw [List.getElem?_map,ho,← hs]; rfl
  have hlt:=(List.getElem?_eq_some_iff.mp hi).1
  rw [hj,(List.getElem?_inj hlt hd).mp (hi.trans hj'.symm)]

theorem mem_nextIndices (hd : (blocks.map (·.start)).Nodup) (i j : Nat) :
    j ∈ nextIndices blocks i ↔ Flows blocks i j := by
  rw [nextIndices,Flows]
  cases hi : blocks[i]? with
  | none =>
    refine ⟨fun h => (by cases h),?_⟩
    rintro ⟨a,b,h,-,-⟩
    cases h
  | some a =>
    dsimp only
    rw [List.mem_filterMap]
    constructor
    · rintro ⟨addr,hmem,hj⟩
      obtain ⟨b,hb,rfl⟩:=indexByStart_sound hj
      exact ⟨a,b,rfl,hb,hmem⟩
    · rintro ⟨_,b,⟨⟩,hb,hmem⟩
      exact ⟨b.start,hmem,indexByStart_complete hd hb⟩

theorem nextIndices_nodup (hg : Graph blocks) (i : Nat) : (nextIndices blocks i).Nodup := by
  rw [nextIndices]
  cases hi : blocks[i]? with
  | none => exact List.nodup_nil
  | some a =>
    refine (hg.plain a (List.mem_of_getElem? hi)).filterMap fun addr addr' j h h' => ?_
    obtain ⟨b,hb,rfl⟩:=indexByStart_sound h
    obtain ⟨b',hb',rfl⟩:=indexByStart_sound h'
    rw [Option.some.inj (hb.symm.trans hb')]

theorem path_in_range {i j : Nat} {p : List Nat} (hp : SimplePath (Flows blocks) i j p)
    (hi : i < blocks.length) : ∀ k ∈ p,k < blocks.length := by
  induction p generalizing i with
  | nil => cases hp.starts
  | cons a rest ih =>
    intro k hk
    rcases simplePath_iff.mp hp with ⟨-,h⟩ | ⟨mid,tail,h,hstep,htail,-⟩
    · rw [h,List.mem_singleton] at hk
      rwa [hk]
    · cases h
      obtain ⟨_,b,-,hb,-⟩:=hstep
      rcases List.mem_cons.mp hk with rfl | hk
      · exact hi
      · exact ih htail (List.getElem?_eq_some_iff.mp hb).1 k hk

theorem renderPath_injective (hd : (blocks.map (·.start)).Nodup) {p q : List Nat}
    (hp : ∀ k ∈ p,k < blocks.length) (hq : ∀ k ∈ q,k < blocks.length)
    (h : renderPath blocks p=renderPath blocks q) : p=q := by
  have hback : ∀ r : List Nat,(∀ k ∈ r,k < blocks.length) →
      (r.map (startOf blocks)).map (indexByStart blocks)=r.map some := by
    intro r hr
    rw [List.map_map]
    apply List.map_congr_left
    intro k hk
    have hb:=List.getElem?_eq_getElem (hr k hk)
    rw [Function.comp_apply,startOf_eq hb,indexByStart_complete hd hb]
  have hs : p.map (startOf blocks)=q.map (startOf blocks) := by
    have hinj : Function.Injective (List.map hexText) :=
      List.map_injective_iff.mpr fun _ _ => hexText_injective
    apply hinj
    rw [List.map_map,List.map_map]
    exact h
  have hm:=congrArg (List.map (indexByStart blocks)) hs
  rw [hback p hp,hback q hq] at hm
  exact List.map_injective_iff.mpr (fun _ _ => Option.some.inj) hm

/-- What a search needs so that it is one: both addresses lie in blocks of one function. -/
structure Located (db : Idb) (start finish : UInt64) (blocks : List BasicBlock) (i j : Nat) :
    Prop where
  function : ∃ f,db.functionAt start=some f ∧ f.containsAddress finish ∧ db.cfg f=.ok blocks
  first : blocks.findIdx? (·.containsAddress start)=some i
  last : blocks.findIdx? (·.containsAddress finish)=some j

theorem handleFindPaths_located {db : Idb} {start finish : UInt64} {i j : Nat}
    (h : Located db start finish blocks i j) (maxPaths maxDepth : UInt64) :
    handleFindPaths (some db) start finish maxPaths maxDepth=.ok (pathsReply
      (dfs (nextIndices blocks) j (renderPath blocks) (max maxDepth.toNat 1) (max maxPaths.toNat 1)
        i [] [])) := by
  obtain ⟨f,hf,hin,hcfg⟩:=h.function
  have h1 : positionOf blocks start=.ok i := by rw [positionOf,h.first]
  have h2 : positionOf blocks finish=.ok j := by rw [positionOf,h.last]
  simp only [handleFindPaths,openDb,bind,Except.bind,hf,hin,hcfg,h1,h2]
  rfl

/-- The search returns simple paths from the block of `start` to that of `finish`, none twice
and not too many of them; with fewer than it may return it has returned all that are short
enough. -/
theorem handleFindPaths_exact (db : Idb) (start finish : UInt64) (blocks : List BasicBlock)
    (i j : Nat) (hgraph : Graph blocks) (hlocated : Located db start finish blocks i j)
    (maxPaths maxDepth : UInt64) :
    ∃ paths : List (List Nat),
      handleFindPaths (some db) start finish maxPaths maxDepth=
        .ok (pathsReply (paths.map (renderPath blocks))) ∧
      (paths.map (renderPath blocks)).Nodup ∧
      paths.length ≤ max maxPaths.toNat 1 ∧
      (∀ p ∈ paths,SimplePath (Flows blocks) i j p ∧ p.length-1 ≤ max maxDepth.toNat 1) ∧
      (paths.length < max maxPaths.toNat 1 →
        ∀ p,SimplePath (Flows blocks) i j p → p.length-1 ≤ max maxDepth.toNat 1 → p ∈ paths) := by
  have hnext : (fun a b => b ∈ nextIndices blocks a)=Flows blocks := by
    funext a b
    exact propext (mem_nextIndices hgraph.distinct a b)
  obtain ⟨paths,hdfs,hnodup,hcount,hsound,hcomplete⟩:=
    dfs_exact (nextIndices_nodup hgraph) i j (renderPath blocks) (max maxDepth.toNat 1)
      (max maxPaths.toNat 1)
  rw [hnext] at hsound hcomplete
  have hi : i < blocks.length := (List.findIdx?_eq_some_iff_findIdx_eq.mp hlocated.first).1
  refine ⟨paths,?_,?_,hcount,?_,?_⟩
  · rw [handleFindPaths_located hlocated,hdfs]
  · exact hnodup.map_on fun p hp q hq h => renderPath_injective hgraph.distinct
      (path_in_range (hsound p hp).1 hi) (path_in_range (hsound q hq).1 hi) h
  · intro p hp
    have:=hsound p hp
    exact ⟨this.1,by omega⟩
  · exact fun hfew p hp hlen => hcomplete hfew p hp (by omega)

/-- A loop with an exit: blocks 0x10, 0x14 and 0x18. -/
def loopBlocks : List BasicBlock :=
  [⟨0x10,0x14,[0x14]⟩,⟨0x14,0x18,[0x10,0x18]⟩,⟨0x18,0x20,[]⟩]

def loopDb : Idb :=
  { Idb.empty with
    functionAt := fun _ => some ⟨0x10,0x20,none,by decide⟩
    cfg := fun _ => .ok loopBlocks }

theorem handleFindPaths_loop : ∃ paths : List (List Nat),
    handleFindPaths (some loopDb) 0x11 0x18 4 8=
      .ok (pathsReply (paths.map (renderPath loopBlocks))) ∧
    (paths.map (renderPath loopBlocks)).Nodup ∧ paths.length ≤ 4 ∧
    (∀ p ∈ paths,SimplePath (Flows loopBlocks) 0 2 p ∧ p.length-1 ≤ 8) ∧
    (paths.length < 4 → ∀ p,SimplePath (Flows loopBlocks) 0 2 p → p.length-1 ≤ 8 → p ∈ paths) :=
  handleFindPaths_exact loopDb 0x11 0x18 loopBlocks 0 2 ⟨by decide,by decide⟩
    ⟨⟨_,rfl,by decide,rfl⟩,by decide,by decide⟩ 4 8

end Ida
