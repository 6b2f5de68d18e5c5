import IdaMcp.Ida.Calls
import IdaMcp.Lib.Breadth

/-!
# Call graphs (`src/ida/handlers/controlflow.rs`)

`handle_callgraph` searches from a function along what `handle_callees` reports.
The nodes stand in the order in which they were met; the source keeps them in a
map and returns them in the order of that map.
-/

namespace Ida
open Lib Rpc
variable {db : Idb} {addr : UInt64}

/-- The callees whose address can be read, lines 303-305. -/
def reported (db : Idb) (addr : UInt64) : List (UInt64 × FunctionInfo) :=
  match handleCallees (some db) addr with
  | .ok callees => callees.filterMap fun callee =>
    match parseAddressStr callee.address with
    | .ok target => some (target,callee)
    | .error _ => none
  | .error _ => []

def graphReply (s : Search UInt64 FunctionInfo) : Json :=
  .ofFields [("nodes",.arr (s.nodes.map fun n => n.2.json)),
    ("edges",.arr (s.edges.map fun e =>
      .ofFields [("from",.str (hexText e.1)),("to",.str (hexText e.2))]))]

/-- Lines 280-315. -/
def callgraph (db : Idb) (root : Function) (maxDepth maxNodes : UInt64) :
    Search UInt64 FunctionInfo :=
  bfs (reported db) (max maxDepth.toNat 1) (max maxNodes.toNat 1)
    (Search.init (root.start,root.info))

def handleCallgraph (idb : Option Idb) (addr maxDepth maxNodes : UInt64) : Result Json := do
  let db ← openDb idb
  match db.functionAt addr with
  | none => .error (.functionNotFound addr)
  | some root => return graphReply (callgraph db root maxDepth maxNodes)

theorem handleCallgraph_eq {root : Function} (h : db.functionAt addr=some root)
    (maxDepth maxNodes : UInt64) : handleCallgraph (some db) addr maxDepth maxNodes=
      .ok (graphReply (callgraph db root maxDepth maxNodes)) := by
  simp only [handleCallgraph,openDb,bind,Except.bind,h]
  rfl

theorem reported_eq {f : Function} (h : db.functionAt addr=some f) :
    reported db addr=(calleesFrom db f.finish f.start []).map fun g => (g.start,g.info) := by
  have hc : handleCallees (some db) addr=
      .ok ((calleesFrom db f.finish f.start []).map Function.info) := by
    simp only [handleCallees,openDb,bind,Except.bind,h]
    rfl
  rw [reported,hc]
  dsimp only
  rw [List.filterMap_map,← List.filterMap_eq_map]
  congr 1
  funext g
  have hp : parseAddressStr g.info.address=.ok g.start := parseAddressStr_hexText g.start
  simp only [Function.comp_apply,hp]

theorem reported_none (h : db.functionAt addr=none) : reported db addr=[] := by
  have hc : handleCallees (some db) addr=.error (.functionNotFound addr) := by
    simp only [handleCallees,openDb,bind,Except.bind,h]
  rw [reported,hc]

theorem reported_nodup (db : Idb) (addr : UInt64) : ((reported db addr).map Prod.fst).Nodup := by
  cases h : db.functionAt addr with
  | none =>
    rw [reported_none h]
    exact List.nodup_nil
  | some f =>
    rw [reported_eq h,List.map_map]
    exact calleesFrom_nodup f.finish f.start

theorem reported_address (db : Idb) (addr : UInt64) :
    ∀ n ∈ reported db addr,n.2.address=hexText n.1 := by
  cases h : db.functionAt addr with
  | none =>
    rw [reported_none h]
    exact fun n hn => (by cases hn)
  | some f =>
    rw [reported_eq h]
    intro n hn
    obtain ⟨g,-,rfl⟩:=List.mem_map.mp hn
    rfl

theorem callgraph_address (db : Idb) (root : Function) (maxDepth maxNodes : UInt64) :
    ∀ n ∈ (callgraph db root maxDepth maxNodes).nodes,n.2.address=hexText n.1 := by
  refine bfs_nodes (reported_address db) _ fun n hn => ?_
  rw [List.mem_singleton.mp hn]
  rfl

/-- With room for every function in reach, the nodes are those functions and the edges are the
calls of all that are nearer than the last depth. -/
theorem handleCallgraph_exact (db : Idb) (addr : UInt64) (root : Function)
    (hroot : db.functionAt addr=some root) (maxDepth maxNodes : UInt64)
    (hbudget : (reach (reported db) root.start
      (max maxDepth.toNat 1)).card < max maxNodes.toNat 1) :
    ∃ s,handleCallgraph (some db) addr maxDepth maxNodes=.ok (graphReply s) ∧
      (∀ n ∈ s.nodes,n.2.address=hexText n.1) ∧
      s.keys.Nodup ∧
      s.keys.toFinset=reach (reported db) root.start (max maxDepth.toNat 1) ∧
      s.edges.Nodup ∧
      ∀ a b,(a,b) ∈ s.edges ↔
        (∃ n < max maxDepth.toNat 1,a ∈ reach (reported db) root.start n) ∧
          b ∈ (reported db a).map Prod.fst := by
  exact ⟨callgraph db root maxDepth maxNodes,handleCallgraph_eq hroot maxDepth maxNodes,
    callgraph_address db root maxDepth maxNodes,
    bfs_exact (reported_nodup db) (root.start,root.info) hbudget⟩

/-- A call graph keeps to its budget, and every end of an edge is a node, shown at its own
address, unless the search without a budget goes from fewer nodes to more nodes than that in one
turn. -/
theorem handleCallgraph_wellFormed_iff (db : Idb) (addr : UInt64) (root : Function)
    (hroot : db.functionAt addr=some root) (maxDepth maxNodes : UInt64) :
    ∃ s,handleCallgraph (some db) addr maxDepth maxNodes=.ok (graphReply s) ∧
      (∀ n ∈ s.nodes,n.2.address=hexText n.1) ∧
      ((s.nodes.length ≤ max maxNodes.toNat 1 ∧ s.Closed) ↔
        ¬(Search.init (root.start,root.info)).Overruns (reported db) (max maxDepth.toNat 1)
          (max maxNodes.toNat 1)) := by
  refine ⟨callgraph db root maxDepth maxNodes,handleCallgraph_eq hroot maxDepth maxNodes,
    callgraph_address db root maxDepth maxNodes,?_⟩
  obtain ⟨hlen,hiff⟩:=bfs_closed_iff (reported_nodup db) (max maxDepth.toNat 1)
    (Search.init (root.start,root.info)) (Search.init_linked _) (Nat.le_max_right ..)
  exact ⟨fun h => hiff.mp h.2,fun h => ⟨hlen,hiff.mpr h⟩⟩

def forkRoot : Function := ⟨0x10,0x18,none,by decide⟩
def forkLeft : Function := ⟨0x20,0x28,none,by decide⟩
def forkRight : Function := ⟨0x30,0x38,none,by decide⟩

def forkDb : Idb :=
  { Idb.empty with
    functionAt := fun a => [forkRoot,forkLeft,forkRight].find? (·.containsAddress a)
    xrefsFrom := fun a => if a=0x10 then [⟨0x10,0x20,.nearCall⟩,⟨0x10,0x30,.nearCall⟩] else [] }

theorem reported_fork :
    reported forkDb 0x10=[(0x20,forkLeft.info),(0x30,forkRight.info)] := by
  have hstep : calleesFrom forkDb 0x18 0x10 []=[forkLeft,forkRight] := by
    rw [calleesFrom]
    rfl
  have hroot : forkDb.functionAt 0x10=some forkRoot := rfl
  rw [reported_eq hroot]
  exact congrArg (List.map fun g => (g.start,g.info)) hstep

theorem reach_fork : reach (reported forkDb) 0x10 1={0x10,0x20,0x30} := by
  rw [reach,reach,Finset.singleton_biUnion,reported_fork]
  decide

theorem handleCallgraph_fork :
    ∃ s,handleCallgraph (some forkDb) 0x10 1 9=.ok (graphReply s) ∧
      (∀ n ∈ s.nodes,n.2.address=hexText n.1) ∧ s.keys.Nodup ∧
      s.keys.toFinset=reach (reported forkDb) 0x10 1 ∧ s.edges.Nodup ∧
      ∀ a b,(a,b) ∈ s.edges ↔ (∃ n < 1,a ∈ reach (reported forkDb) 0x10 n) ∧
        b ∈ (reported forkDb a).map Prod.fst :=
  handleCallgraph_exact forkDb 0x10 forkRoot rfl 1 9
    (Nat.lt_of_le_of_lt (Nat.le_of_eq (congrArg Finset.card reach_fork)) (by decide))

theorem handleCallgraph_wellFormed_fork :
    ∃ s,handleCallgraph (some forkDb) 0x10 1 2=.ok (graphReply s) ∧
      (∀ n ∈ s.nodes,n.2.address=hexText n.1) ∧
      ((s.nodes.length ≤ 2 ∧ s.Closed) ↔
        ¬(Search.init (forkRoot.start,forkRoot.info)).Overruns (reported forkDb) 1 2) :=
  handleCallgraph_wellFormed_iff forkDb 0x10 forkRoot rfl 1 2

/-- With room for two functions the graph has an edge to a third. -/
theorem handleCallgraph_dangling :
    ∃ s,handleCallgraph (some forkDb) 0x10 1 2=.ok (graphReply s) ∧
      (∀ n ∈ s.nodes,n.2.address=hexText n.1) ∧ s.nodes.length=2 ∧
      (0x10,0x30) ∈ s.edges ∧ 0x30 ∉ s.keys := by
  have hs : callgraph forkDb forkRoot 1 2=
      ⟨[(0x10,forkRoot.info),(0x20,forkLeft.info)],[(0x10,0x20),(0x10,0x30)],[]⟩ := by
    change bfs (reported forkDb) 1 2 ⟨[(0x10,forkRoot.info)],[],[(0x10,0)]⟩=_
    rw [bfs,if_neg (by decide),if_neg (by decide),reported_fork]
    change bfs (reported forkDb) 1 2 ⟨[(0x10,forkRoot.info),(0x20,forkLeft.info)],
      [(0x10,0x20),(0x10,0x30)],[(0x20,1)]⟩=_
    rw [bfs,if_pos (Nat.le_refl _),bfs]
  refine ⟨callgraph forkDb forkRoot 1 2,handleCallgraph_eq rfl 1 2,
    callgraph_address forkDb forkRoot 1 2,?_⟩
  rw [hs]
  exact ⟨rfl,by decide,by decide⟩

end Ida
