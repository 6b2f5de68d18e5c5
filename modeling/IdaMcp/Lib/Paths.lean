import IdaMcp.Lib.Capped
import Mathlib.Data.List.Chain
import Mathlib.Data.List.Nodup

/-!
# Depth-first search for paths

A search with backtracking for the simple paths to a target. It gives up a path
that grows too deep and ends as a whole with enough paths; what it returns is
compared with the list of all simple paths, in the order of the successors.
-/

namespace Lib
variable {α β : Type} [DecidableEq α]

section
variable (succs : α → List α) (target : α) (render : List α → β) (maxDepth maxPaths : Nat)

mutual
def dfs (cur : α) (path : List α) (results : List β) : List β :=
  if maxPaths ≤ results.length then results
  else if maxDepth < path.length then results
  else
    let path:=path++[cur]
    if cur=target then results++[render path]
    else dfsEach (succs cur) path results
  termination_by (maxDepth+1-path.length,0)
  decreasing_by
    rw [List.length_append,List.length_singleton]
    exact Prod.Lex.left _ _ (by omega)

def dfsEach (nexts path : List α) (results : List β) : List β :=
  match nexts with
  | [] => results
  | next::nexts =>
    if next ∈ path then dfsEach nexts path results
    else
      let results:=dfs next path results
      if maxPaths ≤ results.length then results else dfsEach nexts path results
  termination_by (maxDepth+1-path.length,nexts.length+1)
end

/-- All of them, when `left` more may be put on the path. -/
def pathsFrom : (left : Nat) → α → List α → List (List α)
  | 0,_,_ => []
  | left+1,cur,path =>
    let path:=path++[cur]
    if cur=target then [path]
    else (succs cur).flatMap fun next => if next ∈ path then [] else pathsFrom left next path

end

section
variable {succs : α → List α} {target : α} {render : List α → β} {maxDepth maxPaths : Nat}

theorem dfsEach_eq {left : Nat} {path : List α} (nexts : List α) {results : List β}
    (hdfs : ∀ next (results : List β),results.length ≤ maxPaths →
      dfs succs target render maxDepth maxPaths next path results=
        capped maxPaths results ((pathsFrom succs target left next path).map render))
    (h : results.length ≤ maxPaths) :
    dfsEach succs target render maxDepth maxPaths nexts path results=
      capped maxPaths results ((nexts.flatMap fun next =>
        if next ∈ path then [] else pathsFrom succs target left next path).map render) := by
  induction nexts generalizing results with
  | nil => rw [dfsEach,List.flatMap_nil,List.map_nil,capped_nil h]
  | cons next nexts ih =>
    rw [dfsEach,List.flatMap_cons,List.map_append]
    by_cases hp : next ∈ path
    · rw [if_pos hp,if_pos hp,List.map_nil,List.nil_append,ih h]
    · have hl:=length_capped_le maxPaths results
        ((pathsFrom succs target left next path).map render)
      rw [if_neg hp,if_neg hp,hdfs next results h,← capped_append]
      by_cases hf : maxPaths ≤ (capped maxPaths results
          ((pathsFrom succs target left next path).map render)).length
      · rw [capped_full hl hf]
        exact if_pos hf
      · rw [← ih hl]
        exact if_neg hf

theorem dfs_eq (left : Nat) (cur : α) (path : List α) (results : List β)
    (hleft : maxDepth+1-path.length=left) (h : results.length ≤ maxPaths) :
    dfs succs target render maxDepth maxPaths cur path results=
      capped maxPaths results ((pathsFrom succs target left cur path).map render) := by
  induction left generalizing cur path results with
  | zero =>
    rw [dfs,pathsFrom,List.map_nil,capped_nil h,if_pos (show maxDepth < path.length by omega),
      ite_self]
  | succ left ih =>
    have hdepth : ¬maxDepth < path.length := by omega
    rw [dfs,pathsFrom,if_neg hdepth]
    by_cases hf : maxPaths ≤ results.length
    · rw [if_pos hf,capped_full h hf]
    · rw [if_neg hf]
      dsimp only
      by_cases ht : cur=target
      · rw [if_pos ht,if_pos ht,List.map_singleton,capped_push,capped_nil]
        rw [List.length_append,List.length_singleton]
        omega
      · rw [if_neg ht,if_neg ht]
        have hlen : maxDepth+1-(path++[cur]).length=left := by
          rw [List.length_append,List.length_singleton]
          omega
        exact dfsEach_eq (succs cur) (fun next results => ih next (path++[cur]) results hlen) h

end

/-- From the source to the target, step by step, and nowhere twice. -/
structure SimplePath (next : α → α → Prop) (source target : α) (p : List α) : Prop where
  starts : p.head?=some source
  ends : p.getLast?=some target
  steps : p.IsChain next
  simple : p.Nodup

omit [DecidableEq α] in
theorem simplePath_iff {next : α → α → Prop} {source target : α} {p : List α} :
    SimplePath next source target p ↔ (source=target ∧ p=[source]) ∨
      ∃ mid rest,p=source::rest ∧ next source mid ∧ SimplePath next mid target rest ∧
        source ∉ rest := by
  constructor
  · rintro ⟨hs,he,hc,hn⟩
    cases p with
    | nil => cases hs
    | cons a rest =>
      cases hs
      cases rest with
      | nil => exact .inl ⟨Option.some.inj he,rfl⟩
      | cons mid rest =>
        have hc:=List.isChain_cons_cons.mp hc
        have hn:=List.nodup_cons.mp hn
        exact .inr ⟨mid,mid::rest,rfl,hc.1,⟨rfl,he,hc.2,hn.2⟩,hn.1⟩
  · rintro (⟨rfl,rfl⟩ | ⟨mid,rest,rfl,hstep,hrest,hout⟩)
    · exact ⟨rfl,rfl,List.IsChain.singleton _,List.nodup_singleton _⟩
    · cases rest with
      | nil => cases hrest.starts
      | cons b rest =>
        cases hrest.starts
        exact ⟨rfl,hrest.ends,List.isChain_cons_cons.mpr ⟨hstep,hrest.steps⟩,
          List.nodup_cons.mpr ⟨hout,hrest.simple⟩⟩

section
variable {succs : α → List α} {source target : α} {left : Nat} {path p : List α}

theorem mem_pathsFrom_succ :
    p ∈ pathsFrom succs target (left+1) source path ↔ (source=target ∧ p=path++[source]) ∨
      source ≠ target ∧ ∃ mid ∈ succs source,mid ∉ path++[source] ∧
        p ∈ pathsFrom succs target left mid (path++[source]) := by
  rw [pathsFrom]
  by_cases ht : source=target
  · simp [ht]
  · rw [if_neg ht,List.mem_flatMap]
    constructor
    · rintro ⟨mid,hmid,h⟩
      by_cases hp : mid ∈ path++[source]
      · rw [if_pos hp] at h
        cases h
      · rw [if_neg hp] at h
        exact .inr ⟨ht,mid,hmid,hp,h⟩
    · rintro (⟨h,-⟩ | ⟨-,mid,hmid,hp,h⟩)
      · exact absurd h ht
      · exact ⟨mid,hmid,by rwa [if_neg hp]⟩

theorem shape_of_mem_pathsFrom (h : p ∈ pathsFrom succs target left source path) :
    ∃ rest,p=path++source::rest := by
  induction left generalizing source path with
  | zero => cases h
  | succ left ih =>
    rcases mem_pathsFrom_succ.mp h with ⟨-,rfl⟩ | ⟨-,mid,-,-,h⟩
    · exact ⟨[],rfl⟩
    · obtain ⟨rest,rfl⟩:=ih h
      exact ⟨mid::rest,by rw [List.append_assoc]; rfl⟩

theorem mem_pathsFrom (hsource : source ∉ path) :
    p ∈ pathsFrom succs target left source path ↔
      ∃ rest,p=path++rest ∧ SimplePath (fun a b => b ∈ succs a) source target rest ∧
        path.Disjoint rest ∧ rest.length ≤ left := by
  induction left generalizing source path with
  | zero =>
    refine ⟨fun h => (by cases h),?_⟩
    rintro ⟨rest,-,hrest,-,hlen⟩
    rw [List.length_eq_zero_iff.mp (Nat.le_zero.mp hlen)] at hrest
    cases hrest.starts
  | succ left ih =>
    rw [mem_pathsFrom_succ]
    constructor
    · rintro (⟨rfl,rfl⟩ | ⟨-,mid,hmid,hp,h⟩)
      · exact ⟨[source],rfl,simplePath_iff.mpr (.inl ⟨rfl,rfl⟩),List.disjoint_singleton.mpr hsource,
          Nat.succ_le_succ (Nat.zero_le _)⟩
      · obtain ⟨rest,rfl,hrest,hdis,hlen⟩:=(ih hp).mp h
        have hdis:=List.disjoint_append_left.mp hdis
        have hout : source ∉ rest := List.singleton_disjoint.mp hdis.2
        refine ⟨source::rest,by rw [List.append_assoc]; rfl,
          simplePath_iff.mpr (.inr ⟨mid,rest,rfl,hmid,hrest,hout⟩),?_,Nat.succ_le_succ hlen⟩
        exact List.disjoint_cons_right.mpr ⟨hsource,hdis.1⟩
    · rintro ⟨rest,rfl,hrest,hdis,hlen⟩
      rcases simplePath_iff.mp hrest with ⟨ht,rfl⟩ | ⟨mid,rest,rfl,hstep,hrest,hout⟩
      · exact .inl ⟨ht,rfl⟩
      · have hdis:=List.disjoint_cons_right.mp hdis
        have hmid : mid ∈ rest := List.mem_of_mem_head? hrest.starts
        have htarget : target ∈ rest := List.mem_of_getLast? hrest.ends
        have hp : mid ∉ path++[source] := by
          intro h
          rcases List.mem_append.mp h with h | h
          · exact hdis.2 h hmid
          · exact hout (List.mem_singleton.mp h ▸ hmid)
        refine .inr ⟨fun h => hout (h ▸ htarget),mid,hstep,hp,(ih hp).mpr ⟨rest,?_,hrest,?_,?_⟩⟩
        · rw [List.append_assoc]
          rfl
        · exact List.disjoint_append_left.mpr ⟨hdis.2,List.singleton_disjoint.mpr hout⟩
        · exact Nat.le_of_succ_le_succ hlen

theorem pathsFrom_nodup (hsuccs : ∀ a,(succs a).Nodup) :
    (pathsFrom succs target left source path).Nodup := by
  induction left generalizing source path with
  | zero => exact List.nodup_nil
  | succ left ih =>
    rw [pathsFrom]
    by_cases ht : source=target
    · rw [if_pos ht]
      exact List.nodup_singleton _
    · rw [if_neg ht]
      refine List.nodup_flatMap.mpr ⟨fun mid _ => ?_,(hsuccs source).imp fun {a b} hab => ?_⟩
      · split
        · exact List.nodup_nil
        · exact ih
      · /- Two successors stand at the same place of the paths through them. -/
        intro p ha hb
        dsimp only at ha hb
        split at ha
        · cases ha
        split at hb
        · cases hb
        obtain ⟨as,rfl⟩:=shape_of_mem_pathsFrom ha
        obtain ⟨bs,h⟩:=shape_of_mem_pathsFrom hb
        exact hab (List.cons.inj (List.append_cancel_left h)).1

end

theorem dfs_exact {succs : α → List α} (hsuccs : ∀ a,(succs a).Nodup) (source target : α)
    (render : List α → β) (maxDepth maxPaths : Nat) :
    ∃ paths : List (List α),
      dfs succs target render maxDepth maxPaths source [] []=paths.map render ∧
      paths.Nodup ∧ paths.length ≤ maxPaths ∧
      (∀ p ∈ paths,SimplePath (fun a b => b ∈ succs a) source target p ∧ p.length ≤ maxDepth+1) ∧
      (paths.length < maxPaths → ∀ p,SimplePath (fun a b => b ∈ succs a) source target p →
        p.length ≤ maxDepth+1 → p ∈ paths) := by
  have hmem : ∀ p,p ∈ pathsFrom succs target (maxDepth+1) source [] ↔
      SimplePath (fun a b => b ∈ succs a) source target p ∧ p.length ≤ maxDepth+1 := by
    intro p
    rw [mem_pathsFrom List.not_mem_nil]
    constructor
    · rintro ⟨rest,rfl,hrest,-,hlen⟩
      exact ⟨hrest,hlen⟩
    · rintro ⟨hp,hlen⟩
      exact ⟨p,rfl,hp,List.disjoint_nil_left _,hlen⟩
  refine ⟨(pathsFrom succs target (maxDepth+1) source []).take maxPaths,?_,?_,?_,?_,?_⟩
  · rw [dfs_eq (maxDepth+1) source [] [] rfl (Nat.zero_le _),capped,List.nil_append,List.map_take]
  · exact (pathsFrom_nodup hsuccs).sublist (List.take_sublist ..)
  · exact List.length_take_le ..
  · exact fun p hp => (hmem p).mp (List.mem_of_mem_take hp)
  · intro hfew p hp hlen
    rw [List.length_take] at hfew
    rw [List.take_of_length_le (by omega)]
    exact (hmem p).mpr ⟨hp,hlen⟩

end Lib
