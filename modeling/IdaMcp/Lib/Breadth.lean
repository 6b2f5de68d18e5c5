import Mathlib.Data.Finset.Card
import Mathlib.Data.Finset.Union
import Mathlib.Data.List.Nodup

/-!
# Breadth-first search with a depth and a budget

A search that tags what it meets with a depth, does not go on from the last
depth, and ends when it holds as many nodes as it may. Edges are noted before
it is known whether their end becomes a node.
-/

namespace Lib
variable {α β : Type} [DecidableEq α]

structure Search (α β : Type) where
  nodes : List (α × β)
  edges : List (α × α)
  queue : List (α × Nat)

namespace Search

def keys (s : Search α β) : List α := s.nodes.map Prod.fst

def init (root : α × β) : Search α β := ⟨[root],[],[(root.1,0)]⟩

/-- One successor: its edge, and the node when it is new and there is room. -/
def meet (maxNodes : Nat) (cur : α) (depth : Nat) (s : Search α β) (next : α × β) : Search α β :=
  let s:={ s with edges := s.edges++[(cur,next.1)] }
  if next.1 ∉ s.keys ∧ s.nodes.length < maxNodes then
    { s with nodes := s.nodes++[next], queue := s.queue++[(next.1,depth+1)] }
  else s

/-- What a list of successors makes of a search, when none of them comes twice. -/
def extend (cur : α) (depth : Nat) (nexts new : List (α × β)) (s : Search α β) : Search α β where
  nodes := s.nodes++new
  edges := s.edges++nexts.map fun next => (cur,next.1)
  queue := s.queue++new.map fun next => (next.1,depth+1)

/-- The successors that are no nodes yet. -/
def fresh (s : Search α β) (nexts : List (α × β)) : List (α × β) :=
  nexts.filter fun next => !s.keys.contains next.1

theorem mem_fresh {s : Search α β} {nexts : List (α × β)} {next : α × β} :
    next ∈ s.fresh nexts ↔ next ∈ nexts ∧ next.1 ∉ s.keys := by
  simp [fresh]

theorem foldl_meet {maxNodes : Nat} {cur : α} {depth : Nat} (nexts : List (α × β))
    (h : (nexts.map Prod.fst).Nodup) (s : Search α β) :
    nexts.foldl (meet maxNodes cur depth) s=
      s.extend cur depth nexts ((s.fresh nexts).take (maxNodes-s.nodes.length)) := by
  induction nexts generalizing s with
  | nil => simp [extend,fresh]
  | cons next nexts ih =>
    obtain ⟨hout,h⟩:=List.nodup_cons.mp h
    rw [List.foldl_cons,ih h,meet]
    dsimp only
    by_cases hk : next.1 ∈ s.keys
    · have hf : s.fresh (next::nexts)=s.fresh nexts := List.filter_cons_of_neg (by simpa using hk)
      have hm : next.1 ∈ keys { s with edges := s.edges++[(cur,next.1)] } := hk
      rw [if_neg fun hn => hn.1 hm,hf]
      simp only [extend,List.map_cons,List.append_assoc,List.singleton_append]
      rfl
    · have hf : s.fresh (next::nexts)=next::s.fresh nexts :=
        List.filter_cons_of_pos (by simpa using hk)
      have hm : next.1 ∉ keys { s with edges := s.edges++[(cur,next.1)] } := hk
      rw [hf]
      by_cases hroom : s.nodes.length < maxNodes
      · obtain ⟨room,hr⟩ : ∃ room,maxNodes-s.nodes.length=room+1 :=
          ⟨maxNodes-s.nodes.length-1,by omega⟩
        have hr' : maxNodes-(s.nodes++[next]).length=room := by
          rw [List.length_append,List.length_singleton]
          omega
        have hsame : nexts.filter (fun n => !((s.nodes++[next]).map Prod.fst).contains n.1)=
            s.fresh nexts := by
          apply List.filter_congr
          intro n hn
          have hne : n.1 ≠ next.1 := fun he => hout (he ▸ List.mem_map_of_mem hn)
          simp [hne,keys]
        rw [if_pos ⟨hm,hroom⟩,hr]
        simp only [extend,fresh,keys,hr',hsame,List.map_cons,List.take_succ_cons,List.append_assoc,
          List.singleton_append]
      · have hr : maxNodes-s.nodes.length=0 := by omega
        rw [if_neg fun hn => hroom hn.2,hr]
        simp only [extend,List.map_cons,List.append_assoc,List.singleton_append,List.take_zero]

/-- How often the search may still turn. -/
def turns (maxNodes : Nat) (s : Search α β) : Nat := maxNodes-s.nodes.length+s.queue.length

theorem turns_meet (maxNodes : Nat) (cur : α) (depth : Nat) (s : Search α β) (next : α × β) :
    (meet maxNodes cur depth s next).turns maxNodes=s.turns maxNodes := by
  rw [meet]
  dsimp only
  split
  · rename_i h
    have hroom : s.nodes.length < maxNodes := h.2
    simp only [turns,List.length_append,List.length_singleton]
    omega
  · rfl

theorem turns_foldl (maxNodes : Nat) (cur : α) (depth : Nat) (nexts : List (α × β))
    (s : Search α β) :
    (nexts.foldl (meet maxNodes cur depth) s).turns maxNodes=s.turns maxNodes := by
  induction nexts generalizing s with
  | nil => rfl
  | cons next nexts ih => rw [List.foldl_cons,ih,turns_meet]

end Search

open Search

def bfs (succs : α → List (α × β)) (maxDepth maxNodes : Nat) : Search α β → Search α β
  | ⟨nodes,edges,[]⟩ => ⟨nodes,edges,[]⟩
  | ⟨nodes,edges,(cur,depth)::queue⟩ =>
    if maxDepth ≤ depth then bfs succs maxDepth maxNodes ⟨nodes,edges,queue⟩
    else if maxNodes ≤ nodes.length then ⟨nodes,edges,queue⟩
    else bfs succs maxDepth maxNodes
      ((succs cur).foldl (meet maxNodes cur depth) ⟨nodes,edges,queue⟩)
  termination_by s => s.turns maxNodes
  decreasing_by
    · simp only [turns,List.length_cons]
      omega
    · rw [turns_foldl]
      simp only [turns,List.length_cons]
      omega

/-- What is at most so many steps from the root. -/
def reach (succs : α → List (α × β)) (root : α) : Nat → Finset α
  | 0 => {root}
  | n+1 => reach succs root n ∪
      (reach succs root n).biUnion fun a => ((succs a).map Prod.fst).toFinset

section
variable {succs : α → List (α × β)} {root : α} {maxDepth maxNodes : Nat}

theorem mem_reach_succ {n : Nat} {b : α} :
    b ∈ reach succs root (n+1) ↔ b ∈ reach succs root n ∨
      ∃ a ∈ reach succs root n,∃ next ∈ succs a,next.1=b := by
  simp [reach]

theorem reach_mono {m n : Nat} (h : m ≤ n) : reach succs root m ⊆ reach succs root n := by
  induction h with
  | refl => exact Finset.Subset.refl _
  | step _ ih => exact ih.trans fun a ha => mem_reach_succ.mpr (.inl ha)

/-- The nodes are those taken from the queue and those still in it, in the order of their
depth, which is their distance. -/
structure Reached (succs : α → List (α × β)) (root : α) (maxDepth : Nat) (done : List (α × Nat))
    (s : Search α β) : Prop where
  keys_eq : s.keys=(done++s.queue).map Prod.fst
  root_mem : root ∈ s.keys
  nodup : s.keys.Nodup
  within : ∀ e ∈ done++s.queue,e.1 ∈ reach succs root e.2
  nearest : ∀ e ∈ done++s.queue,∀ n < e.2,e.1 ∉ reach succs root n
  shallow : ∀ e ∈ done++s.queue,e.2 ≤ maxDepth
  sorted : (done++s.queue).Pairwise fun e f => e.2 ≤ f.2
  close : ∀ e ∈ s.queue,∀ f ∈ s.queue,f.2 ≤ e.2+1
  closed : ∀ e ∈ done,e.2 < maxDepth → ∀ next ∈ succs e.1,next.1 ∈ s.keys
  edges_eq : s.edges=(done.filter (·.2 < maxDepth)).flatMap fun e =>
    (succs e.1).map fun next => (e.1,next.1)

namespace Reached

theorem init (root : α × β) : Reached succs root.1 maxDepth [] (Search.init root) where
  keys_eq := rfl
  root_mem := List.mem_singleton_self _
  nodup := List.nodup_singleton _
  within := by simp [Search.init,reach]
  nearest := by simp [Search.init]
  shallow := by simp [Search.init]
  sorted := List.pairwise_singleton _ _
  close := by simp [Search.init]
  closed := by simp
  edges_eq := rfl

variable {done : List (α × Nat)} {s : Search α β}

theorem mem_within (h : Reached succs root maxDepth done s) {a : α} (ha : a ∈ s.keys) :
    ∃ d,(a,d) ∈ done++s.queue := by
  rw [h.keys_eq] at ha
  obtain ⟨e,he,rfl⟩:=List.mem_map.mp ha
  exact ⟨e.2,he⟩

theorem keys_subset (h : Reached succs root maxDepth done s) :
    s.keys.toFinset ⊆ reach succs root maxDepth := by
  intro a ha
  obtain ⟨d,hd⟩:=h.mem_within (List.mem_toFinset.mp ha)
  exact reach_mono (h.shallow _ hd) (h.within _ hd)

theorem room (h : Reached succs root maxDepth done s)
    (hbudget : (reach succs root maxDepth).card < maxNodes) : s.nodes.length < maxNodes := by
  have hc:=Finset.card_le_card h.keys_subset
  rw [List.toFinset_card_of_nodup h.nodup,keys,List.length_map] at hc
  exact Nat.lt_of_le_of_lt hc hbudget

theorem met (h : Reached succs root maxDepth done s) {d n : Nat} (hd : d ≤ maxDepth)
    (hqueue : ∀ e ∈ s.queue,d ≤ e.2) (hn : n ≤ d) {a : α} (ha : a ∈ reach succs root n) :
    a ∈ s.keys := by
  induction n generalizing a with
  | zero =>
    rw [Finset.mem_singleton.mp ha]
    exact h.root_mem
  | succ n ih =>
    rcases mem_reach_succ.mp ha with ha | ⟨b,hb,next,hnext,rfl⟩
    · exact ih (by omega) ha
    · obtain ⟨e,he⟩:=h.mem_within (ih (by omega) hb)
      have hen : e ≤ n := Nat.le_of_not_lt fun hlt => h.nearest _ he n hlt hb
      rcases List.mem_append.mp he with he | he
      · exact h.closed _ he (show e < maxDepth by omega) next hnext
      · have:=hqueue _ he
        omega

variable {nodes : List (α × β)} {edges : List (α × α)} {queue : List (α × Nat)} {cur : α}
  {depth : Nat}

theorem skip (h : Reached succs root maxDepth done ⟨nodes,edges,(cur,depth)::queue⟩)
    (hdepth : maxDepth ≤ depth) :
    Reached succs root maxDepth (done++[(cur,depth)]) ⟨nodes,edges,queue⟩ := by
  have happ : done++[(cur,depth)]++queue=done++(cur,depth)::queue := by simp
  refine ⟨?_,h.root_mem,h.nodup,?_,?_,?_,?_,?_,?_,?_⟩
  · rw [happ]
    exact h.keys_eq
  · rw [happ]
    exact h.within
  · rw [happ]
    exact h.nearest
  · rw [happ]
    exact h.shallow
  · rw [happ]
    exact h.sorted
  · exact fun e he f hf => h.close e (List.mem_cons_of_mem _ he) f (List.mem_cons_of_mem _ hf)
  · intro e he hlt
    rcases List.mem_append.mp he with he | he
    · exact h.closed e he hlt
    · rw [List.mem_singleton.mp he] at hlt
      exact absurd hdepth (Nat.not_le_of_lt hlt)
  · have hdrop : [(cur,depth)].filter (fun e => e.2 < maxDepth)=[] := by
      simp [Nat.not_lt_of_le hdepth]
    rw [List.filter_append,hdrop,List.append_nil]
    exact h.edges_eq

theorem depth_bounds (h : Reached succs root maxDepth done ⟨nodes,edges,(cur,depth)::queue⟩) :
    (∀ e ∈ done,e.2 ≤ depth) ∧ ∀ e ∈ (cur,depth)::queue,depth ≤ e.2 ∧ e.2 ≤ depth+1 := by
  obtain ⟨-,hqueue,hdone⟩:=List.pairwise_append.mp h.sorted
  refine ⟨fun e he => hdone e he (cur,depth) (List.mem_cons_self ..),fun e he => ⟨?_,?_⟩⟩
  · rcases List.mem_cons.mp he with rfl | he
    · exact Nat.le_refl _
    · exact List.rel_of_pairwise_cons hqueue he
  · exact h.close (cur,depth) (List.mem_cons_self ..) e he

theorem grow (hsuccs : ∀ a,((succs a).map Prod.fst).Nodup)
    (h : Reached succs root maxDepth done ⟨nodes,edges,(cur,depth)::queue⟩)
    (hdepth : depth < maxDepth) :
    Reached succs root maxDepth (done++[(cur,depth)])
      (extend cur depth (succs cur) (fresh ⟨nodes,edges,queue⟩ (succs cur))
        ⟨nodes,edges,queue⟩) := by
  generalize hnew : fresh (⟨nodes,edges,queue⟩ : Search α β) (succs cur)=new
  have hmem : ∀ next,next ∈ new ↔ next ∈ succs cur ∧ next.1 ∉ nodes.map Prod.fst := by
    intro next
    rw [← hnew]
    exact mem_fresh
  obtain ⟨hdone,hqueue⟩:=h.depth_bounds
  have hcur : (cur,depth) ∈ done++(cur,depth)::queue :=
    List.mem_append_right _ (List.mem_cons_self ..)
  have happ : done++[(cur,depth)]++(queue++new.map fun next => (next.1,depth+1))=
      done++(cur,depth)::queue++new.map fun next => (next.1,depth+1) := by simp
  /- A property of all entries holds of the old ones and of those put in now. -/
  have hsplit : ∀ {P : α × Nat → Prop},(∀ e ∈ done++(cur,depth)::queue,P e) →
      (∀ next ∈ new,P (next.1,depth+1)) →
      ∀ e ∈ done++(cur,depth)::queue++new.map fun next => (next.1,depth+1),P e := by
    intro P hold hput e he
    rcases List.mem_append.mp he with he | he
    · exact hold e he
    · obtain ⟨next,hn,rfl⟩:=List.mem_map.mp he
      exact hput next hn
  have hkeys : ∀ {a},a ∈ nodes.map Prod.fst → a ∈ (nodes++new).map Prod.fst := by
    intro a ha
    rw [List.map_append]
    exact List.mem_append_left _ ha
  refine ⟨?_,hkeys h.root_mem,?_,?_,?_,?_,?_,?_,?_,?_⟩
  · have hk : nodes.map Prod.fst=_ := h.keys_eq
    simp only [extend,happ,keys,List.map_append,hk,List.map_map]
    rfl
  · simp only [extend,keys,List.map_append]
    have hn : (new.map Prod.fst).Nodup := by
      rw [← hnew]
      exact (hsuccs cur).sublist (List.filter_sublist.map _)
    refine List.nodup_append'.mpr ⟨h.nodup,hn,fun a ha ha' => ?_⟩
    obtain ⟨next,hnext,rfl⟩:=List.mem_map.mp ha'
    exact ((hmem next).mp hnext).2 ha
  · simp only [extend,happ]
    refine hsplit h.within fun next hn => ?_
    exact mem_reach_succ.mpr (.inr ⟨cur,h.within _ hcur,next,((hmem next).mp hn).1,rfl⟩)
  · simp only [extend,happ]
    refine hsplit h.nearest fun next hn n hlt hreach => ?_
    exact ((hmem next).mp hn).2 (h.met (Nat.le_of_lt hdepth) (fun e he => (hqueue e he).1)
      (Nat.le_of_lt_succ hlt) hreach)
  · simp only [extend,happ]
    exact hsplit h.shallow fun _ _ => hdepth
  · simp only [extend,happ]
    refine List.pairwise_append.mpr ⟨h.sorted,?_,fun e he f hf => ?_⟩
    · rw [List.pairwise_map]
      exact List.pairwise_of_forall fun _ _ => Nat.le_refl _
    · obtain ⟨next,-,rfl⟩:=List.mem_map.mp hf
      rcases List.mem_append.mp he with he | he
      · exact Nat.le_succ_of_le (hdone e he)
      · exact (hqueue e he).2
  · have hb : ∀ e ∈ queue++new.map fun next => (next.1,depth+1),depth ≤ e.2 ∧ e.2 ≤ depth+1 := by
      intro e he
      rcases List.mem_append.mp he with he | he
      · exact hqueue e (List.mem_cons_of_mem _ he)
      · obtain ⟨next,-,rfl⟩:=List.mem_map.mp he
        exact ⟨Nat.le_succ _,Nat.le_refl _⟩
    intro e he f hf
    exact (hb f hf).2.trans (Nat.succ_le_succ (hb e he).1)
  · intro e he hlt next hn
    rcases List.mem_append.mp he with he | he
    · exact hkeys (h.closed e he hlt next hn)
    · rw [List.mem_singleton.mp he] at hn
      by_cases hk : next.1 ∈ nodes.map Prod.fst
      · exact hkeys hk
      · exact List.mem_map_of_mem (List.mem_append_right _ ((hmem next).mpr ⟨hn,hk⟩))
  · have htake : [(cur,depth)].filter (fun e => e.2 < maxDepth)=[(cur,depth)] := by simp [hdepth]
    have he : edges=_ := h.edges_eq
    rw [List.filter_append,htake,List.flatMap_append,← he]
    simp [extend]

end Reached

theorem bfs_reached (hsuccs : ∀ a,((succs a).map Prod.fst).Nodup)
    (hbudget : (reach succs root maxDepth).card < maxNodes) (s : Search α β)
    (done : List (α × Nat)) (h : Reached succs root maxDepth done s) :
    ∃ done,Reached succs root maxDepth done (bfs succs maxDepth maxNodes s) ∧
      (bfs succs maxDepth maxNodes s).queue=[] := by
  fun_induction bfs succs maxDepth maxNodes s generalizing done with
  | case1 nodes edges => exact ⟨done,h,rfl⟩
  | case2 nodes edges cur depth queue hdepth ih => exact ih _ (h.skip hdepth)
  | case3 nodes edges cur depth queue hdepth hfull =>
    exact absurd hfull (Nat.not_le_of_lt (h.room hbudget))
  | case4 nodes edges cur depth queue hdepth hroom ih =>
    have hgrow:=h.grow hsuccs (Nat.lt_of_not_le hdepth)
    have hlen:=hgrow.room hbudget
    rw [extend,List.length_append] at hlen
    apply ih (done++[(cur,depth)])
    rw [foldl_meet _ (hsuccs cur),List.take_of_length_le (Nat.le_sub_of_add_le (by
      rw [Nat.add_comm]; exact Nat.le_of_lt hlen))]
    exact hgrow

theorem bfs_exact (hsuccs : ∀ a,((succs a).map Prod.fst).Nodup) (root : α × β)
    (hbudget : (reach succs root.1 maxDepth).card < maxNodes) :
    (bfs succs maxDepth maxNodes (Search.init root)).keys.Nodup ∧
    (bfs succs maxDepth maxNodes (Search.init root)).keys.toFinset=reach succs root.1 maxDepth ∧
    (bfs succs maxDepth maxNodes (Search.init root)).edges.Nodup ∧
    ∀ a b,(a,b) ∈ (bfs succs maxDepth maxNodes (Search.init root)).edges ↔
      (∃ n < maxDepth,a ∈ reach succs root.1 n) ∧ b ∈ (succs a).map Prod.fst := by
  obtain ⟨done,h,hqueue⟩:=bfs_reached hsuccs hbudget _ [] (Reached.init root)
  generalize bfs succs maxDepth maxNodes (Search.init root)=s at h hqueue
  have hmet : ∀ {n},n ≤ maxDepth → ∀ {a},a ∈ reach succs root.1 n → a ∈ s.keys :=
    h.met (Nat.le_refl _) (by rw [hqueue]; exact fun _ he => (by cases he))
  have hdone : done++s.queue=done := by rw [hqueue,List.append_nil]
  have hkeys : s.keys=done.map Prod.fst := by rw [h.keys_eq,hdone]
  have hnodup:=h.nodup
  rw [hkeys] at hnodup
  refine ⟨h.nodup,?_,?_,?_⟩
  · exact Finset.Subset.antisymm h.keys_subset fun a ha =>
      List.mem_toFinset.mpr (hmet (Nat.le_refl _) ha)
  · rw [h.edges_eq]
    have hpart : ((done.filter (·.2 < maxDepth)).map Prod.fst).Nodup :=
      hnodup.sublist (List.filter_sublist.map _)
    refine List.nodup_flatMap.mpr ⟨fun e _ => ?_,?_⟩
    · have hmap : (succs e.1).map (fun next => (e.1,next.1))=
          ((succs e.1).map Prod.fst).map fun b => (e.1,b) := by rw [List.map_map]; rfl
      rw [hmap]
      exact (hsuccs e.1).map fun b c hbc => (Prod.mk.inj hbc).2
    · refine (List.pairwise_map.mp hpart).imp fun {e f} hne p he hf => hne ?_
      obtain ⟨b,-,rfl⟩:=List.mem_map.mp he
      obtain ⟨c,-,hc⟩:=List.mem_map.mp hf
      exact (Prod.mk.inj hc).1.symm
  · intro a b
    rw [h.edges_eq,List.mem_flatMap]
    constructor
    · rintro ⟨e,he,hb⟩
      obtain ⟨next,hn,heq⟩:=List.mem_map.mp hb
      obtain ⟨rfl,rfl⟩:=Prod.mk.inj heq
      obtain ⟨he,hlt⟩:=List.mem_filter.mp he
      exact ⟨⟨e.2,of_decide_eq_true hlt,h.within e (List.mem_append_left _ he)⟩,
        List.mem_map_of_mem hn⟩
    · rintro ⟨⟨n,hn,ha⟩,hb⟩
      obtain ⟨d,hd⟩:=h.mem_within (hmet (Nat.le_of_lt hn) ha)
      have hdn : d ≤ n := Nat.le_of_not_lt fun hlt => h.nearest _ hd n hlt ha
      rw [hdone] at hd
      obtain ⟨next,hnext,rfl⟩:=List.mem_map.mp hb
      exact ⟨(a,d),List.mem_filter.mpr ⟨hd,decide_eq_true (Nat.lt_of_le_of_lt hdn hn)⟩,
        List.mem_map_of_mem hnext⟩

end

theorem bfs_nodes {succs : α → List (α × β)} {maxDepth maxNodes : Nat} {P : α × β → Prop}
    (hsuccs : ∀ a,∀ next ∈ succs a,P next) (s : Search α β) (h : ∀ n ∈ s.nodes,P n) :
    ∀ n ∈ (bfs succs maxDepth maxNodes s).nodes,P n := by
  fun_induction bfs succs maxDepth maxNodes s with
  | case1 => exact h
  | case2 nodes edges cur depth queue _ ih => exact ih h
  | case3 => exact h
  | case4 nodes edges cur depth queue _ _ ih =>
    refine ih (List.foldlRecOn (motive := fun s : Search α β => ∀ n ∈ s.nodes,P n) _ _ h
      fun s hs next hnext => ?_)
    rw [meet]
    split
    · intro n hn
      rcases List.mem_append.mp hn with hn | hn
      · exact hs n hn
      · rw [List.mem_singleton.mp hn]
        exact hsuccs cur next hnext
    · exact hs

/-- One turn of the search when it has all the room it wants. -/
def Search.round (succs : α → List (α × β)) (maxDepth : Nat) : Search α β → Search α β
  | ⟨nodes,edges,[]⟩ => ⟨nodes,edges,[]⟩
  | ⟨nodes,edges,(cur,depth)::queue⟩ =>
    if maxDepth ≤ depth then ⟨nodes,edges,queue⟩
    else extend cur depth (succs cur) (fresh ⟨nodes,edges,queue⟩ (succs cur)) ⟨nodes,edges,queue⟩

/-- How many nodes there are after so many turns. -/
def Search.size (succs : α → List (α × β)) (maxDepth : Nat) (s : Search α β) (turn : Nat) : Nat :=
  ((round succs maxDepth)^[turn] s).nodes.length

/-- Every end of an edge is a node. -/
def Search.Closed (s : Search α β) : Prop := ∀ e ∈ s.edges,e.1 ∈ s.keys ∧ e.2 ∈ s.keys

/-- Some turn leads from less than the budget to more than the budget. -/
def Search.Overruns (succs : α → List (α × β)) (maxDepth maxNodes : Nat) (s : Search α β) : Prop :=
  ∃ turn,s.size succs maxDepth turn < maxNodes ∧ maxNodes < s.size succs maxDepth (turn+1)

section
variable {succs : α → List (α × β)} {maxDepth maxNodes : Nat} {s : Search α β}

structure Search.Linked (s : Search α β) : Prop where
  nodup : s.keys.Nodup
  closed : s.Closed
  waiting : ∀ e ∈ s.queue,e.1 ∈ s.keys

omit [DecidableEq α] in
theorem Search.init_linked (root : α × β) : (Search.init root).Linked where
  nodup := List.nodup_singleton _
  closed := fun _ he => (by cases he)
  waiting := by simp [Search.init,keys]

theorem Search.extend_linked {cur : α} {depth : Nat} (hsuccs : ((succs cur).map Prod.fst).Nodup)
    (hcur : cur ∈ s.keys) (h : s.Linked) :
    (s.extend cur depth (succs cur) (s.fresh (succs cur))).Linked := by
  have hkeys : (s.extend cur depth (succs cur) (s.fresh (succs cur))).keys=
      s.keys++(s.fresh (succs cur)).map Prod.fst := List.map_append
  have hold : ∀ {a},a ∈ s.keys → a ∈ s.keys++(s.fresh (succs cur)).map Prod.fst :=
    List.mem_append_left _
  refine ⟨?_,?_,?_⟩
  · rw [hkeys]
    refine List.nodup_append'.mpr ⟨h.nodup,hsuccs.sublist (List.filter_sublist.map _),?_⟩
    intro a ha ha'
    obtain ⟨next,hnext,rfl⟩:=List.mem_map.mp ha'
    exact (mem_fresh.mp hnext).2 ha
  · intro e he
    rw [hkeys]
    rcases List.mem_append.mp he with he | he
    · exact ⟨hold (h.closed e he).1,hold (h.closed e he).2⟩
    · obtain ⟨next,hnext,rfl⟩:=List.mem_map.mp he
      refine ⟨hold hcur,?_⟩
      by_cases hk : next.1 ∈ s.keys
      · exact hold hk
      · exact List.mem_append_right _ (List.mem_map_of_mem (mem_fresh.mpr ⟨hnext,hk⟩))
  · intro e he
    rw [hkeys]
    rcases List.mem_append.mp he with he | he
    · exact hold (h.waiting e he)
    · obtain ⟨next,hnext,rfl⟩:=List.mem_map.mp he
      exact List.mem_append_right _ (List.mem_map_of_mem hnext)

theorem Search.length_le_round (s : Search α β) :
    s.nodes.length ≤ (s.round succs maxDepth).nodes.length := by
  fun_cases round succs maxDepth s with
  | case1 => exact Nat.le_refl _
  | case2 => exact Nat.le_refl _
  | case3 =>
    rw [extend,List.length_append]
    exact Nat.le_add_right ..

variable (succs maxDepth) in
theorem Search.length_le_size (s : Search α β) (turn : Nat) :
    s.nodes.length ≤ s.size succs maxDepth turn := by
  induction turn with
  | zero => exact Nat.le_refl _
  | succ turn ih =>
    rw [size,Function.iterate_succ_apply']
    exact ih.trans (length_le_round _)

theorem Search.overruns_iff (s : Search α β) :
    s.Overruns succs maxDepth maxNodes ↔
      (s.nodes.length < maxNodes ∧ maxNodes < (s.round succs maxDepth).nodes.length) ∨
        (s.round succs maxDepth).Overruns succs maxDepth maxNodes := by
  constructor
  · rintro ⟨turn,h⟩
    cases turn with
    | zero => exact .inl h
    | succ turn => exact .inr ⟨turn,h⟩
  · rintro (h | ⟨turn,h⟩)
    · exact ⟨0,h⟩
    · exact ⟨turn+1,h⟩

variable (succs maxDepth) in
theorem bfs_full (s : Search α β) (hfull : maxNodes ≤ s.nodes.length) :
    (bfs succs maxDepth maxNodes s).nodes=s.nodes ∧
      (bfs succs maxDepth maxNodes s).edges=s.edges := by
  fun_induction bfs succs maxDepth maxNodes s with
  | case1 => exact ⟨rfl,rfl⟩
  | case2 nodes edges cur depth queue _ ih => exact ih hfull
  | case3 => exact ⟨rfl,rfl⟩
  | case4 nodes edges cur depth queue _ hroom => exact absurd hfull hroom

theorem Search.overrun_open {cur : α} (depth : Nat)
    (hsuccs : ((succs cur).map Prod.fst).Nodup) (hroom : s.nodes.length ≤ maxNodes)
    (hover : maxNodes < s.nodes.length+(s.fresh (succs cur)).length) :
    ¬(s.extend cur depth (succs cur)
      ((s.fresh (succs cur)).take (maxNodes-s.nodes.length))).Closed := by
  intro hclosed
  generalize hk : maxNodes-s.nodes.length=k at hclosed
  have hlt : k < (s.fresh (succs cur)).length := by omega
  have hmem:=mem_fresh.mp (List.getElem_mem hlt)
  have hend:=(hclosed (cur,(s.fresh (succs cur))[k].1)
    (List.mem_append_right _ (List.mem_map_of_mem hmem.1))).2
  rw [keys,extend,List.map_append] at hend
  rcases List.mem_append.mp hend with hend | hend
  · exact hmem.2 hend
  · have hn : ((s.fresh (succs cur)).map Prod.fst).Nodup :=
      hsuccs.sublist (List.filter_sublist.map _)
    rw [← List.take_append_drop k (s.fresh (succs cur)),List.map_append] at hn
    refine (List.nodup_append'.mp hn).2.2 hend (List.mem_map_of_mem ?_)
    rw [List.drop_eq_getElem_cons hlt]
    exact List.mem_cons_self ..

theorem bfs_closed_iff (hsuccs : ∀ a,((succs a).map Prod.fst).Nodup) (maxDepth : Nat)
    (s : Search α β) (h : s.Linked) (hroom : s.nodes.length ≤ maxNodes) :
    (bfs succs maxDepth maxNodes s).nodes.length ≤ maxNodes ∧
      ((bfs succs maxDepth maxNodes s).Closed ↔ ¬s.Overruns succs maxDepth maxNodes) := by
  fun_induction bfs succs maxDepth maxNodes s with
  | case1 nodes edges =>
    have hfix : ∀ turn,(⟨nodes,edges,[]⟩ : Search α β).size succs maxDepth turn=nodes.length := by
      intro turn
      rw [size,Function.iterate_fixed]
      rfl
    refine ⟨hroom,fun _ => ?_,fun _ => h.closed⟩
    rintro ⟨turn,hlt,hgt⟩
    rw [hfix] at hlt hgt
    omega
  | case2 nodes edges cur depth queue hdepth ih =>
    have hround : round succs maxDepth ⟨nodes,edges,(cur,depth)::queue⟩=⟨nodes,edges,queue⟩ :=
      if_pos hdepth
    have hrest : Search.Linked ⟨nodes,edges,queue⟩ :=
      ⟨h.nodup,h.closed,fun e he => h.waiting e (List.mem_cons_of_mem _ he)⟩
    obtain ⟨hlen,hiff⟩:=ih hrest hroom
    refine ⟨hlen,hiff.trans (not_congr ?_)⟩
    rw [overruns_iff ⟨nodes,edges,(cur,depth)::queue⟩,hround]
    exact (or_iff_right fun hn => Nat.lt_asymm hn.1 hn.2).symm
  | case3 nodes edges cur depth queue hdepth hfull =>
    refine ⟨hroom,fun _ => ?_,fun _ => h.closed⟩
    rintro ⟨turn,hlt,-⟩
    have hle : nodes.length ≤ _ :=
      length_le_size succs maxDepth ⟨nodes,edges,(cur,depth)::queue⟩ turn
    exact absurd (Nat.le_trans hfull hle) (Nat.not_le_of_lt hlt)
  | case4 nodes edges cur depth queue hdepth hfull ih =>
    have hrest : Search.Linked ⟨nodes,edges,queue⟩ :=
      ⟨h.nodup,h.closed,fun e he => h.waiting e (List.mem_cons_of_mem _ he)⟩
    have hcur : cur ∈ keys ⟨nodes,edges,queue⟩ := h.waiting (cur,depth) (List.mem_cons_self ..)
    have hround : round succs maxDepth ⟨nodes,edges,(cur,depth)::queue⟩=
        extend cur depth (succs cur) (fresh ⟨nodes,edges,queue⟩ (succs cur)) ⟨nodes,edges,queue⟩ :=
      if_neg hdepth
    rw [foldl_meet _ (hsuccs cur)] at ih ⊢
    rw [overruns_iff ⟨nodes,edges,(cur,depth)::queue⟩,hround]
    by_cases hover : maxNodes < nodes.length+(fresh ⟨nodes,edges,queue⟩ (succs cur)).length
    · /- The budget is used in the middle of the list; the edges stay as they are then. -/
      have hlen : ((fresh ⟨nodes,edges,queue⟩ (succs cur)).take (maxNodes-nodes.length)).length=
          maxNodes-nodes.length := by
        rw [List.length_take]
        omega
      have hused : (extend cur depth (succs cur)
          ((fresh ⟨nodes,edges,queue⟩ (succs cur)).take (maxNodes-nodes.length))
          ⟨nodes,edges,queue⟩).nodes.length=maxNodes := by
        rw [extend,List.length_append,hlen]
        exact Nat.add_sub_cancel' hroom
      obtain ⟨hn,he⟩:=bfs_full succs maxDepth _ (Nat.le_of_eq hused.symm)
      have hopen:=overrun_open depth (hsuccs cur) hroom hover
      refine ⟨by rw [hn,hused],fun hc => ?_,fun hc => ?_⟩
      · refine absurd (fun e hmem => ?_) hopen
        have:=hc e (he ▸ hmem)
        rwa [keys,hn] at this
      · refine absurd (.inl ⟨Nat.lt_of_not_le hfull,?_⟩) hc
        rw [extend,List.length_append]
        exact hover
    · have hall : (fresh ⟨nodes,edges,queue⟩ (succs cur)).take (maxNodes-nodes.length)=
          fresh ⟨nodes,edges,queue⟩ (succs cur) := List.take_of_length_le (by omega)
      rw [hall] at ih ⊢
      have hlen : (extend cur depth (succs cur) (fresh ⟨nodes,edges,queue⟩ (succs cur))
          ⟨nodes,edges,queue⟩).nodes.length ≤ maxNodes := by
        rw [extend,List.length_append]
        exact Nat.le_of_not_lt hover
      obtain ⟨hle,hiff⟩:=ih (extend_linked (hsuccs cur) hcur hrest) hlen
      refine ⟨hle,hiff.trans (not_congr (or_iff_right fun hn => ?_).symm)⟩
      exact absurd hn.2 (Nat.not_lt_of_le hlen)

end

end Lib
