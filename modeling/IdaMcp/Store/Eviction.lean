import IdaMcp.Store.Idb

/-!
# What an eviction deletes

`evict_to_limit` walks the groups of files from the oldest on and takes every
group that is not pinned until the rest fits the limit. A file goes exactly
when its group is not pinned and what could be freed before it was not enough.
-/

namespace Store
open Lib Lib.Path

namespace IdbStore

theorem group_foldl (stem : File → Text) (fs : List File) (m : Map Text Group) (k : Text) :
    ((fs.foldl (fun m f =>
      m.insert (stem f) (((m.get (stem f)).getD .default).push f)) m).get k).getD
      .default=(fs.filter (stem · = k)).foldl Group.push ((m.get k).getD .default) := by
  induction fs generalizing m with
  | nil => rfl
  | cons f fs ih =>
    rw [List.foldl_cons,ih,Map.get_insert]
    by_cases hk : k=stem f
    · subst hk
      rw [if_pos rfl,List.filter_cons_of_pos (by simp)]
      rfl
    · rw [if_neg hk,List.filter_cons_of_neg (by simpa using Ne.symm hk)]

theorem files_push (fs : List File) (g : Group) : (fs.foldl Group.push g).files=g.files++fs := by
  induction fs generalizing g with
  | nil => exact (List.append_nil _).symm
  | cons f fs ih =>
    rw [List.foldl_cons,ih]
    change (g.files++[f])++fs=_
    rw [List.append_assoc,List.singleton_append]

theorem files_foldl (stem : File → Text) (fs : List File) (m : Map Text Group) (k : Text) :
    (((fs.foldl (fun m f =>
      m.insert (stem f) (((m.get (stem f)).getD .default).push f)) m).get k).getD
      .default).files=((m.get k).getD .default).files++fs.filter (stem · = k) := by
  rw [group_foldl,files_push]

variable (s : IdbStore)

theorem mem_group {k : Text} {g : Group} (hg : s.groups.get k=some g) (f : File) :
    f∈g.files ↔ f∈s.files ∧ f.isFile=true ∧ groupStem s.root f=k := by
  have h:=files_foldl (groupStem s.root) (s.files.filter (·.isFile)) ∅ k
  change ((s.groups.get k).getD .default).files=_ at h
  rw [hg] at h
  change g.files=[]++_ at h
  rw [h,List.nil_append,List.mem_filter,List.mem_filter,and_assoc]
  simp only [decide_eq_true_eq]

theorem group_some {f : File} (hf : f∈s.files) (hi : f.isFile=true) :
    ∃ g,s.groups.get (groupStem s.root f)=some g := by
  cases hg : s.groups.get (groupStem s.root f) with
  | some g => exact ⟨g,rfl⟩
  | none =>
    have h:=files_foldl (groupStem s.root) (s.files.filter (·.isFile)) ∅ (groupStem s.root f)
    change ((s.groups.get (groupStem s.root f)).getD .default).files=_ at h
    rw [hg] at h
    change ([] : List File)=[]++_ at h
    rw [List.nil_append] at h
    have hm : f∈(s.files.filter (·.isFile)).filter (groupStem s.root · = groupStem s.root f) :=
      List.mem_filter.mpr ⟨List.mem_filter.mpr ⟨hf,hi⟩,decide_eq_true rfl⟩
    rw [← h] at hm
    exact absurd hm List.not_mem_nil

theorem ordered_perm : s.ordered.Perm s.groups.entries :=
  (List.perm_insertionSort _ _).trans (List.perm_insertionSort _ _)

theorem mem_ordered (e : (_ : Text) × Group) : e∈s.ordered ↔ s.groups.get e.1=some e.2 :=
  s.ordered_perm.mem_iff.trans (Map.get_eq_some_iff _ _ _).symm

theorem ordered_nodup : (s.ordered.map Sigma.fst).Nodup :=
  (s.ordered_perm.map Sigma.fst).nodup_iff.mpr s.groups.nodupKeys

/-- What the loop can have freed when it comes to the group of `stem`. -/
def freedBefore (pinned : List Text) (stem : Text) : List ((_ : Text) × Group) → Nat
  | [] => 0
  | g::gs =>
    if g.1=stem then 0
    else (if g.1∈pinned then 0 else g.2.bytes)+freedBefore pinned stem gs

theorem mem_evictLoop {maxBytes : Nat} {pinned : List Text} {f : File}
    (gs : List ((_ : Text) × Group)) (hgs : (gs.map Sigma.fst).Nodup) (e : Eviction) :
    f∈(evictLoop maxBytes pinned gs e).deleted ↔
      f∈e.deleted ∨ ∃ g∈gs,f∈g.2.files ∧ g.1∉pinned ∧
        maxBytes < e.totalSize-freedBefore pinned g.1 gs := by
  induction gs generalizing e with
  | nil => simp [evictLoop]
  | cons g gs ih =>
    rw [List.map_cons,List.nodup_cons] at hgs
    obtain ⟨hg,hgs⟩ := hgs
    have hne : ∀ x∈gs,g.1≠x.1 := fun x hx h => hg (h ▸ List.mem_map_of_mem hx)
    rw [evictLoop]
    split
    -- the rest fits, and takes less than it
    case isTrue hle =>
      refine ⟨.inl,?_⟩
      rintro (h | ⟨x,-,-,-,hx⟩)
      · exact h
      · omega
    case isFalse hgt =>
      split
      case isTrue hp =>
        rw [ih hgs]
        refine or_congr_right ⟨?_,?_⟩
        · rintro ⟨x,hx,hf,hxp,hlt⟩
          refine ⟨x,List.mem_cons_of_mem _ hx,hf,hxp,?_⟩
          rw [freedBefore,if_neg (hne x hx),if_pos hp]
          omega
        · rintro ⟨x,hx,hf,hxp,hlt⟩
          rcases List.mem_cons.mp hx with rfl | hx
          · exact absurd hp hxp
          · rw [freedBefore,if_neg (hne x hx),if_pos hp] at hlt
            exact ⟨x,hx,hf,hxp,by omega⟩
      case isFalse hp =>
        rw [ih hgs]
        simp only [Eviction.take,List.mem_append]
        rw [or_assoc]
        refine or_congr_right ⟨?_,?_⟩
        · rintro (hf | ⟨x,hx,hf,hxp,hlt⟩)
          · refine ⟨g,List.mem_cons_self,hf,hp,?_⟩
            rw [freedBefore,if_pos rfl]
            omega
          · refine ⟨x,List.mem_cons_of_mem _ hx,hf,hxp,?_⟩
            rw [freedBefore,if_neg (hne x hx),if_neg hp]
            omega
        · rintro ⟨x,hx,hf,hxp,hlt⟩
          rcases List.mem_cons.mp hx with rfl | hx
          · exact .inl hf
          · rw [freedBefore,if_neg (hne x hx),if_neg hp] at hlt
            exact .inr ⟨x,hx,hf,hxp,by omega⟩

theorem mem_deleted (maxBytes : Nat) (pinned : List Text) (f : File) :
    f∈(s.eviction maxBytes pinned).deleted ↔
      (f∈s.files ∧ f.isFile=true) ∧ groupStem s.root f∉pinned ∧
        maxBytes < s.totalSize-freedBefore pinned (groupStem s.root f) s.ordered := by
  rw [eviction]
  split
  case isTrue hle =>
    refine ⟨fun h => absurd h List.not_mem_nil,?_⟩
    rintro ⟨-,-,hlt⟩
    omega
  case isFalse =>
    rw [mem_evictLoop _ s.ordered_nodup]
    constructor
    · rintro (h | ⟨g,hg,hf,hp,hlt⟩)
      · exact absurd h List.not_mem_nil
      · obtain ⟨hm,hi,hk⟩ := (s.mem_group ((s.mem_ordered g).mp hg) f).mp hf
        exact ⟨⟨hm,hi⟩,hk ▸ hp,hk ▸ hlt⟩
    · rintro ⟨⟨hm,hi⟩,hp,hlt⟩
      obtain ⟨g,hg⟩ := s.group_some hm hi
      exact .inr ⟨⟨_,g⟩,(s.mem_ordered ⟨_,g⟩).mpr hg,(s.mem_group hg f).mpr ⟨hm,hi,rfl⟩,hp,hlt⟩

/-- A file is spared if its group is pinned or the groups before it free enough. -/
def Spared (s : IdbStore) (maxBytes : Nat) (pinned : List Text) (f : File) : Prop :=
  f.isFile=true → groupStem s.root f∈pinned ∨
    s.totalSize ≤ maxBytes+freedBefore pinned (groupStem s.root f) s.ordered

theorem not_mem_deleted {f : File} (hf : f∈s.files) (maxBytes : Nat) (pinned : List Text) :
    f∉(s.eviction maxBytes pinned).deleted ↔ s.Spared maxBytes pinned f := by
  rw [mem_deleted,Spared]
  constructor
  · intro h hi
    by_contra hn
    obtain ⟨hp,hlt⟩ := not_or.mp hn
    exact h ⟨⟨hf,hi⟩,hp,by omega⟩
  · rintro h ⟨⟨-,hi⟩,hp,hlt⟩
    rcases h hi with hpin | hle
    · exact hp hpin
    · omega

end IdbStore
end Store
