import IdaMcp.Store.Eviction

/-!
# The index after an eviction

`index.json` is a file of the directory like the others and makes a group of its
own. While it stays, `clean` leaves every entry whose database is still there;
once it goes, what `list` returns is empty.
-/

namespace Store
open Lib Lib.Path

namespace IdbStore

/-- What `lookup_by_hash` looks for. -/
def isDatabase (h : Text) (f : File) : Bool :=
  contains f.name (pattern h) && endsWith f.name ('.'::Part.i64.extension)

section
variable (s : IdbStore)

theorem lookupByHash_isSome (h : Text) :
    (s.lookupByHash h).isSome=true ↔ ∃ f∈s.files,isDatabase h f=true := by
  rw [lookupByHash,Option.isSome_map,List.find?_isSome]
  rfl

theorem mem_list (e : IdbEntry) : e∈s.list ↔ ∃ h,s.index.get h=some e := by
  rw [list,List.mem_map]
  constructor
  · rintro ⟨⟨h,x⟩,hx,rfl⟩
    exact ⟨h,(Map.get_eq_some_iff _ _ _).mpr hx⟩
  · rintro ⟨h,hg⟩
    exact ⟨⟨h,e⟩,(Map.get_eq_some_iff _ _ _).mp hg,rfl⟩

theorem index_of_file {f : File} (hf : f∈s.files) (hn : f.name=indexName) : s.index=s.contents := by
  have ha : s.files.any (·.name=indexName)=true := List.any_eq_true.mpr ⟨f,hf,decide_eq_true hn⟩
  rw [index,if_pos ha]

theorem index_of_no_file (h : ∀ f∈s.files,f.name≠indexName) : s.index=∅ := by
  have ha : ¬s.files.any (·.name=indexName)=true := by
    intro ha
    obtain ⟨f,hf,hn⟩ := List.any_eq_true.mp ha
    exact h f hf (of_decide_eq_true hn)
  rw [index,if_neg ha]

theorem get_clean (written : Nat) (mtime : Int) (h : Text) (e : IdbEntry) :
    (s.clean written mtime).2.index.get h=some e ↔
      s.index.get h=some e ∧ (s.lookupByHash h).isSome=true := by
  rw [clean]
  split
  case isTrue h0 =>
    refine ⟨fun hg => ⟨hg,?_⟩,And.left⟩
    have hn:=(Map.size_eq_zero_iff _).mp h0 h
    by_contra hx
    rw [Bool.not_eq_true,Option.isSome_eq_false_iff] at hx
    rw [(Map.get_keep _ _ _ _).mpr ⟨hg,hx⟩] at hn
    cases hn
  case isFalse =>
    rw [index_writeIndex,Effect.get_drop,Map.mem_keysOf,and_comm]
    refine and_congr_right fun hg => ?_
    simp only [Map.get_keep,hg]
    simp [Option.ne_none_iff_isSome]

end

section
variable (s : IdbStore) (maxBytes : Nat) (pinned : List Text) (written : Nat) (mtime : Int)

/-- Every entry whose database stays is listed afterwards as it was before. -/
def KeepsEntries : Prop :=
  ∀ h e,s.index.get h=some e →
    (∃ f∈(s.evictToLimit maxBytes pinned written mtime).2.files,isDatabase h f=true) →
      e∈(s.evictToLimit maxBytes pinned written mtime).2.list

omit maxBytes pinned in
theorem database_ne_index {h : Text} {f : File} (hb : isDatabase h f=true) : f.name≠indexName := by
  intro hn
  rw [isDatabase,hn,Bool.and_eq_true] at hb
  exact absurd hb.2 (by decide)

omit maxBytes pinned in
theorem mem_clean {f : File} (hn : f.name≠indexName) :
    f∈(s.clean written mtime).2.files ↔ f∈s.files := by
  rw [clean]
  split
  case isTrue => exact Iff.rfl
  case isFalse =>
    simp only [writeIndex,put,List.mem_append,List.mem_filter,List.mem_singleton]
    constructor
    · rintro (h | rfl)
      · exact h.1
      · exact absurd rfl hn
    · exact fun h => .inl ⟨h,decide_eq_true hn⟩

theorem mem_evictToLimit {f : File} (hn : f.name≠indexName) :
    f∈(s.evictToLimit maxBytes pinned written mtime).2.files ↔
      f∈s.files ∧ s.Spared maxBytes pinned f := by
  have hspared : f∈s.files ∧ f∉(s.eviction maxBytes pinned).deleted ↔
      f∈s.files ∧ s.Spared maxBytes pinned f :=
    and_congr_right fun hf => s.not_mem_deleted hf maxBytes pinned
  rw [← hspared,evictToLimit]
  split
  case isTrue hle =>
    rw [eviction,if_pos hle]
    simp
  case isFalse =>
    rw [mem_clean _ _ _ hn]
    simp [drop]

theorem mem_drop_deleted (f : File) :
    f∈(s.drop fun f => f∈(s.eviction maxBytes pinned).deleted).files ↔
      f∈s.files ∧ s.Spared maxBytes pinned f := by
  rw [drop,List.mem_filter,Bool.not_eq_true',decide_eq_false_iff_not]
  exact and_congr_right fun hf => s.not_mem_deleted hf maxBytes pinned

theorem get_evictToLimit (hgt : ¬s.totalSize ≤ maxBytes) (h : Text) (e : IdbEntry) :
    (s.evictToLimit maxBytes pinned written mtime).2.index.get h=some e ↔
      (s.drop fun f => f∈(s.eviction maxBytes pinned).deleted).index.get h=some e ∧
        ∃ f∈s.files,isDatabase h f=true ∧ s.Spared maxBytes pinned f := by
  rw [evictToLimit,if_neg hgt,get_clean,lookupByHash_isSome]
  refine and_congr_right fun _ => exists_congr fun f => ?_
  rw [mem_drop_deleted,and_assoc,and_comm (a := s.Spared maxBytes pinned f)]

theorem spared_of_le (hle : s.totalSize ≤ maxBytes) (f : File) : s.Spared maxBytes pinned f :=
  fun _ => .inr (Nat.le_trans hle (Nat.le_add_right ..))

/-- While the index is spared, every entry whose database stays is listed; once it goes, none is. -/
theorem keepsEntries_iff : s.KeepsEntries maxBytes pinned written mtime ↔
    (∃ f∈s.files,f.name=indexName ∧ s.Spared maxBytes pinned f) ∨
      ∀ h e,s.index.get h=some e →
        ∀ f∈s.files,isDatabase h f=true → ¬s.Spared maxBytes pinned f := by
  have hstays : ∀ h,(∃ f∈(s.evictToLimit maxBytes pinned written mtime).2.files,
      isDatabase h f=true) ↔ ∃ f∈s.files,isDatabase h f=true ∧ s.Spared maxBytes pinned f := by
    intro h
    refine exists_congr fun f => ?_
    constructor
    · rintro ⟨hf,hb⟩
      obtain ⟨hf,hs⟩:=(s.mem_evictToLimit maxBytes pinned written mtime
        (database_ne_index hb)).mp hf
      exact ⟨hf,hb,hs⟩
    · rintro ⟨hf,hb,hs⟩
      exact ⟨(s.mem_evictToLimit maxBytes pinned written mtime (database_ne_index hb)).mpr ⟨hf,hs⟩,
        hb⟩
  simp only [KeepsEntries,hstays]
  constructor
  · intro hk
    refine or_iff_not_imp_left.mpr fun hno h e hg f hf hb hs => ?_
    by_cases hle : s.totalSize ≤ maxBytes
    · have hnone : s.index=∅ :=
        s.index_of_no_file fun g hg hn => hno ⟨g,hg,hn,s.spared_of_le maxBytes pinned hle g⟩
      rw [hnone] at hg
      cases hg
    · obtain ⟨k,hget⟩ := (mem_list _ e).mp (hk h e hg ⟨f,hf,hb,hs⟩)
      rw [s.get_evictToLimit maxBytes pinned written mtime hle] at hget
      have hnone : (s.drop fun f => f∈(s.eviction maxBytes pinned).deleted).index=∅ := by
        refine index_of_no_file _ fun g hg hn => ?_
        obtain ⟨hg,hgs⟩ := (s.mem_drop_deleted maxBytes pinned g).mp hg
        exact hno ⟨g,hg,hn,hgs⟩
      rw [hnone] at hget
      cases hget.1
  · intro hor h e hg hs
    refine (mem_list _ e).mpr ⟨h,?_⟩
    by_cases hle : s.totalSize ≤ maxBytes
    · rwa [evictToLimit,if_pos hle]
    rw [s.get_evictToLimit maxBytes pinned written mtime hle]
    refine ⟨?_,hs⟩
    rcases hor with ⟨f,hf,hn,hsp⟩ | hall
    · -- the index is read from the same file before and after
      have hfd:=(s.mem_drop_deleted maxBytes pinned f).mpr ⟨hf,hsp⟩
      rw [index_of_file _ hfd hn]
      rwa [s.index_of_file hf hn] at hg
    · obtain ⟨f,hf,hb,hsp⟩ := hs
      exact absurd hsp (hall h e hg f hf hb)

end

/-- A database written after the index: the index is the older of the two groups. -/
def savedLater : IdbStore where
  root:=['/', 's']
  files:=[⟨indexName,true,10,1⟩,
    ⟨⟨['a', '.', '0', '1', '2', '3', '4', '5', '6', '7', '8', '9', 'a', 'b', '.', 'd', 'y', 'l',
      'i', 'b',
      '.', 'i', '6', '4'],by decide,by decide,by decide,by decide⟩,true,100,2⟩]
  contents:=(∅ : Map Text IdbEntry).insert
    ['0', '1', '2', '3', '4', '5', '6', '7', '8', '9', 'a', 'b']
    ⟨['0', '1', '2', '3', '4', '5', '6', '7', '8', '9', 'a', 'b'],['/', 'a'],.native,100,0,0⟩

/-- The index goes first, and with it the entry of a database that stays. -/
theorem savedLater_lost : ¬savedLater.KeepsEntries 105 [] 0 0 := by
  intro h
  have hl : (savedLater.evictToLimit 105 [] 0 0).2.list=[] := by decide +kernel
  have hm:=h ['0', '1', '2', '3', '4', '5', '6', '7', '8', '9', 'a', 'b'] _ rfl (by decide +kernel)
  rw [hl] at hm
  exact absurd hm List.not_mem_nil

end IdbStore
end Store
