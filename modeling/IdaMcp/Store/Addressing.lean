import IdaMcp.Store.Idb
import Mathlib.Data.Set.Function
import Mathlib.Logic.Relation

/-!
# Finding a database by content

The store recognises a file by `.{hash}.` anywhere in its name, and the name
starts with whatever the binary was called. A name that spells the hash of
another binary's content is then found, and deleted, in that binary's place.
-/

namespace Store
open Lib Lib.Path

section Names
variable {Content : Type} (hash : Content → Digest)

theorem pattern_part (h : Digest) (b : Binary Content) (p : Part) :
    pattern h.chars <:+: (partName hash b p).chars ↔
      h=hash b.content ∨ pattern h.chars <:+: b.name.chars++['.'] := by
  have hd:=h.no_dot
  have hdy : '.' ∉ dylib := by decide
  have hne : h.chars≠dylib := fun e => absurd (e ▸ h.length) (by decide)
  have heq : h.chars=(hash b.content).chars ↔ h=hash b.content :=
    ⟨fun e => by cases h; cases hb : hash b.content; simp_all,fun e => congrArg Digest.chars e⟩
  change '.'::h.chars++['.'] <:+: b.name.chars++
    '.'::((hash b.content).chars++ '.'::(dylib++ '.'::p.extension)) ↔ _
  rw [dotted_append hd,dotted_word hd (hash b.content).no_dot,dotted_word hd hdy,heq]
  simp only [hne,not_dotted p.no_dot,or_false,pattern]
  exact or_comm

theorem part_endsWith (b : Binary Content) (p : Part) :
    endsWith (partName hash b p) ('.'::Part.i64.extension)=true ↔ p=.i64 := by
  rw [endsWith,decide_eq_true_iff]
  constructor
  · intro h
    have hp : '.'::p.extension <:+ (partName hash b p).chars :=
      ⟨b.name.chars++ '.'::((hash b.content).chars++ '.'::dylib),by simp [partName,partChars]⟩
    -- two endings of one text that start at a dot, neither with another dot
    have hboth:=List.suffix_or_suffix_of_suffix h hp
    revert hboth
    cases p <;> decide
  · rintro rfl
    exact ⟨b.name.chars++ '.'::((hash b.content).chars++ '.'::dylib),by simp [partName,partChars]⟩

theorem part_ne_index (b : Binary Content) (p : Part) : partName hash b p≠indexName := by
  intro h
  have hl:=congrArg (fun n => n.chars.length) h
  simp only [partName,partChars,indexName,List.length_append,List.length_cons,
    (hash b.content).length] at hl
  have h10 : indexChars.length=10 := by decide
  have h5 : dylib.length=5 := by decide
  omega

theorem part_hash {b b' : Binary Content} {p : Part} (h : partName hash b p=partName hash b' p) :
    hash b.content=hash b'.content := by
  have hc : b.name.chars++ '.'::((hash b.content).chars++ '.'::(dylib++ '.'::p.extension))=
      b'.name.chars++ '.'::((hash b'.content).chars++ '.'::(dylib++ '.'::p.extension)) :=
    congrArg Name.chars h
  have hl : ('.'::((hash b.content).chars++ '.'::(dylib++ '.'::p.extension))).length=
      ('.'::((hash b'.content).chars++ '.'::(dylib++ '.'::p.extension))).length := by
    simp only [List.length_cons,List.length_append,Digest.length]
  have ht:=(List.append_inj' hc hl).2
  have hh:=(List.append_inj' (List.cons.inj ht).2 rfl).1
  cases h1 : hash b.content
  cases h2 : hash b'.content
  simp_all

end Names

section History
variable {Content : Type} (hash : Content → Digest) (B : Set (Binary Content))

/-- What happens to a store: the disassembler writes a file of a database, and
the operations of the store run. `relist` is the directory read in another
order. -/
inductive Step : IdbStore → IdbStore → Prop
  | create (s : IdbStore) (b : Binary Content) (hb : b∈B) (p : Part) (size : Nat) (mtime : Int) :
      Step s (s.put ⟨partName hash b p,true,size,mtime⟩)
  | record (s : IdbStore) (b : Binary Content) (hb : b∈B) (path : Text) (size now written : Nat)
      (mtime : Int) : Step s (s.record hash b path size now written mtime)
  | remove (s : IdbStore) (h : Text) (written : Nat) (mtime : Int) :
      Step s (s.remove h written mtime).2
  | clean (s : IdbStore) (written : Nat) (mtime : Int) : Step s (s.clean written mtime).2
  | evict (s : IdbStore) (maxBytes : Nat) (pinned : List Text) (written : Nat) (mtime : Int) :
      Step s (s.evictToLimit maxBytes pinned written mtime).2
  | relist (s : IdbStore) (files : List File) (hp : files.Perm s.files) : Step s {s with files}

def History (root : Text) (s : IdbStore) : Prop :=
  Relation.ReflTransGen (Step hash B) (.empty root) s

/-- Every file is the index or belongs to a binary, and so does every entry. -/
structure Named (s : IdbStore) : Prop where
  files : ∀ f∈s.files,f.name=indexName ∨ ∃ b∈B,∃ p,f.name=partName hash b p
  index : ∀ h e,s.contents.get h=some e → ∃ b∈B,h=(hash b.content).chars

namespace Named
variable {hash B} {s : IdbStore}

variable (hs : Named hash B s)
include hs

theorem index_get {h : Text} {e : IdbEntry} (hg : s.index.get h=some e) :
    ∃ b∈B,h=(hash b.content).chars := by
  rw [IdbStore.index] at hg
  split at hg
  · exact hs.index h e hg
  · exact absurd hg (by simp)

theorem put (f : File)
    (hf : f.name=indexName ∨ ∃ b∈B,∃ p,f.name=partName hash b p) : Named hash B (s.put f) where
  files g hg:=by
    rcases List.mem_append.mp hg with hg | hg
    · exact hs.files g (List.mem_of_mem_filter hg)
    · exact List.mem_singleton.mp hg ▸ hf
  index:=hs.index

theorem drop (gone : File → Bool) : Named hash B (s.drop gone) where
  files g hg:=hs.files g (List.mem_of_mem_filter hg)
  index:=hs.index

theorem writeIndex (m : Index) (size : Nat) (mtime : Int)
    (hm : ∀ h e,m.get h=some e → ∃ b∈B,h=(hash b.content).chars) :
    Named hash B (s.writeIndex m size mtime) where
  files:=(hs.put ⟨indexName,true,size,mtime⟩ (.inl rfl)).files
  index:=hm

theorem dropped (hashes : List Text) (h : Text) (e : IdbEntry)
    (he : ((Effect.drop hashes).apply s.index).get h=some e) : ∃ b∈B,h=(hash b.content).chars :=
  hs.index_get (Effect.get_drop.mp he).2

theorem clean (written : Nat) (mtime : Int) : Named hash B (s.clean written mtime).2 := by
  dsimp only [IdbStore.clean]
  split
  · exact hs
  · exact hs.writeIndex _ _ _ (hs.dropped _)

theorem remove (h : Text) (written : Nat) (mtime : Int) :
    Named hash B (s.remove h written mtime).2 := by
  dsimp only [IdbStore.remove]
  split
  · exact hs
  · exact (hs.drop _).writeIndex _ _ _ (hs.dropped _)

theorem record (b : Binary Content) (hb : b∈B) (path : Text) (size now written : Nat)
    (mtime : Int) : Named hash B (s.record hash b path size now written mtime) := by
  refine hs.writeIndex _ _ _ fun k e he => ?_
  rw [Effect.apply,Map.get_insert] at he
  split at he
  case isTrue hk => exact ⟨b,hb,hk⟩
  case isFalse => exact hs.index_get he

theorem evict (maxBytes : Nat) (pinned : List Text) (written : Nat) (mtime : Int) :
    Named hash B (s.evictToLimit maxBytes pinned written mtime).2 := by
  dsimp only [IdbStore.evictToLimit]
  split
  · exact hs
  · exact (hs.drop _).clean written mtime

theorem step {t : IdbStore} (h : Step hash B s t) : Named hash B t := by
  cases h with
  | create b hb p size mtime => exact hs.put _ (.inr ⟨b,hb,p,rfl⟩)
  | record b hb path size now written mtime => exact hs.record b hb path size now written mtime
  | remove h written mtime => exact hs.remove h written mtime
  | clean written mtime => exact hs.clean written mtime
  | evict maxBytes pinned written mtime => exact hs.evict maxBytes pinned written mtime
  | relist files hp => exact ⟨fun f hf => hs.files f (hp.mem_iff.mp hf),hs.index⟩

omit hs in
theorem history {root : Text} (h : History hash B root s) : Named hash B s := by
  induction h with
  | refl => exact ⟨fun f hf => absurd hf List.not_mem_nil,fun h e he =>
    absurd he (by simp [IdbStore.empty])⟩
  | tail _ hstep ih => exact ih.step hstep

end Named

/-- The store is addressed by content. -/
structure Addressed (s : IdbStore) : Prop where
  sound : ∀ b∈B,∀ n,s.lookup hash b=some n → ∃ b'∈B,n=idbName hash b' ∧ b'.content=b.content
  complete : ∀ b∈B,∀ b'∈B,b'.content=b.content → (∃ f∈s.files,f.name=idbName hash b') →
    (s.lookup hash b).isSome
  spared : ∀ (h : Text) (written : Nat) (mtime : Int),∀ b∈B,(hash b.content).chars≠h →
    ∀ p,∀ f∈s.files,f.name=partName hash b p → f∈(s.remove h written mtime).2.files

/-- No binary is called by the hash of another content between dots. -/
def NoEcho : Prop :=
  ∀ b∈B,∀ c∈B,pattern (hash c.content).chars <:+: b.name.chars++['.'] → c.content=b.content

variable {hash B}

theorem lookup_eq_some {s : IdbStore} (hs : Named hash B s) {h : Digest} {n : Name}
    (hn : s.lookupByHash h.chars=some n) :
    ∃ b∈B,n=idbName hash b ∧ (h=hash b.content ∨ pattern h.chars <:+: b.name.chars++['.']) := by
  obtain ⟨f,hf,rfl⟩ := Option.map_eq_some_iff.mp hn
  have hm:=List.find?_some hf
  rw [Bool.and_eq_true] at hm
  rcases hs.files f (List.mem_of_find?_eq_some hf) with hi | ⟨b,hb,p,hp⟩
  · rw [hi] at hm
    exact absurd hm.2 (by decide)
  · rw [hp] at hm ⊢
    obtain rfl:=(part_endsWith hash b p).mp hm.2
    exact ⟨b,hb,rfl,(pattern_part hash h b .i64).mp (of_decide_eq_true hm.1)⟩

theorem lookup_isSome {s : IdbStore} {h : Digest} {b : Binary Content} {f : File} (hf : f∈s.files)
    (hn : f.name=idbName hash b)
      (hb : h=hash b.content ∨ pattern h.chars <:+: b.name.chars++['.']) :
    (s.lookupByHash h.chars).isSome := by
  rw [IdbStore.lookupByHash,Option.isSome_map,List.find?_isSome]
  refine ⟨f,hf,?_⟩
  rw [hn,Bool.and_eq_true]
  exact ⟨decide_eq_true ((pattern_part hash h b .i64).mpr hb),(part_endsWith hash b .i64).mpr rfl⟩

theorem remove_keeps {s : IdbStore} {h : Text} {b : Binary Content} {p : Part} {f : File}
    (hf : f∈s.files) (hn : f.name=partName hash b p) (written : Nat) (mtime : Int)
    (hp : s.index.get h≠none → ¬pattern h <:+: (partName hash b p).chars) :
    f∈(s.remove h written mtime).2.files := by
  dsimp only [IdbStore.remove]
  split
  · exact hf
  case h_2 e he =>
    refine List.mem_append_left _ (List.mem_filter.mpr ⟨List.mem_filter.mpr ⟨hf,?_⟩,?_⟩)
    · have hc:=hp (by rw [he]; exact Option.some_ne_none e)
      change (!contains f.name (pattern h))=true
      rw [hn,contains,decide_eq_false hc]
      rfl
    · exact decide_eq_true (hn ▸ part_ne_index hash b p)

theorem addressed_of_noEcho {s : IdbStore} (hs : Named hash B s)
    (hinj : Set.InjOn hash (Binary.content '' B)) (he : NoEcho hash B) : Addressed hash B s where
  sound b hb n hn:=by
    obtain ⟨b',hb',rfl,hm⟩ := lookup_eq_some hs hn
    refine ⟨b',hb',rfl,?_⟩
    rcases hm with hm | hm
    · exact (hinj (Set.mem_image_of_mem _ hb) (Set.mem_image_of_mem _ hb') hm).symm
    · exact (he b' hb' b hb hm).symm
  complete b hb b' hb' hc:=by
    rintro ⟨f,hf,hn⟩
    exact lookup_isSome hf hn (.inl (congrArg hash hc.symm))
  spared h written mtime b hb hh p f hf hn:=by
    refine remove_keeps hf hn written mtime fun hi hp => ?_
    obtain ⟨e,hge⟩ := Option.ne_none_iff_exists'.mp hi
    obtain ⟨c,hc,rfl⟩ := hs.index_get hge
    rcases (pattern_part hash _ b p).mp hp with hm | hm
    · exact hh (congrArg Digest.chars hm.symm)
    · exact hh (congrArg (fun x => (hash x).chars) (he b hb c hc hm).symm)

theorem noEcho_of_addressed (root : Text) (hinj : Set.InjOn hash (Binary.content '' B))
    (h : ∀ s,History hash B root s → Addressed hash B s) : NoEcho hash B := by
  intro b hb c hc hm
  have hist : History hash B root ((IdbStore.empty root).put ⟨idbName hash b,true,0,0⟩) :=
    .single (.create _ b hb .i64 0 0)
  have hsome : (((IdbStore.empty root).put ⟨idbName hash b,true,0,0⟩).lookup hash c).isSome :=
    lookup_isSome (List.mem_singleton_self _) rfl (.inr hm)
  obtain ⟨n,hn⟩ := Option.isSome_iff_exists.mp hsome
  obtain ⟨f,hf,rfl⟩ := Option.map_eq_some_iff.mp hn
  obtain rfl:=List.mem_singleton.mp (List.mem_of_find?_eq_some hf)
  obtain ⟨b',hb',hbb,hcc⟩ := (h _ hist).sound c hc _ hn
  have hbc:=hinj (Set.mem_image_of_mem _ hb) (Set.mem_image_of_mem _ hb') (part_hash hash hbb)
  exact (hbc.trans hcc).symm

/-- With a hash that tells the contents apart, the store is addressed by
content in every history exactly when no name echoes another hash. -/
theorem content_addressed_iff (hash : Content → Digest) (B : Set (Binary Content)) (root : Text)
    (hinj : Set.InjOn hash (Binary.content '' B)) :
    (∀ s,History hash B root s → Addressed hash B s) ↔ NoEcho hash B :=
  ⟨noEcho_of_addressed root hinj,fun he _ hs => addressed_of_noEcho (.history hs) hinj he⟩

end History

/-- Two contents and their hashes, and three names to keep them under. -/
def digestOf : Bool → Digest
  | false => ⟨List.replicate 12 '0',by decide,by decide⟩
  | true => ⟨List.replicate 12 '1',by decide,by decide⟩

theorem digestOf_injective : Function.Injective digestOf := by
  rintro (_ | _) (_ | _) h
  · rfl
  · exact absurd (congrArg Digest.chars h) (by decide)
  · exact absurd (congrArg Digest.chars h) (by decide)
  · rfl

def tool : Name := ⟨['t', 'o', 'o', 'l'],by decide,by decide,by decide,by decide⟩
def backup : Name :=
    ⟨['t', 'o', 'o', 'l', '.', 'b', 'a', 'k'],by decide,by decide,by decide,by decide⟩
/- `tool.000000000000.bak` -/
def echo : Name :=
  ⟨['t', 'o', 'o', 'l', '.']++List.replicate 12 '0'++['.', 'b', 'a', 'k'],
    by decide,by decide,by decide,by decide⟩

theorem noEcho_backup : NoEcho digestOf {⟨tool,false⟩,⟨backup,true⟩} := by
  rintro b (rfl | rfl) c (rfl | rfl) hm
  · rfl
  · exact absurd hm (by decide +kernel)
  · exact absurd hm (by decide +kernel)
  · rfl

theorem content_addressed_backup :
    Set.InjOn digestOf (Binary.content '' {⟨tool,false⟩,⟨backup,true⟩}) ∧
      ∀ s,History digestOf {⟨tool,false⟩,⟨backup,true⟩} [] s →
        Addressed digestOf {⟨tool,false⟩,⟨backup,true⟩} s :=
  ⟨digestOf_injective.injOn,
    (content_addressed_iff digestOf _ [] digestOf_injective.injOn).mpr noEcho_backup⟩

/-- The database of `echo` is found for `tool`, whose content is another, and
goes when the entry of `tool` is removed. -/
theorem other_binary_found :
    ∃ s,History digestOf {⟨tool,false⟩,⟨echo,true⟩} [] s ∧
      s.lookup digestOf ⟨tool,false⟩=some (idbName digestOf ⟨echo,true⟩) ∧
      ∃ f∈s.files,f.name=idbName digestOf ⟨echo,true⟩ ∧
        (digestOf true).chars≠(digestOf false).chars ∧
        f∉(s.remove (digestOf false).chars 0 0).2.files := by
  let s₁:=(IdbStore.empty []).put ⟨idbName digestOf ⟨echo,true⟩,true,0,0⟩
  let s₂:=s₁.record digestOf ⟨tool,false⟩ tool.chars 0 0 0 0
  have h₁ : History digestOf {⟨tool,false⟩,⟨echo,true⟩} [] s₁ :=
    .single (.create _ _ (.inr rfl) .i64 0 0)
  refine ⟨s₂,h₁.tail (.record s₁ _ (.inl rfl) tool.chars 0 0 0 0),by decide +kernel,
    ⟨idbName digestOf ⟨echo,true⟩,true,0,0⟩,by decide +kernel,rfl,by decide,by decide +kernel⟩

end Store
