import IdaMcp.Devirt.FakeModule

/-!
# The bytes of the new import directory

`_build_new_imports` writes the tables of `Devirt/Imports` into one buffer:
the thunks of all DLLs twice, the names, and the descriptors behind them. Read
where the section is loaded, the buffer is an import directory for exactly
these functions.
-/

namespace Devirt
open Lib
variable {p : Nat} {c : NameCell}

structure ImportDesc where
  originalFirstThunk : Nat
  timeDateStamp : Nat
  forwarderChain : Nat
  name : Nat
  firstThunk : Nat
  deriving DecidableEq,Repr

def ImportDesc.null : ImportDesc := ⟨0,0,0,0,0⟩

def ImportDesc.words (d : ImportDesc) : List Nat :=
  [d.originalFirstThunk,d.timeDateStamp,d.forwarderChain,d.name,d.firstThunk]

def ImportDesc.bytes (d : ImportDesc) : List UInt8 := d.words.flatMap (le 4)

def NameCell.bytes : NameCell → List UInt8
  | .dll name => nameBytes name
  | .hint _ func => le 2 0++nameBytes func

section
variable (base : Nat) (old : List ImportDesc) (imps : List Import)

def descOff : Nat :=
  placeEnd NameCell.next (placeEnd tableEnd (iltStart imps) (byDll imps))
    ((byDll imps).flatMap fun g => .dll g.1::g.2.map fun imp => .hint g.1 imp.func)

def newDescs : List ImportDesc :=
  (buildArea base imps).descriptors.map fun d => ⟨d.originalFirstThunk,0,0,d.name,d.firstThunk⟩

def allDescs : List ImportDesc := old++newDescs base imps++[.null]

def areaLen : Nat := descOff imps+(allDescs base old imps).length*20

def descWrites : List Write :=
  (List.range (allDescs base old imps).length).map fun k =>
    ⟨descOff imps+k*20,((allDescs base old imps).getD k .null).bytes⟩

def nameWrite (x : Nat × NameCell) : Write := ⟨x.1,x.2.bytes⟩

/-- What is not written here is zero padding. -/
def areaWrites : List Write :=
  (buildArea base imps).slots.map slotWrite++
    ((nameCells imps).map nameWrite++descWrites base old imps)

def areaBytes : List UInt8 :=
  firstBytes (areaLen base old imps) (writeAll (areaWrites base old imps) fun _ => 0)

end

/-- What `_build_new_imports` returns. -/
structure NewImports where
  areaBytes : List UInt8
  iatVaMap : List (List Char × Nat)
  importDirRva : Nat

/-- Nothing where `encode` or `struct.pack` raises. -/
def buildNewImports (ib sectionRva codeSize : Nat) (old : List ImportDesc) (imps : List Import) :
    Option NewImports :=
  let base:=sectionRva+align16 codeSize
  if (imps.all fun imp => (imp.dll++imp.func).all fun c => c.toNat<128) &&
      ((buildArea base imps).slots.all fun x => x.2<2^64) &&
      (allDescs base old imps).all fun d => d.words.all fun v => v<2^32 then
    some
      { areaBytes := areaBytes base old imps
        iatVaMap := (iatSlots imps).map fun s => (s.1.sym,ib+base+s.2)
        importDirRva := base+descOff imps }
  else none

def readDesc (mem : Nat → UInt8) (o : Nat) : ImportDesc :=
  ⟨word 4 mem o,word 4 mem (o+4),word 4 mem (o+8),word 4 mem (o+12),word 4 mem (o+16)⟩

/-- A null-terminated table of thunks that are no ordinals and lead to the
names of these functions, in order. -/
def ThunksBy (mem : Nat → UInt8) (t : Nat) (imps : List Import) : Prop :=
  (∀ i imp,imps[i]?=some imp → 0<word 8 mem (t+8*i) ∧ word 8 mem (t+8*i)<2^63 ∧
      word 2 mem (word 8 mem (t+8*i))=0 ∧ CString mem (word 8 mem (t+8*i)+2) (ascii imp.func)) ∧
    word 8 mem (t+8*imps.length)=0

/-- A descriptor for a DLL and these of its functions. -/
structure DescribesGroup (mem : Nat → UInt8) (ib : Nat) (iatVaMap : List (List Char × Nat))
    (d : ImportDesc) (g : Group) : Prop where
  name : CString mem d.name (ascii g.1)
  lookup : ThunksBy mem d.originalFirstThunk g.2
  address : ThunksBy mem d.firstThunk g.2
  slot : ∀ i imp,g.2[i]?=some imp → ∀ va,(imp.sym,va)∈iatVaMap ↔ va=ib+d.firstThunk+8*i

theorem readDesc_of_bytesAt {mem : Nat → UInt8} {o : Nat} {d : ImportDesc}
    (h : BytesAt mem o d.bytes) (hw : ∀ v∈d.words,v<2^32) : readDesc mem o=d := by
  simp only [ImportDesc.bytes,ImportDesc.words,List.flatMap_cons,List.flatMap_nil,bytesAt_append,
    length_le,Nat.add_assoc] at h
  obtain ⟨h0,h1,h2,h3,h4,-⟩:=h
  simp only [ImportDesc.words,List.forall_mem_cons] at hw
  obtain ⟨w0,w1,w2,w3,w4,-⟩:=hw
  rw [readDesc,word_of_bytesAt h0 w0,word_of_bytesAt h1 w1,word_of_bytesAt h2 w2,
    word_of_bytesAt h3 w3,word_of_bytesAt h4 w4]

section
variable {base : Nat} {old : List ImportDesc} {imps : List Import}

theorem thunks_ascend (o : Nat) (vs : List Nat) :
    Ascends (o+8*(vs.length+1)) o ((thunks o vs).map slotWrite) := by
  induction vs generalizing o with
  | nil => exact ⟨Nat.le_refl _,Nat.le_of_eq (by rw [Write.stop,slotWrite,length_le]; rfl)⟩
  | cons v vs ih =>
    have ht:=ih (o+8)
    rw [show o+8+8*(vs.length+1)=o+8*((v::vs).length+1) by rw [List.length_cons]; omega] at ht
    refine ⟨Nat.le_refl _,?_⟩
    rw [show (slotWrite (o,v)).stop=o+8 by rw [Write.stop,slotWrite,length_le]]
    exact ht

theorem nameCell_fits (o : Nat) (c : NameCell) : o+c.bytes.length ≤ c.next o := by
  cases c <;> simp only [NameCell.bytes,NameCell.next,padEven,nameBytes,ascii,List.length_append,
    List.length_map,List.length_singleton,length_le] <;> omega

theorem areaWrites_ascend : Ascends (areaLen base old imps) 0 (areaWrites base old imps) := by
  have hslots:=Ascends.tables tableEnd
    (fun o g => (thunks o (hints base imps g)).map slotWrite) (fun o g => by
      have ht:=thunks_ascend o (hints base imps g)
      rw [hints,List.length_map] at ht
      exact ht) 0 (byDll imps++byDll imps)
  have hnames:=Ascends.tables NameCell.next (fun o c => [nameWrite (o,c)])
    (fun o c => ⟨Nat.le_refl _,nameCell_fits o c⟩)
    (placeEnd tableEnd (iltStart imps) (byDll imps))
    ((byDll imps).flatMap fun g => .dll g.1::g.2.map fun imp => .hint g.1 imp.func)
  have hdescs : Ascends (areaLen base old imps) (descOff imps) (descWrites base old imps) := by
    refine Ascends.steps (fun k => ?_) (Nat.le_refl _)
    simp only [ImportDesc.bytes,ImportDesc.words,List.flatMap_cons,List.flatMap_nil,
      List.length_append,length_le,List.length_nil]
    decide
  have hmid : placeEnd tableEnd 0 (byDll imps++byDll imps)=
      placeEnd tableEnd (iltStart imps) (byDll imps) := List.foldl_append
  rw [hmid,← blocks_eq,← List.map_flatMap] at hslots
  rw [← List.map_eq_flatMap] at hnames
  exact hslots.append (hnames.append hdescs)

variable (base old) in
theorem name_mem (h : (p,c)∈nameCells imps) : nameWrite (p,c)∈areaWrites base old imps :=
  List.mem_append_right _ (List.mem_append_left _ (List.mem_map_of_mem h))

variable (base old) in
theorem name_fits (h : (p,c)∈nameCells imps) : p+c.bytes.length ≤ areaLen base old imps :=
  (areaWrites_ascend.range (name_mem base old h)).2

section
variable {mem : Nat → UInt8} (hmem : BytesAt mem base (areaBytes base old imps))
include hmem

theorem bytesAt_area {w : Write} (h : w∈areaWrites base old imps) :
    BytesAt mem (base+w.start) w.bytes :=
  bytesAt_load hmem (bytesAt_writeAll h (fun _ hv => areaWrites_ascend.apart h hv) _)
    (areaWrites_ascend.range h).2

theorem name_loaded (h : (p,c)∈nameCells imps) : BytesAt mem (base+p) c.bytes :=
  bytesAt_area hmem (name_mem base old h)

theorem desc_loaded {k : Nat} {d : ImportDesc} (h : (allDescs base old imps)[k]?=some d) :
    BytesAt mem (base+descOff imps+20*k) d.bytes := by
  obtain ⟨hl,-⟩:=List.getElem?_eq_some_iff.mp h
  have hb:=bytesAt_area hmem
    (w := ⟨descOff imps+k*20,((allDescs base old imps).getD k .null).bytes⟩)
    (List.mem_append_right _ (List.mem_append_right _
      (List.mem_map.mpr ⟨k,List.mem_range.mpr hl,rfl⟩)))
  rw [List.getD_eq_getElem?_getD,h] at hb
  rw [Nat.mul_comm,Nat.add_assoc]
  exact hb

end

theorem group_of_block {b : Nat × Group} (hb : b∈iatBlocks imps++iltBlocks imps) :
    b.2∈byDll imps := by
  rcases List.mem_append.mp hb with hb | hb <;> exact mem_of_mem_place (p := b.1) hb

theorem slot_value {x : Nat × Nat} (h : x∈(buildArea base imps).slots) :
    x.2=0 ∨ ∃ p c,x.2=base+p ∧ (p,c)∈nameCells imps := by
  obtain ⟨b,hb,hx⟩:=List.mem_flatMap.mp h
  obtain ⟨i,-,hi⟩:=mem_thunks.mp (show (x.1,x.2)∈_ from hx)
  have hg:=group_of_block hb
  rcases List.mem_append.mp (List.mem_of_getElem? hi) with hm | hm
  · obtain ⟨imp,him,he⟩:=List.mem_map.mp hm
    obtain ⟨p,hp,hn⟩:=rvaOf_spec base (hint_named hg him)
    exact .inr ⟨p,_,he.symm.trans hp,hn⟩
  · exact .inl (List.mem_singleton.mp hm)

variable (fit : base+areaLen base old imps ≤ 2^32)
include fit

theorem slot_lt {x : Nat × Nat} (h : x∈(buildArea base imps).slots) : x.2<2^32 := by
  rcases slot_value h with h0 | ⟨p,c,hp,hc⟩
  · rw [h0]
    decide
  · have hl:=name_fits base old hc
    have hpos : 0<c.bytes.length := by
      cases c <;> simp only [NameCell.bytes,nameBytes,List.length_append,List.length_singleton] <;>
        omega
    omega

theorem slot_loaded {mem : Nat → UInt8} (hmem : BytesAt mem base (areaBytes base old imps))
    {o v : Nat} (h : (o,v)∈(buildArea base imps).slots) : word 8 mem (base+o)=v :=
  word_of_bytesAt
    (bytesAt_area hmem (w := slotWrite (o,v)) (List.mem_append_left _ (List.mem_map_of_mem h)))
    (Nat.lt_trans (slot_lt fit h) (by decide))

theorem thunksBy_block {mem : Nat → UInt8} (hmem : BytesAt mem base (areaBytes base old imps))
    {b : Nat × Group} (hb : b∈iatBlocks imps++iltBlocks imps)
    (names : ∀ imp∈imps,IsName imp.func) : ThunksBy mem (base+b.1) b.2.2 := by
  have hg:=group_of_block hb
  constructor
  · intro i imp hi
    have him:=List.mem_of_getElem? hi
    have hs : (_,rvaOf base imps _)∈_ := slot_mem hb hi
    have hv:=slot_loaded fit hmem hs
    obtain ⟨p,hp,hn⟩:=rvaOf_spec base (hint_named hg him)
    have hbytes:=name_loaded hmem hn
    rw [NameCell.bytes,bytesAt_append,length_le,Nat.add_assoc] at hbytes
    rw [Nat.add_assoc,hv]
    refine ⟨?_,Nat.lt_trans (slot_lt fit hs) (by decide),?_,?_,?_⟩
    · rw [hp]
      have hpos:=name_pos hn
      omega
    · rw [hp]
      exact word_of_bytesAt hbytes.1 (by decide)
    · exact zero_not_mem_ascii (names imp (mem_byDll hg him).1)
    · rw [hp,Nat.add_assoc]
      exact hbytes.2
  · rw [Nat.add_assoc]
    exact slot_loaded fit hmem (end_mem base hb)

theorem descs_fit (oldFit : ∀ d∈old,∀ v∈d.words,v<2^32) :
    ∀ d∈allDescs base old imps,∀ v∈d.words,v<2^32 := by
  intro d hd
  rcases List.mem_append.mp hd with hd | hd
  · rcases List.mem_append.mp hd with hd | hd
    · exact oldFit d hd
    · obtain ⟨x,hx,rfl⟩:=List.mem_map.mp hd
      obtain ⟨g,hg,rfl⟩:=List.mem_map.mp hx
      have hat : ∀ {b : Nat × Group},b∈iatBlocks imps++iltBlocks imps → base+b.1<2^32 := by
        intro b hb
        have hm : slotWrite (b.1+8*b.2.2.length,0)∈areaWrites base old imps :=
          List.mem_append_left _ (List.mem_map_of_mem (end_mem base hb))
        have hr:=areaWrites_ascend.range hm
        have hs : (slotWrite (b.1+8*b.2.2.length,0)).stop=b.1+8*b.2.2.length+8 := by
          rw [Write.stop,slotWrite,length_le]
        omega
      obtain ⟨p,hp,hn⟩:=rvaOf_spec base (dll_named hg)
      have hl:=name_fits base old hn
      simp only [NameCell.bytes,nameBytes,List.length_append,List.length_singleton] at hl
      have h1:=hat (startOf_ilt hg)
      have h2:=hat (startOf_iat hg)
      dsimp only at h1 h2
      simp only [ImportDesc.words,List.forall_mem_cons,hp]
      refine ⟨h1,by decide,by decide,by omega,h2,fun v hv => by cases hv⟩
  · rw [List.mem_singleton.mp hd]
    decide

end

theorem slot_iff {imps : List Import} (syms : imps.Pairwise fun x y => x.sym≠y.sym) {g : Group}
    (hg : g∈byDll imps) {i : Nat} {imp : Import} (hi : g.2[i]?=some imp) (ib base va : Nat) :
    (imp.sym,va)∈(iatSlots imps).map (fun s => (s.1.sym,ib+base+s.2)) ↔
      va=ib+(base+startOf (iatBlocks imps) g.1)+8*i := by
  have hstart : (_,g)∈iatBlocks imps := startOf_spec rfl hg
  have him:=mem_byDll hg (List.mem_of_getElem? hi)
  constructor
  · intro h
    obtain ⟨⟨x,o⟩,hx,he⟩:=List.mem_map.mp h
    obtain ⟨hsym,rfl⟩:=Prod.mk.inj he
    have hxe : x=imp :=
      List.inj_on_of_nodup_map (List.pairwise_map.mpr syms) (mem_of_slot hx) him.1 hsym
    subst hxe
    obtain ⟨c,hc,hs⟩:=List.mem_flatMap.mp hx
    obtain ⟨j,rfl,hj⟩:=mem_slotsOf.mp hs
    have hcg : c.2∈byDll imps := mem_of_mem_place (p := c.1) hc
    have hce : c.2=g :=
      byDll_inj hcg hg ((mem_byDll hcg (List.mem_of_getElem? hj)).2.symm.trans him.2)
    -- a group has one table, and a function one place in it
    have hone : c.1=startOf (iatBlocks imps) g.1 := by
      have hsnd : ((iatBlocks imps).map Prod.snd).Nodup := by
        rw [iatBlocks,place_snd]
        exact (byDll_distinct imps).imp fun hne he => hne (congrArg Prod.fst he)
      exact congrArg Prod.fst (List.inj_on_of_nodup_map hsnd hc hstart hce)
    have hnodup : g.2.Nodup := by
      obtain ⟨f,-,rfl⟩:=List.mem_map.mp hg
      exact List.Nodup.filter _ (syms.imp fun hne he => hne (congrArg Import.sym he))
    rw [hce] at hj
    obtain ⟨hjl,hje⟩:=List.getElem?_eq_some_iff.mp hj
    obtain ⟨hil,hie⟩:=List.getElem?_eq_some_iff.mp hi
    have hij:=(List.Nodup.getElem_inj_iff hnodup).mp (hje.trans hie.symm)
    dsimp only
    omega
  · rintro rfl
    refine List.mem_map.mpr
      ⟨(imp,startOf (iatBlocks imps) g.1+8*i),?_,by dsimp only; congr 1; omega⟩
    exact List.mem_flatMap.mpr ⟨_,hstart,mem_slotsOf.mpr ⟨i,rfl,hi⟩⟩

/-- In every memory that has the returned bytes behind the code, the directory
holds the old descriptors, then one descriptor for each DLL in the order in
which the DLLs come up, each for exactly the functions of its DLL, then a null
descriptor, and with it the bytes end. -/
theorem newImports_read {ib sectionRva codeSize : Nat} {old : List ImportDesc} {imps : List Import}
    (syms : imps.Pairwise fun x y => x.sym≠y.sym)
    (names : ∀ imp∈imps,IsName imp.dll ∧ IsName imp.func)
    (oldFit : ∀ d∈old,∀ v∈d.words,v<2^32)
    (fit : sectionRva+align16 codeSize+areaLen (sectionRva+align16 codeSize) old imps ≤ 2^32) :
    ∃ r,buildNewImports ib sectionRva codeSize old imps=some r ∧
      (byDll imps).map Prod.fst=(imps.map Import.dll).eraseDups ∧
      (∀ g∈byDll imps,g.2=imps.filter fun imp => imp.dll=g.1) ∧
      ∃ new : List ImportDesc,new.length=(byDll imps).length ∧
        r.importDirRva+20*(old++new++[ImportDesc.null]).length=
          sectionRva+align16 codeSize+r.areaBytes.length ∧
        ∀ mem,BytesAt mem (sectionRva+align16 codeSize) r.areaBytes →
          (∀ (k : Nat) d,(old++new++[.null])[k]?=some d →
            readDesc mem (r.importDirRva+20*k)=d) ∧
          ∀ (k : Nat) g d,(byDll imps)[k]?=some g → new[k]?=some d →
            DescribesGroup mem ib r.iatVaMap d g := by
  have hdescs:=descs_fit fit oldFit
  have hdesc : ((allDescs (sectionRva+align16 codeSize) old imps).all fun d =>
      d.words.all fun v => v<2^32)=true :=
    List.all_eq_true.mpr fun d hd => List.all_eq_true.mpr fun v hv =>
      decide_eq_true (hdescs d hd v hv)
  have hslot : ((buildArea (sectionRva+align16 codeSize) imps).slots.all fun x => x.2<2^64)=true :=
    List.all_eq_true.mpr fun x hx => decide_eq_true (Nat.lt_trans (slot_lt fit hx) (by decide))
  have hascii : (imps.all fun imp => (imp.dll++imp.func).all fun c => c.toNat<128)=true :=
    List.all_eq_true.mpr fun imp him => by
      rw [List.all_append,(names imp him).1.all,(names imp him).2.all]
      rfl
  refine ⟨_,if_pos (by rw [hascii,hslot,hdesc]; rfl),?_,?_,
    newDescs (sectionRva+align16 codeSize) imps,?_,?_,fun mem hmem => ⟨?_,?_⟩⟩
  · rw [← firsts_keys Import.dll,byDll,List.map_map]
    rfl
  · intro g hg
    obtain ⟨f,-,rfl⟩:=List.mem_map.mp hg
    rfl
  · rw [newDescs,buildArea,List.length_map,List.length_map]
  · change _+descOff imps+20*(allDescs _ old imps).length=_
    rw [areaBytes,length_firstBytes,areaLen,Nat.mul_comm 20,Nat.add_assoc]
  · intro k d hd
    exact readDesc_of_bytesAt (desc_loaded hmem hd) (hdescs d (List.mem_of_getElem? hd))
  · intro k g d hk hd
    have hg:=List.mem_of_getElem? hk
    rw [newDescs,buildArea,List.map_map,List.getElem?_map,hk] at hd
    cases hd
    refine ⟨?_,thunksBy_block fit hmem (startOf_ilt hg) fun imp him => (names imp him).2,
      thunksBy_block fit hmem (startOf_iat hg) fun imp him => (names imp him).2,
      fun i imp hi va => slot_iff syms hg hi ib _ va⟩
    obtain ⟨p,hp,hn⟩:=rvaOf_spec (sectionRva+align16 codeSize) (dll_named hg)
    obtain ⟨imp,him⟩ : ∃ imp∈imps,imp.dll=g.1 := by
      obtain ⟨f,hf,rfl⟩:=List.mem_map.mp hg
      exact ⟨f,mem_of_mem_firsts Import.dll hf,rfl⟩
    refine ⟨zero_not_mem_ascii (him.2 ▸ (names imp him.1).1),?_⟩
    have hbytes:=name_loaded hmem hn
    rw [← hp] at hbytes
    exact hbytes

/-- Two functions of one DLL and one of another. -/
def threeImports : List Import :=
  [⟨['a'],['f'],['s']⟩,⟨['b'],['g'],['t']⟩,⟨['a'],['h'],['u']⟩]

theorem newImports_read_three : ∃ r,buildNewImports 0x140000000 0x5000 0x20 [] threeImports=some r ∧
    (byDll threeImports).map Prod.fst=[['a'],['b']] ∧
    r.importDirRva+60=0x5020+r.areaBytes.length ∧
    ∀ mem,BytesAt mem 0x5020 r.areaBytes → readDesc mem (r.importDirRva+40)=.null := by
  have hdll : ∀ cs∈threeImports.map Import.dll,IsName cs := isName_of_all (by decide)
  have hfunc : ∀ cs∈threeImports.map Import.func,IsName cs := isName_of_all (by decide)
  have h : ∃ r,buildNewImports 0x140000000 0x5000 0x20 [] threeImports=some r ∧ _ :=
    newImports_read (by decide)
      (fun imp him => ⟨hdll _ (List.mem_map_of_mem him),hfunc _ (List.mem_map_of_mem him)⟩)
        (fun d hd => by cases hd) (by decide +kernel)
  obtain ⟨r,hr,hd,-,new,hnew,hend,hread⟩:=h
  have htwo : new.length=2 := hnew
  have hlen : ([]++new++[ImportDesc.null]).length=3 := by
    rw [List.length_append,List.nil_append,htwo]
    rfl
  refine ⟨r,hr,hd,by rw [hlen] at hend; exact hend,fun mem hmem => (hread mem hmem).1 2 .null ?_⟩
  rw [List.nil_append,List.getElem?_append_right (Nat.le_of_eq htwo),htwo]
  rfl

end Devirt
