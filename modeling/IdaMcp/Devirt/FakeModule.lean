import IdaMcp.Devirt.Hooks
import IdaMcp.Lib.Buffer

/-!
# Fake modules

`_build_fake_pe` writes an image with nothing but headers, an export directory
and stubs, and hooks the stubs. Code that walks the export directory by name is
to find the stub under which `hook_map` knows the function.
-/

namespace Devirt
open Lib
variable {base i : Nat} {fname : List Char}

/-- A number that `struct.pack_into` writes, or refuses when it has more bytes. -/
structure Field where
  off : Nat
  width : Nat
  val : Nat

def Field.write (f : Field) : Write := ⟨f.off,le f.width f.val⟩
def Field.fits (f : Field) : Bool := f.val<256^f.width

def nameBytes (fname : List Char) : List UInt8 := ascii fname++[0]

def expOff : Nat := 0x200
def eatOff : Nat := expOff+40

section
variable (dll : List Char) (exports : List (List Char))

def nameOffsets : List Nat := (place (pieceEnd nameBytes) 0 exports).map Prod.fst
def dllNameOff : Nat := placeEnd (pieceEnd nameBytes) 0 exports
def namesBlob : List UInt8 := exports.flatMap nameBytes++nameBytes dll

def entOff : Nat := eatOff+exports.length*4
def eotOff : Nat := entOff exports+exports.length*4
def nmsOff : Nat := alignUp 4 (eotOff exports+exports.length*2)
def stubOff : Nat := alignUp 0x1000 (nmsOff exports+(namesBlob dll exports).length)
def fakeTotal : Nat := alignUp 0x1000 (stubOff dll exports+exports.length*0x10)

/-- Models `MZ`, `PE`, the file header, the optional header and the first data
   directory. -/
def headerFields (base : Nat) : List Field :=
  [⟨0,2,0x5A4D⟩,⟨0x3C,4,0x80⟩,⟨0x80,4,0x4550⟩,⟨0x84,2,0x8664⟩,⟨0x86,2,0⟩,⟨0x94,2,0xF0⟩,
   ⟨0x96,2,0x2022⟩,⟨0x98,2,0x20b⟩,⟨0xB0,8,base⟩,⟨0xB8,4,0x1000⟩,⟨0xBC,4,0x200⟩,
   ⟨0xD0,4,fakeTotal dll exports⟩,⟨0xD4,4,0x200⟩,⟨0x104,4,0x10⟩,⟨0x108,4,expOff⟩,⟨0x10C,4,40⟩]

def directoryFields : List Field :=
  [⟨expOff+12,4,nmsOff exports+dllNameOff exports⟩,⟨expOff+16,4,1⟩,⟨expOff+20,4,exports.length⟩,
   ⟨expOff+24,4,exports.length⟩,⟨expOff+28,4,eatOff⟩,⟨expOff+32,4,entOff exports⟩,
   ⟨expOff+36,4,eotOff exports⟩]

def eatField (i : Nat) : Field := ⟨eatOff+i*4,4,stubOff dll exports+i*0x10⟩
def entField (i : Nat) : Field :=
  ⟨entOff exports+i*4,4,nmsOff exports+(nameOffsets exports).getD i 0⟩
def eotField (i : Nat) : Field := ⟨eotOff exports+i*2,2,i⟩

def fakeFields (base : Nat) : List Field :=
  headerFields dll exports base++directoryFields exports++
    (List.range exports.length).flatMap fun i =>
      [eatField dll exports i,entField exports i,eotField exports i]

def int3 : List UInt8 := List.replicate 0x10 0xCC

def fakeWrites (base : Nat) : List Write :=
  (fakeFields dll exports base).map Field.write++
    (⟨nmsOff exports,namesBlob dll exports⟩::
      (List.range exports.length).map fun i => ⟨stubOff dll exports+i*0x10,int3⟩)

def fakeImg (base : Nat) : Nat → UInt8 := writeAll (fakeWrites dll exports base) fun _ => 0

end

def exportHook (dll fname : List Char) (stubVa : Nat) : Hook :=
  ⟨dll,fname,0,stubVa,mangle dll fname⟩

structure FakePe where
  base : Nat
  total : Nat
  img : Nat → UInt8

/-- Nothing where `encode` or `struct.pack_into` raises. -/
def Emulator.buildFakePe (s : Emulator) (dll : List Char) (exports : List (List Char)) :
    Option (FakePe × Emulator) :=
  if (dll::exports).all fun fname => fname.all fun c => c.toNat<128 then
    let total:=fakeTotal dll exports
    let r:=s.alloc total 0x10000
    if (fakeFields dll exports r.1).all Field.fits then
      some (⟨r.1,total,fakeImg dll exports r.1⟩,
        {r.2 with
          hookMap := hookAll (exportHook dll) (r.1+stubOff dll exports) exports s.hookMap})
    else none
  else none

/-- What code that walks the export directory finds: the name's place in the
name table, the ordinal there, and the address under the ordinal. -/
def exportByName (img : Nat → UInt8) (name : List UInt8) : Option Nat :=
  let dir:=word 4 img 0x108
  let functions:=word 4 img (dir+28)
  let names:=word 4 img (dir+32)
  let ordinals:=word 4 img (dir+36)
  ((List.range (word 4 img (dir+24))).find? fun i =>
      CString img (word 4 img (names+i*4)) name).map fun i =>
    word 4 img (functions+word 2 img (ordinals+i*2)*4)

/-- Where the header, the directory, its tables, the names and the stubs start
and end. -/
def fakeAreas (dll : List Char) (exports : List (List Char)) : List (Nat × Nat) :=
  let n:=exports.length
  [(0,0x200),(expOff,expOff+40),(eatOff,eatOff+n*4),(entOff exports,entOff exports+n*4),
   (eotOff exports,eotOff exports+n*2),
   (nmsOff exports,nmsOff exports+(namesBlob dll exports).length),
   (stubOff dll exports,stubOff dll exports+n*0x10)]

section
variable (dll : List Char) (exports : List (List Char))

theorem nms_le : eotOff exports+exports.length*2 ≤ nmsOff exports := le_alignUp _ (by decide) _

theorem stub_le : nmsOff exports+(namesBlob dll exports).length ≤ stubOff dll exports :=
  le_alignUp _ (by decide) _

theorem total_le : stubOff dll exports+exports.length*0x10 ≤ fakeTotal dll exports :=
  le_alignUp _ (by decide) _

theorem layout_order : expOff=0x200 ∧ eatOff=expOff+40 ∧ entOff exports=eatOff+exports.length*4 ∧
    eotOff exports=entOff exports+exports.length*4 ∧
    eotOff exports+exports.length*2 ≤ nmsOff exports ∧
    nmsOff exports+(namesBlob dll exports).length ≤ stubOff dll exports ∧
    stubOff dll exports+exports.length*0x10 ≤ fakeTotal dll exports :=
  ⟨rfl,rfl,rfl,rfl,nms_le exports,stub_le dll exports,total_le dll exports⟩

theorem fakeAreas_apart : (fakeAreas dll exports).Pairwise (fun x y => x.2 ≤ y.1) ∧
    ∀ x∈fakeAreas dll exports,x.2 ≤ fakeTotal dll exports := by
  have h:=layout_order dll exports
  constructor
  · simp only [fakeAreas,List.pairwise_cons,List.forall_mem_cons,List.not_mem_nil,
      false_implies,implies_true,List.Pairwise.nil,and_true]
    omega
  · simp only [fakeAreas,List.forall_mem_cons,List.not_mem_nil,false_implies,implies_true,and_true]
    omega

/-- The writes in the order of their places. -/
def placedWrites (base : Nat) : List Write :=
  (headerFields dll exports base++directoryFields exports).map Field.write++
    ((List.range exports.length).map (fun i => (eatField dll exports i).write)++
    ((List.range exports.length).map (fun i => (entField exports i).write)++
    ((List.range exports.length).map (fun i => (eotField exports i).write)++
    (⟨nmsOff exports,namesBlob dll exports⟩::
      (List.range exports.length).map fun i => ⟨stubOff dll exports+i*0x10,int3⟩))))

theorem placedWrites_ascend (base : Nat) :
    Ascends (fakeTotal dll exports) 0 (placedWrites dll exports base) := by
  have h1 : Ascends eatOff 0
      ((headerFields dll exports base++directoryFields exports).map Field.write) := by
    simp only [headerFields,directoryFields,List.cons_append,List.nil_append,List.map_cons,
      List.map_nil,Field.write,Ascends,Write.stop,length_le]
    decide
  have hle : ∀ w v : Nat,(le w v).length ≤ w := fun w v => Nat.le_of_eq (length_le w v)
  refine h1.append ((Ascends.steps (fun i => hle 4 _) (Nat.le_refl _)).append
    ((Ascends.steps (fun i => hle 4 _) (Nat.le_refl _)).append
    ((Ascends.steps (fun i => hle 2 _) (nms_le exports)).append ⟨Nat.le_refl _,?_⟩)))
  have hnone : Ascends (stubOff dll exports)
    (Write.stop ⟨nmsOff exports,namesBlob dll exports⟩) [] := stub_le dll exports
  exact hnone.append (Ascends.steps (fun _ => Nat.le_refl 0x10) (total_le dll exports))

theorem mem_placedWrites {w : Write} (h : w∈fakeWrites dll exports base) :
    w∈placedWrites dll exports base := by
  rw [placedWrites]
  rcases List.mem_append.mp h with h | h
  · obtain ⟨f,hf,rfl⟩:=List.mem_map.mp h
    rcases List.mem_append.mp hf with hf | hf
    · exact List.mem_append_left _ (List.mem_map_of_mem hf)
    · obtain ⟨i,hi,hf⟩:=List.mem_flatMap.mp hf
      simp only [List.mem_cons,List.not_mem_nil,or_false] at hf
      simp only [List.mem_append]
      rcases hf with rfl | rfl | rfl
      · exact .inr (.inl (List.mem_map_of_mem hi))
      · exact .inr (.inr (.inl (List.mem_map_of_mem hi)))
      · exact .inr (.inr (.inr (.inl (List.mem_map_of_mem hi))))
  · simp only [List.mem_append]
    exact .inr (.inr (.inr (.inr h)))

theorem bytesAt_write (base : Nat) {w : Write} (h : w∈fakeWrites dll exports base) :
    BytesAt (fakeImg dll exports base) w.start w.bytes := by
  have hord:=placedWrites_ascend dll exports base
  exact bytesAt_writeAll h
    (fun v hv => hord.apart (mem_placedWrites dll exports h) (mem_placedWrites dll exports hv)) _

theorem word_field (fits : (fakeFields dll exports base).all Field.fits=true) {f : Field}
    (hf : f∈fakeFields dll exports base) : word f.width (fakeImg dll exports base) f.off=f.val :=
  word_of_bytesAt (bytesAt_write dll exports base (List.mem_append_left _ (List.mem_map_of_mem hf)))
    (of_decide_eq_true (List.all_eq_true.mp fits f hf))

theorem tables_mem (base : Nat) (hi : i<exports.length) :
    eatField dll exports i∈fakeFields dll exports base ∧
      entField exports i∈fakeFields dll exports base ∧
      eotField exports i∈fakeFields dll exports base := by
  have hr:=List.mem_range.mpr hi
  refine ⟨?_,?_,?_⟩ <;> refine List.mem_append_right _ (List.mem_flatMap.mpr ⟨i,hr,?_⟩) <;>
    simp only [List.mem_cons,true_or,or_true]

end

section
variable {dll : List Char} {exports : List (List Char)}

theorem name_at (h : exports[i]?=some fname) :
    ((nameOffsets exports).getD i 0,fname)∈place (pieceEnd nameBytes) 0 exports := by
  have hs:=congrArg (fun l => l[i]?) (place_snd (pieceEnd nameBytes) 0 exports)
  simp only [List.getElem?_map,h,Option.map_eq_some_iff] at hs
  obtain ⟨⟨o,x⟩,hx,rfl⟩:=hs
  rw [nameOffsets,List.getD_eq_getElem?_getD,List.getElem?_map,hx]
  exact List.mem_of_getElem? hx

variable (dll) in
theorem bytesAt_name (base : Nat) (h : exports[i]?=some fname) :
    BytesAt (fakeImg dll exports base) (nmsOff exports+(nameOffsets exports).getD i 0)
        (nameBytes fname) ∧
      (nameOffsets exports).getD i 0 ≤ dllNameOff exports := by
  have hw:=bytesAt_write dll exports base (w := ⟨nmsOff exports,namesBlob dll exports⟩)
    (List.mem_append_right _ List.mem_cons_self)
  have hp:=bytesAt_piece (o := 0) (bytesAt_append.mp hw).1 (name_at h)
  rw [dllNameOff,placeEnd_pieces]
  exact ⟨hp.1,by omega⟩

theorem fields_fit (count : exports.length ≤ 65535) (small : fakeTotal dll exports<2^32)
    (low : base<2^64) : (fakeFields dll exports base).all Field.fits=true := by
  have h:=layout_order dll exports
  have hn : dllNameOff exports<(namesBlob dll exports).length := by
    rw [dllNameOff,placeEnd_pieces,namesBlob,List.length_append,nameBytes,List.length_append,
      List.length_singleton]
    omega
  have hfits : ∀ f : Field,f.val<256^f.width → f.fits=true := fun f hf => decide_eq_true hf
  refine List.all_eq_true.mpr fun f hf => hfits f ?_
  rcases List.mem_append.mp hf with hf | hf
  · have hall : ∀ f∈headerFields dll exports base++directoryFields exports,f.val<256^f.width := by
      simp only [headerFields,directoryFields,List.cons_append,List.nil_append,
        List.forall_mem_cons,List.not_mem_nil,false_implies,implies_true,and_true]
      omega
    exact hall f hf
  · obtain ⟨i,hi,hf⟩:=List.mem_flatMap.mp hf
    have hi:=List.mem_range.mp hi
    have ht:=(bytesAt_name dll base (List.getElem?_eq_getElem hi)).2
    simp only [List.mem_cons,List.not_mem_nil,or_false] at hf
    rcases hf with rfl | rfl | rfl
    · change stubOff dll exports+i*0x10<256^4
      omega
    · change nmsOff exports+(nameOffsets exports).getD i 0<256^4
      omega
    · change i<256^2
      omega

variable (names : ∀ fname∈exports,IsName fname)
include names

theorem cstring_iff (h : exports[i]?=some fname)
    (fits : (fakeFields dll exports base).all Field.fits=true) (name : List UInt8) :
    CString (fakeImg dll exports base)
      (word 4 (fakeImg dll exports base) (entOff exports+i*4)) name ↔
      name=ascii fname := by
  obtain ⟨hl,-⟩:=List.getElem?_eq_some_iff.mp h
  have hw:=word_field dll exports fits (tables_mem dll exports base hl).2.1
  have hc : CString (fakeImg dll exports base)
      (nmsOff exports+(nameOffsets exports).getD i 0) (ascii fname) :=
    ⟨zero_not_mem_ascii (names fname (List.mem_of_getElem? h)),(bytesAt_name dll base h).1⟩
  rw [show word 4 _ (entOff exports+i*4)=_ from hw]
  constructor
  · exact fun hname => cstring_unique hname hc
  · rintro rfl
    exact hc

theorem exportByName_eq (fits : (fakeFields dll exports base).all Field.fits=true)
    (name : List UInt8) : exportByName (fakeImg dll exports base) name=
      ((List.range exports.length).find? fun i => (exports[i]?).any fun x => name=ascii x).map
        fun i => stubOff dll exports+i*0x10 := by
  have hmem : ∀ f∈[(⟨0x108,4,expOff⟩ : Field),⟨expOff+24,4,exports.length⟩,⟨expOff+28,4,eatOff⟩,
      ⟨expOff+32,4,entOff exports⟩,⟨expOff+36,4,eotOff exports⟩],
      word f.width (fakeImg dll exports base) f.off=f.val := by
    intro f hf
    refine word_field dll exports fits (List.mem_append_left _ ?_)
    simp only [List.mem_cons,List.not_mem_nil,or_false] at hf
    rcases hf with rfl | rfl | rfl | rfl | rfl <;> simp [headerFields,directoryFields]
  simp only [List.forall_mem_cons] at hmem
  obtain ⟨e0,e1,e2,e3,e4,-⟩:=hmem
  simp only [exportByName,e0,e1,e2,e3,e4]
  have hfind : ((List.range exports.length).find? fun i =>
      CString (fakeImg dll exports base)
        (word 4 (fakeImg dll exports base) (entOff exports+i*4)) name)=
      (List.range exports.length).find? fun i => (exports[i]?).any fun x => name=ascii x := by
    rw [← List.head?_filter,← List.head?_filter]
    refine congrArg List.head? (List.filter_congr fun i hi => ?_)
    have hi:=List.getElem?_eq_getElem (List.mem_range.mp hi)
    rw [hi,Option.any_some]
    exact decide_eq_decide.mpr (cstring_iff names hi fits name)
  rw [hfind]
  refine Option.map_congr fun i hi => ?_
  have hl:=List.mem_range.mp (List.mem_of_find?_eq_some hi)
  obtain ⟨hm1,-,hm3⟩:=tables_mem dll exports base hl
  have w3:=word_field dll exports fits hm3
  have w1:=word_field dll exports fits hm1
  dsimp only [eotField] at w3
  rw [w3]
  exact w1

end

section
variable {s : Emulator} {dll : List Char} {exports : List (List Char)}

theorem get_exports (below : s.Below) {a : Nat} {h : Hook}
    (hg : (hookAll (exportHook dll) base exports s.hookMap).get a=some h) :
    (∃ i fname,exports[i]?=some fname ∧ h=exportHook dll fname a ∧ a=base+0x10*i) ∨ a<s.cursor := by
  by_cases hex : ∃ i < exports.length,a=base+0x10*i
  · obtain ⟨i,hi,rfl⟩:=hex
    have hi:=List.getElem?_eq_getElem hi
    rw [hookAll_own _ hi] at hg
    exact .inl ⟨i,_,hi,(Option.some.inj hg).symm,rfl⟩
  · rw [hookAll_other _ fun i hi he => hex ⟨i,hi,he⟩] at hg
    exact .inr (below a h hg)

/-- A fake module can be built whenever its size and its base have room in
their fields. Its areas do not touch. Each exported name is resolved to the one
stub that `hook_map` has for this function, and any other name to nothing. -/
theorem exports_resolve (below : s.Below) (dllName : IsName dll)
    (names : ∀ fname∈exports,IsName fname) (distinct : exports.Nodup)
    (count : exports.length ≤ 65535) :
    (fakeTotal dll exports<2^32 → alignUp 0x10000 s.cursor<2^64 →
        (s.buildFakePe dll exports).isSome=true) ∧
      ∀ pe t,s.buildFakePe dll exports=some (pe,t) →
        ((fakeAreas dll exports).Pairwise (fun x y => x.2 ≤ y.1) ∧
          ∀ x∈fakeAreas dll exports,x.2 ≤ pe.total) ∧
        (∀ fname∈exports,∃ rva,exportByName pe.img (ascii fname)=some rva ∧ rva<pe.total ∧
          t.hookMap.get (pe.base+rva)=some (exportHook dll fname (pe.base+rva)) ∧
          ∀ a h,t.hookMap.get a=some h → pe.base ≤ a → h.func=fname → a=pe.base+rva) ∧
        ∀ name,name∉exports.map ascii → exportByName pe.img name=none := by
  have hascii : ((dll::exports).all fun fname => fname.all fun c => c.toNat<128)=true :=
    List.all_eq_true.mpr
      (List.forall_mem_cons.mpr ⟨dllName.all,fun fname hf => (names fname hf).all⟩)
  rw [Emulator.buildFakePe,if_pos hascii]
  dsimp only [Emulator.alloc]
  refine ⟨fun small low => by rw [if_pos (fields_fit count small low)]; rfl,?_⟩
  intro pe t hbuilt
  split at hbuilt
  · next fits =>
    cases hbuilt
    have hcur:=le_alignUp 0x10000 (by decide) s.cursor
    have hlen:=layout_order dll exports
    refine ⟨fakeAreas_apart dll exports,fun fname hf => ?_,fun name hn => ?_⟩
    · obtain ⟨i,hl,rfl⟩:=List.getElem_of_mem hf
      have hi:=List.getElem?_eq_getElem hl
      refine ⟨stubOff dll exports+i*0x10,?_,by dsimp only; omega,?_,?_⟩
      · rw [exportByName_eq names fits,
          List.find?_range_eq_some.mpr ⟨?_,List.mem_range.mpr hl,fun j hj => ?_⟩]
        · rfl
        · rw [hi]
          exact decide_eq_true rfl
        · have hjl:=Nat.lt_trans hj hl
          rw [List.getElem?_eq_getElem hjl,Option.any_some,Bool.not_eq_true',
            decide_eq_false_iff_not]
          intro he
          have hij:=ascii_inj (names _ hf) (names _ (List.getElem_mem hjl)) he
          exact absurd ((List.Nodup.getElem_inj_iff distinct).mp hij) (Nat.ne_of_gt hj)
      · dsimp only
        rw [Nat.mul_comm i,← Nat.add_assoc]
        exact hookAll_own _ hi
      · intro a h hg hle hfunc
        rcases get_exports below hg with ⟨j,x,hj,rfl,rfl⟩ | hlt
        · obtain ⟨hjl,rfl⟩:=List.getElem?_eq_some_iff.mp hj
          have hij:=(List.Nodup.getElem_inj_iff distinct).mp hfunc
          dsimp only
          omega
        · dsimp only at hle
          omega
    · rw [exportByName_eq names fits,List.find?_eq_none.mpr]
      · rfl
      · intro i hi hname
        rw [List.getElem?_eq_getElem (List.mem_range.mp hi),Option.any_some,
          decide_eq_true_eq] at hname
        exact hn (hname ▸ List.mem_map_of_mem (List.getElem_mem _))
  · cases hbuilt

end

/-- Two functions of one module. -/
theorem exports_resolve_two : ∃ pe t,noHooks.buildFakePe ['k'] [['a'],['b']]=some (pe,t) ∧
    ∃ rva,exportByName pe.img (ascii ['b'])=some rva ∧
      t.hookMap.get (pe.base+rva)=some (exportHook ['k'] ['b'] (pe.base+rva)) := by
  have hname : ∀ fname∈[['k'],['a'],['b']],IsName fname := isName_of_all (by decide)
  obtain ⟨hbuilt,hall⟩:=exports_resolve noHooks_below (hname ['k'] List.mem_cons_self)
    (fun fname (hf : fname∈[['a'],['b']]) => hname fname (List.mem_cons_of_mem _ hf)) (by decide)
    (by decide)
  obtain ⟨r,hr⟩:=Option.isSome_iff_exists.mp (hbuilt (by decide) (by decide))
  obtain ⟨rva,h1,-,h3,-⟩:=(hall r.1 r.2 hr).2.1 ['b'] (by decide)
  exact ⟨r.1,r.2,hr,rva,h1,h3⟩

section
variable {s t : Emulator}

/-- The loop of `_setup_peb_ldr`, as far as it makes hooks: the modules with the
addresses they are built at. -/
def Emulator.fakeModules (s : Emulator) :
    List (List Char × List (List Char)) → Option (List FakePe × Emulator)
  | [] => some ([],s)
  | m::ms => (s.buildFakePe m.1 m.2).bind fun r =>
    (r.2.fakeModules ms).map fun rest => (r.1::rest.1,rest.2)

/-- Every export of a module has its hook at its own stub. -/
def Emulator.Exports (s : Emulator) (m : List Char × List (List Char)) (pe : FakePe) : Prop :=
  ∀ i fname,m.2[i]?=some fname →
    s.hookMap.get (pe.base+stubOff m.1 m.2+0x10*i)=
      some (exportHook m.1 fname (pe.base+stubOff m.1 m.2+0x10*i))

theorem buildFakePe_hooks (below : s.Below) {dll : List Char} {exports : List (List Char)}
    {r : FakePe × Emulator} (built : s.buildFakePe dll exports=some r) :
    r.2.Below ∧ (∀ a h,s.hookMap.get a=some h → r.2.hookMap.get a=some h) ∧
      r.2.Exports (dll,exports) r.1 := by
  have hcur:=le_alignUp 0x10000 (by decide) s.cursor
  have hlen:=layout_order dll exports
  rw [Emulator.buildFakePe] at built
  dsimp only [Emulator.alloc] at built
  split at built
  · split at built
    · cases built
      refine ⟨fun a h hg => ?_,fun a h ha => ?_,fun i fname hi => ?_⟩
      · rcases get_exports below hg with ⟨i,x,hi,-,rfl⟩ | hlt
        · obtain ⟨hl,-⟩:=List.getElem?_eq_some_iff.mp hi
          dsimp only
          omega
        · dsimp only
          omega
      · have hlt:=below a h ha
        exact (hookAll_other _ fun i _ he => by omega).trans ha
      · exact hookAll_own _ hi
    · cases built
  · cases built

theorem fakeModules_hooks (below : s.Below) {ms : List (List Char × List (List Char))}
    {pes : List FakePe} (h : s.fakeModules ms=some (pes,t)) :
    t.Below ∧ (∀ a x,s.hookMap.get a=some x → t.hookMap.get a=some x) ∧
      pes.length=ms.length ∧
      ∀ (j : Nat) m pe,ms[j]?=some m → pes[j]?=some pe → t.Exports m pe := by
  induction ms generalizing s pes with
  | nil =>
    cases h
    exact ⟨below,fun a x ha => ha,rfl,fun j m pe hm => by cases hm⟩
  | cons m ms ih =>
    obtain ⟨r,hr,ht⟩:=Option.bind_eq_some_iff.mp h
    obtain ⟨rest,hrest,he⟩:=Option.map_eq_some_iff.mp ht
    cases he
    obtain ⟨hb,hkept,hown⟩:=buildFakePe_hooks below hr
    obtain ⟨hb',hkept',hlen,hall⟩:=ih hb hrest
    refine ⟨hb',fun a x ha => hkept' a x (hkept a x ha),congrArg (·+1) hlen,?_⟩
    intro j m' pe hm hpe
    cases j with
    | zero =>
      cases hm
      cases hpe
      exact fun i fname hi => hkept' _ _ (hown i fname hi)
    | succ j => exact hall j m' pe hm hpe

/-- After `_create_emu`, `_fill_iat` and `_fill_rdata_hooks` every export of
every fake module still has the hook at its stub, and every import and dark
value has one where none was before. -/
theorem all_hooked (below : s.Below) {ms : List (List Char × List (List Char))} {pes : List FakePe}
    (made : s.fakeModules ms=some (pes,t)) {pe : PeFile}
    (room : pe.entries.length ≤ 0x1000 ∨ pe.darkSlots=[]) :
    (∃ hookOf darkOf,Own pe t hookOf darkOf) ∧ pes.length=ms.length ∧
      ∀ (j : Nat) m fake,ms[j]?=some m → pes[j]?=some fake → (t.fillHooks pe).Exports m fake := by
  obtain ⟨hb,-,hlen,hall⟩:=fakeModules_hooks below made
  have own:=own_of_room hb room
  exact ⟨⟨_,_,own⟩,hlen,fun j m fake hm hf i fname hi =>
    own.before _ _ (hall j m fake hm hf i fname hi)⟩

theorem all_hooked_two : ∃ pes t,
    noHooks.fakeModules [(['k'],[['a']]),(['n'],[['b']])]=some (pes,t) ∧
      (∃ hookOf darkOf,Own (importing 2) t hookOf darkOf) ∧
      ∃ fake,pes[1]?=some fake ∧ (t.fillHooks (importing 2)).Exports (['n'],[['b']]) fake := by
  have hb : (noHooks.fakeModules [(['k'],[['a']]),(['n'],[['b']])]).isSome=true := by decide +kernel
  obtain ⟨⟨pes,t⟩,ht⟩:=Option.isSome_iff_exists.mp hb
  have hroom : (importing 2).entries.length ≤ 0x1000 := by rw [importing_entries]; decide
  obtain ⟨hown,hlen,hall⟩:=all_hooked noHooks_below ht (.inl hroom)
  have hl : 1<pes.length := hlen ▸ Nat.lt_succ_self 1
  have hfake:=List.getElem?_eq_getElem hl
  exact ⟨pes,t,ht,hown,_,hfake,hall 1 _ _ rfl hfake⟩

end

end Devirt
