import IdaMcp.Devirt.Calls
import IdaMcp.Devirt.Imports

/-!
# The patched image

`_generate_multi_pe` puts the code of all devirtualized functions and the
tables of their imports into a new section. An import is known by a symbol
made from its names; the first entry of a symbol gets the slot, and every line that names
the symbol is resolved to that slot.
-/

namespace Devirt
open Lib
variable {info : HookInfo} {sym : List Char} {n cursor : Nat} {rs : List VMDevirtualizer}

/-! ### Symbols -/

def isWord (c : Char) : Bool := c.isAlphanum || c== '_'

/-- `re.sub(r"[^a-zA-Z0-9_]", "_", f"\x7bdll\x7d_\x7bfunc\x7d")` -/
def mangle (dll func : List Char) : List Char :=
  (dll++ '_'::func).map fun c => if isWord c then c else '_'

/-- The entries that `_fill_iat`, `_build_fake_pe` and `_fill_rdata_hooks`
put into the hook map. -/
def HookInfo.Made (info : HookInfo) : Prop :=
  info.sym=mangle info.dll info.func ∨
    info.dll=['?'] ∧ info.sym=info.func ∧ ∃ va,info.func=['s','l','o','t','_']++hex va

theorem HookInfo.Made.word (h : info.Made) : ∀ c∈info.sym,isWord c=true := by
  intro c hc
  rcases h with h | ⟨-,h,va,hf⟩
  · rw [h] at hc
    obtain ⟨x,-,rfl⟩:=List.mem_map.mp hc
    split
    · next hx => exact hx
    · decide
  · rw [h,hf,List.mem_append] at hc
    rcases hc with hc | hc
    · exact List.all_eq_true.mp (show ['s','l','o','t','_'].all isWord=true by decide) c hc
    · obtain ⟨d,hd,rfl⟩:=mem_toDigits hc
      clear hc
      revert d
      decide

theorem isKey_placeholder (h : ∀ c∈sym,isWord c=true) : IsKey (placeholder sym) := by
  have hb : ' '∉sym := fun hm => absurd (h _ hm) (by decide)
  have hc : ']'∉sym := fun hm => absurd (h _ hm) (by decide)
  refine ⟨⟨_,rfl⟩,⟨['_','_','i','a','t','_']++sym++['_'],?_⟩,?_,?_⟩
  · rw [placeholder,List.append_assoc (_++sym)]
    rfl
  · simp [placeholder,hb]
  · simp [placeholder,hc]

def UNKNOWN_DLL : List Char := ['u','n','k','n','o','w','n','.','d','l','l']

def importOf (info : HookInfo) : Import :=
  ⟨if info.dll=['?'] then UNKNOWN_DLL else info.dll,info.func,info.sym⟩

/-- The entries of the calls of one function. -/
def VMDevirtualizer.called (r : VMDevirtualizer) : List HookInfo :=
  r.events.filterMap fun ev => r.hookMap.get ev.hook

def allCalled (results : List VMDevirtualizer) : List HookInfo :=
  results.flatMap VMDevirtualizer.called

def newImports (results : List VMDevirtualizer) : List Import :=
  (firsts HookInfo.sym (allCalled results)).map importOf

/-- `dict.update` -/
def HookMap.update (m n : HookMap) : HookMap :=
  m.map (fun info => (n.get info.hook).getD info) ++
    n.filter fun info => (m.get info.hook).isNone

def mergedHook (results : List VMDevirtualizer) : HookMap :=
  results.foldl (fun m r => m.update r.hookMap) []

/-! ### Code and image -/

/-- How the assembler takes a line at an address: the length of its encoding,
which does not depend on what the operand's address is, and whether it encodes
a line without a name. -/
structure Assembler where
  size : Line → Nat → Nat
  encodes : Line → Bool

structure Pe where
  ib : Nat
  newRva : Nat
  headerSpace : Bool

structure Placed where
  line : Line
  va : Nat
  sz : Nat
  out : List Char

variable {p : Placed}

def Placed.slot (p : Placed) : Option Int := ripOperand p.va p.sz (operand p.out)

def resolveAsm (asm : Assembler) (d : IatBySym) (va : Nat) : List Line → List Placed
  | [] => []
  | ln::lns =>
    let sz:=asm.size ln va
    ⟨ln,va,sz,resolveLine d va sz ln.text⟩::resolveAsm asm d (va+sz) lns

/-- Whether every line is encoded. -/
def assembles (asm : Assembler) (code : List Placed) : Bool :=
  code.all fun p => asm.encodes p.line && (p.line.iatSym.isNone || p.slot.isSome)

def codeLen (code : List Placed) : Nat := (code.map Placed.sz).sum

def align16 (n : Nat) : Nat := (n+15)/16*16

structure Func where
  source : VMDevirtualizer
  code : List Placed
  offset : Nat

variable {f : Func}

/-- The first pass leaves out what does not assemble. -/
def firstPass (asm : Assembler) (d : IatBySym) (newVa cursor : Nat) :
    List VMDevirtualizer → List Func × Nat
  | [] => ([],cursor)
  | r::rs =>
    let code:=resolveAsm asm d (newVa+cursor) r.reconstruct
    if assembles asm code then
      let rest:=firstPass asm d newVa (cursor+align16 (codeLen code)) rs
      (⟨r,code,cursor⟩::rest.1,rest.2)
    else firstPass asm d newVa cursor rs

/-- The second pass fails on what does not assemble. -/
def secondPass (asm : Assembler) (d : IatBySym) (newVa cursor : Nat) :
    List VMDevirtualizer → Option (List Func × Nat)
  | [] => some ([],cursor)
  | r::rs =>
    let code:=resolveAsm asm d (newVa+cursor) r.reconstruct
    if assembles asm code then
      (secondPass asm d newVa (cursor+align16 (codeLen code)) rs).map fun rest =>
        (⟨r,code,cursor⟩::rest.1,rest.2)
    else none

structure Image where
  funcs : List Func
  area : ImportArea
  areaRva : Nat
  iatVaMap : List (List Char × Nat)

section
variable (pe : Pe) (results : List VMDevirtualizer)

def areaStart (codeSize : Nat) : Nat := pe.newRva+align16 codeSize

def iatVaMap (codeSize : Nat) : List (List Char × Nat) :=
  (iatSlots (newImports results)).map fun s => (s.1.sym,pe.ib+areaStart pe codeSize+s.2)

/-- `iat_by_sym` of `_resolve_asm`, with the new slots over the old ones. -/
def iatBySym (codeSize : Nat) : IatBySym :=
  putAll
    (putAll [] (((mergedHook results).filter fun info => info.iat≠0).map fun info =>
      (placeholder info.sym,info.iat)))
    ((iatVaMap pe results codeSize).map fun e => (placeholder e.1,e.2))

/-- Where the code of the section ends. -/
def sectionEnd (fs : List Func) : Nat :=
  match fs.getLast? with
  | some f => f.offset+codeLen f.code
  | none => 0

def image (codeSize : Nat) (fs : List Func) : Image where
  funcs:=fs
  area:=buildArea (areaStart pe codeSize) (newImports results)
  areaRva:=pe.newRva+align16 (sectionEnd fs)
  iatVaMap:=iatVaMap pe results codeSize

def estCode : Nat := (results.map fun r => r.reconstruct.length*10).sum

/-- A pass with the slots that a code size gives. -/
def passOf (asm : Assembler) (codeSize : Nat) : List Func × Nat :=
  firstPass asm (iatBySym pe results codeSize) (pe.ib+pe.newRva) 0 results

def generateMultiPe (asm : Assembler) : Option Image :=
  -- `encode("ascii")` raises on any other name
  if (newImports results).any (fun imp => (imp.dll++imp.func).any fun c => 127<c.toNat) then none
  else
    let first:=passOf pe results asm (estCode results)
    if first.1.isEmpty then none
    else if pe.headerSpace=false then none
    else if first.2=estCode results then some (image pe results (estCode results) first.1)
    else (secondPass asm (iatBySym pe results first.2)
      (pe.ib+pe.newRva) 0 results).map fun second =>
      image pe results first.2 second.1

end

/-! ### What the calls of an image reach -/

theorem HookMap.mem_of_get {m : HookMap} {a : UInt64} (h : m.get a=some info) : info∈m := by
  rw [HookMap.get] at h
  exact List.mem_of_find?_eq_some h

theorem mem_update {m n : HookMap} (h : info∈m.update n) : info∈m ∨ info∈n := by
  rcases List.mem_append.mp h with h | h
  · obtain ⟨x,hx,rfl⟩:=List.mem_map.mp h
    cases hg : n.get x.hook with
    | none => exact .inl hx
    | some y => exact .inr (HookMap.mem_of_get hg)
  · exact .inr (List.mem_filter.mp h).1

theorem mem_mergedHook {results : List VMDevirtualizer}
    (h : info∈mergedHook results) : ∃ r∈results,info∈r.hookMap := by
  have hgen : ∀ (rs : List VMDevirtualizer) (m : HookMap),
      info∈rs.foldl (fun m r => m.update r.hookMap) m → info∈m ∨ ∃ r∈rs,info∈r.hookMap := by
    intro rs
    induction rs with
    | nil => exact fun m hm => .inl hm
    | cons r rs ih =>
      intro m hm
      rcases ih _ hm with hm | ⟨x,hx,hi⟩
      · rcases mem_update hm with hm | hm
        · exact .inl hm
        · exact .inr ⟨r,List.mem_cons_self,hm⟩
      · exact .inr ⟨x,List.mem_cons_of_mem r hx,hi⟩
  exact (hgen results [] h).resolve_left List.not_mem_nil

theorem mem_allCalled {results : List VMDevirtualizer}
    (h : info∈allCalled results) : ∃ r∈results,info∈r.hookMap := by
  obtain ⟨r,hr,hi⟩:=List.mem_flatMap.mp h
  obtain ⟨ev,-,hg⟩:=List.mem_filterMap.mp hi
  exact ⟨r,hr,HookMap.mem_of_get hg⟩

theorem mem_newImports {results : List VMDevirtualizer} {imp : Import}
    (h : imp∈newImports results) : ∃ info∈allCalled results,imp=importOf info := by
  obtain ⟨info,hi,rfl⟩:=List.mem_map.mp h
  exact ⟨info,mem_of_mem_firsts HookInfo.sym hi,rfl⟩

section
variable {pe : Pe} {results : List VMDevirtualizer}

theorem isKey_iatBySym (pe : Pe) (made : ∀ r∈results,∀ info∈r.hookMap,info.Made)
    (codeSize : Nat) : ∀ e∈iatBySym pe results codeSize,IsKey e.1 := by
  intro e he
  have hkey : ∀ info : HookInfo,(∃ r∈results,info∈r.hookMap) → IsKey (placeholder info.sym) := by
    rintro info ⟨r,hr,hi⟩
    exact isKey_placeholder (made r hr info hi).word
  rcases mem_putAll he with hnew | ⟨hold,-⟩
  · obtain ⟨x,hx,rfl⟩:=List.mem_map.mp hnew
    obtain ⟨s,hs,rfl⟩:=List.mem_map.mp hx
    obtain ⟨info,hi,heq⟩:=mem_newImports (mem_of_slot (show (s.1,s.2)∈iatSlots _ from hs))
    rw [heq]
    exact hkey info (mem_allCalled hi)
  · rcases mem_putAll hold with hold | ⟨hnil,-⟩
    · obtain ⟨info,hi,rfl⟩:=List.mem_map.mp hold
      exact hkey info (mem_mergedHook (List.mem_filter.mp hi).1)
    · cases hnil

theorem resolution_isSome (d : IatBySym) (sym : List Char) :
    (resolution d sym).isSome=
      decide ((d.map Prod.fst).find? (fun k => k <:+: placeholder sym)=some (placeholder sym)) := by
  have hmap : (d.map Prod.fst).find? (fun k => k <:+: placeholder sym)=
      (firstName d (placeholder sym)).map Prod.fst := by
    rw [firstName,List.find?_map]
    rfl
  rw [hmap,resolution]
  cases firstName d (placeholder sym) with
  | none => rfl
  | some e =>
    rw [Option.bind_some,Option.map_some]
    by_cases h : e.1=placeholder sym
    · rw [if_pos h,h]
      simp
    · rw [if_neg h]
      simp [h]

theorem keys_iatBySym (n m : Nat) :
    (iatBySym pe results n).map Prod.fst=(iatBySym pe results m).map Prod.fst := by
  apply keys_putAll rfl
  simp only [iatVaMap,List.map_map]
  rfl

end
/-! ### The lines of a function -/

theorem VMDevirtualizer.emit_of_mem (d : VMDevirtualizer) {past : Past} {evs : List Event}
    {e : Emitted} (h : some e∈d.emitAll past evs) : ∃ past' ev,d.emit past' ev=some e := by
  induction evs generalizing past with
  | nil => cases h
  | cons ev evs ih =>
    rcases List.mem_cons.mp h with h | h
    · exact ⟨past,ev,h.symm⟩
    · exact ih h

theorem VMDevirtualizer.named (d : VMDevirtualizer) {line : Line} (h : line∈d.reconstruct)
    (hs : line.iatSym=some sym) :
    (∃ info∈d.hookMap,sym=info.sym) ∨ ∃ i,sym="dark_".toList++Nat.toDigits 10 i := by
  rcases List.mem_append.mp h with h | h
  · obtain ⟨e,he,hl⟩:=List.mem_flatMap.mp h
    obtain ⟨past,ev,hemit⟩:=d.emit_of_mem (List.reduceOption_mem_iff.mp he)
    rw [emit] at hemit
    split at hemit
    · cases hemit
    · cases hemit
      rcases List.mem_append.mp hl with hl | hl
      · obtain ⟨i,hi,rfl⟩:=List.mem_map.mp hl
        rcases List.mem_append.mp hi with hi | hi
        · obtain ⟨⟨rn,op⟩,hop,rfl⟩:=List.mem_map.mp hi
          obtain ⟨r,-,hr⟩:=List.mem_filterMap.mp hop
          obtain ⟨o,ho,heq⟩:=Option.map_eq_some_iff.mp hr
          cases heq
          cases op with
          | iat info =>
            cases hs
            obtain ⟨-,-,-,hex⟩:=d.classify_explains ho
            exact .inl ⟨info,HookMap.mem_of_get hex,rfl⟩
          | imm v =>
            simp only [Op.insn] at hs
            split at hs
            · cases hs
            · split at hs <;> cases hs
          | ret => cases hs
          | reg src => cases hs
          | leaRsp off => cases hs
          | leaData addr => cases hs
        · obtain ⟨w,-,rfl⟩:=List.mem_map.mp hi
          cases w with
          | sq o v =>
            simp only [FrameWrite.insn] at hs
            split at hs <;> cases hs
          | sd o v => cases hs
      · rw [List.mem_singleton] at hl
        subst hl
        simp only [callTarget] at hs
        split at hs
        · cases hs
        · split at hs
          · next info hinfo =>
            cases hs
            exact .inl ⟨info,HookMap.mem_of_get hinfo,rfl⟩
          · cases hs
            exact .inr ⟨ev.i,rfl⟩
  · rw [List.mem_singleton] at h
    subst h
    cases hs

theorem isWord_digits (i : Nat) : ∀ c∈Nat.toDigits 10 i,isWord c=true := by
  intro c hc
  have hd:=Nat.isDigit_of_mem_toDigits (by decide) (by decide) hc
  rw [isWord,Char.isAlphanum,hd,Bool.or_true,Bool.true_or]

section
variable {r : VMDevirtualizer} (made : ∀ info∈r.hookMap,info.Made)
include made

theorem isKey_named {line : Line} (h : line∈r.reconstruct)
    (hs : line.iatSym=some sym) : IsKey (placeholder sym) := by
  apply isKey_placeholder
  intro c hc
  rcases r.named h hs with ⟨info,hi,rfl⟩ | ⟨i,rfl⟩
  · exact (made info hi).word c hc
  · rw [List.mem_append] at hc
    rcases hc with hc | hc
    · exact List.all_eq_true.mp (show "dark_".toList.all isWord=true by decide +kernel) c hc
    · exact isWord_digits i c hc

end

/-! ### The two passes -/

section
variable (asm : Assembler)

/-- The length of the encoding of lines, one behind another. -/
def linesLen (va : Nat) : List Line → Nat
  | [] => 0
  | ln::lns => asm.size ln va+linesLen (va+asm.size ln va) lns

theorem codeLen_resolveAsm (d : IatBySym) (va : Nat) (lns : List Line) :
    codeLen (resolveAsm asm d va lns)=linesLen asm va lns := by
  induction lns generalizing va with
  | nil => rfl
  | cons ln lns ih =>
    simp only [codeLen,resolveAsm,List.map_cons,List.sum_cons] at ih ⊢
    rw [linesLen,ih]

/-- Whether the assembler takes a line with its name resolved. -/
def takes (d : IatBySym) (ln : Line) : Bool :=
  asm.encodes ln && ln.iatSym.all fun sym => (resolution d sym).isSome

theorem takes_congr {d d' : IatBySym} (hkeys : d.map Prod.fst=d'.map Prod.fst) :
    takes asm d=takes asm d' := by
  funext ln
  simp only [takes,resolution_isSome,hkeys]

theorem assembles_eq {d : IatBySym} (hd : ∀ e∈d,IsKey e.1) (va : Nat) {lns : List Line}
    (hl : ∀ line∈lns,∀ sym,line.iatSym=some sym → IsKey (placeholder sym)) :
    assembles asm (resolveAsm asm d va lns)=lns.all (takes asm d) := by
  induction lns generalizing va with
  | nil => rfl
  | cons ln lns ih =>
    have hone : ∀ sz,(ln.iatSym.isNone || (slot d va sz ln).isSome)=
        ln.iatSym.all fun sym => (resolution d sym).isSome := by
      intro sz
      cases hs : ln.iatSym with
      | none => rfl
      | some sym =>
        rw [slot_eq va sz hd (hl ln List.mem_cons_self sym hs) hs,Option.isSome_map]
        rfl
    have hrest:=ih (va+asm.size ln va) fun line hm => hl line (List.mem_cons_of_mem ln hm)
    simp only [assembles,resolveAsm,List.all_cons] at hrest ⊢
    rw [hrest,takes,← hone (asm.size ln va)]
    rfl

theorem assembles_reconstruct {d : IatBySym} (hd : ∀ e∈d,IsKey e.1) {r : VMDevirtualizer}
    (made : ∀ info∈r.hookMap,info.Made) (va : Nat) :
    assembles asm (resolveAsm asm d va r.reconstruct)=r.reconstruct.all (takes asm d) :=
  assembles_eq asm hd va fun _ hline _ hs => isKey_named made hline hs

variable {d d' : IatBySym} (hd : ∀ e∈d,IsKey e.1) (hd' : ∀ e∈d',IsKey e.1)
  (hkeys : d.map Prod.fst=d'.map Prod.fst)
include hd hd' hkeys

theorem firstPass_congr (newVa cursor : Nat) (made : ∀ r∈rs,∀ info∈r.hookMap,info.Made) :
    (firstPass asm d newVa cursor rs).2=(firstPass asm d' newVa cursor rs).2 ∧
      (firstPass asm d newVa cursor rs).1.isEmpty=(firstPass asm d' newVa cursor rs).1.isEmpty := by
  induction rs generalizing cursor with
  | nil => exact ⟨rfl,rfl⟩
  | cons r rs ih =>
    have hmade : ∀ r'∈rs,∀ info∈r'.hookMap,info.Made :=
      fun r' hr' => made r' (List.mem_cons_of_mem r hr')
    have hcongr : assembles asm (resolveAsm asm d (newVa+cursor) r.reconstruct)=
        assembles asm (resolveAsm asm d' (newVa+cursor) r.reconstruct) := by
      rw [assembles_reconstruct asm hd (made r List.mem_cons_self),
        assembles_reconstruct asm hd' (made r List.mem_cons_self),takes_congr asm hkeys]
    simp only [firstPass]
    rw [hcongr,codeLen_resolveAsm asm d,codeLen_resolveAsm asm d']
    split
    · exact ⟨(ih _ hmade).1,rfl⟩
    · exact ih cursor hmade

end

section
variable {asm : Assembler} {d : IatBySym} {newVa : Nat}

theorem firstPass_of_secondPass {x : List Func × Nat}
    (h : secondPass asm d newVa cursor rs=some x) : firstPass asm d newVa cursor rs=x := by
  induction rs generalizing cursor x with
  | nil =>
    cases h
    rfl
  | cons r rs ih =>
    simp only [secondPass] at h
    split at h
    · next ha =>
      obtain ⟨y,hy,rfl⟩:=Option.map_eq_some_iff.mp h
      simp only [firstPass]
      rw [if_pos ha,ih hy]
    · cases h

theorem align16_eq (h : n%16=0) : align16 n=n := by
  rw [align16]
  omega

theorem align16_add {c : Nat} (h : c%16=0) (n : Nat) : align16 (c+n)=c+align16 n := by
  rw [align16,align16]
  omega

theorem firstPass_end (rs : List VMDevirtualizer) (h : cursor%16=0) :
    (firstPass asm d newVa cursor rs).2%16=0 ∧
      ((firstPass asm d newVa cursor rs).1=[] → (firstPass asm d newVa cursor rs).2=cursor) ∧
      ((firstPass asm d newVa cursor rs).1≠[] →
        align16 (sectionEnd (firstPass asm d newVa cursor rs).1)=
          (firstPass asm d newVa cursor rs).2) := by
  induction rs generalizing cursor with
  | nil => exact ⟨h,fun _ => rfl,fun hn => absurd rfl hn⟩
  | cons r rs ih =>
    simp only [firstPass]
    split
    · have hc : (cursor+align16 (codeLen (resolveAsm asm d (newVa+cursor) r.reconstruct)))%16=
        0 := by
        rw [align16]
        omega
      obtain ⟨h1,h2,h3⟩:=ih hc
      refine ⟨h1,fun hn => absurd hn (List.cons_ne_nil _ _),fun _ => ?_⟩
      dsimp only
      cases hf : (firstPass asm d newVa
          (cursor+align16 (codeLen (resolveAsm asm d (newVa+cursor) r.reconstruct))) rs).1 with
      | nil =>
        rw [h2 hf]
        exact align16_add h _
      | cons g gs =>
        have h3':=h3 (by rw [hf]; exact List.cons_ne_nil g gs)
        rw [hf] at h3'
        rw [← h3',sectionEnd,sectionEnd,List.getLast?_cons_cons]
    · exact ih h

end

/-! ### Which calls reach their own function -/

section
variable {pe : Pe} {results : List VMDevirtualizer} {asm : Assembler} {img : Image}
  (made : ∀ r∈results,∀ info∈r.hookMap,info.Made)
  (built : generateMultiPe pe results asm=some img)
include made built

omit made built in
theorem areaRva_image (hn : (passOf pe results asm n).2=n)
    (hne : (passOf pe results asm n).1.isEmpty=false) :
    (image pe results n (passOf pe results asm n).1).areaRva=areaStart pe n := by
  have hend : (passOf pe results asm n).2%16=0 ∧ _ ∧ _ := firstPass_end results rfl
  have he:=hend.2.2 fun h => by
    rw [passOf] at hne
    rw [h] at hne
    cases hne
  change pe.newRva+align16 (sectionEnd (passOf pe results asm n).1)=pe.newRva+align16 n
  rw [passOf,he,← passOf,hn,align16_eq (hn ▸ hend.1)]

theorem generateMultiPe_spec : ∃ n,(passOf pe results asm n).2=n ∧
    img=image pe results n (passOf pe results asm n).1 ∧ img.areaRva=areaStart pe n := by
  simp only [generateMultiPe] at built
  split at built
  · cases built
  · split at built
    · cases built
    · next hne =>
      have hne' : (passOf pe results asm (estCode results)).1.isEmpty=false :=
        Bool.eq_false_iff.mpr hne
      split at built
      · cases built
      · split at built
        · next hest =>
          cases built
          exact ⟨estCode results,hest,rfl,areaRva_image hest hne'⟩
        · obtain ⟨second,hs,rfl⟩:=Option.map_eq_some_iff.mp built
          have hsecond : passOf pe results asm (passOf pe results asm (estCode results)).2=second :=
            firstPass_of_secondPass hs
          -- the second pass stops where the first did
          have hcongr:=firstPass_congr asm (isKey_iatBySym pe made
            (passOf pe results asm (estCode results)).2) (isKey_iatBySym pe made (estCode results))
            (keys_iatBySym _ _) (pe.ib+pe.newRva) 0 made
          refine ⟨(passOf pe results asm (estCode results)).2,hcongr.1,?_,?_⟩
          · rw [hsecond]
          · rw [← hsecond]
            exact areaRva_image hcongr.1 (hcongr.2.trans hne')

end

/-! ### Two images -/

/-- A function with one call for each entry of its hook map. -/
def oneCallEach (hookMap : HookMap) : VMDevirtualizer where
  hookMap:=hookMap
  sections:=[]
  frameSize:=0
  preVmRegs:=fun _ => 0
  traps:=hookMap.map fun info => ⟨info.hook,false,info.dll,info.func,fun _ => 0,fun _ => 0⟩
  vmExitAddr:=0x140001000

def somePe : Pe := ⟨0x140000000,0x5000,true⟩
def someAssembler : Assembler := ⟨fun _ _ => 6,fun _ => true⟩

def exitProcess : HookInfo :=
  let dll:="kernel32.dll".toList
  let func:="ExitProcess".toList
  ⟨dll,func,0x140003000,0x10000,mangle dll func⟩

/-- Two calls through `rbx`, which is loaded for the first of them. -/
def calledTwice : VMDevirtualizer where
  hookMap:=[exitProcess]
  sections:=[]
  frameSize:=0
  preVmRegs:=fun _ => 0
  traps:=List.replicate 2
    ⟨exitProcess.hook,false,exitProcess.dll,exitProcess.func,
      fun r => if r=.rbx then exitProcess.hook else 0,fun _ => 0⟩
  vmExitAddr:=0x140001000

theorem calledTwice_hooks : ∀ info∈calledTwice.hookMap,info=exitProcess :=
  fun _ hi => List.mem_singleton.mp hi

end Devirt
