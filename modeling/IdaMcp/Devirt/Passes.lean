import IdaMcp.Devirt.Image

/-!
# What the two passes make of a rejected function

The first pass of `_generate_multi_pe` goes on after a function that does not
assemble; the second, which runs when the code is not as long as it was
estimated, does not catch the error.
-/

namespace Devirt
open Lib

/-- Whether the assembler takes the code of a result, put at the start of the
section. -/
def accepts (pe : Pe) (results : List VMDevirtualizer) (asm : Assembler) (r : VMDevirtualizer) :
    Bool :=
  assembles asm
    (resolveAsm asm (iatBySym pe results (estCode results)) (pe.ib+pe.newRva) r.reconstruct)

/-- The lengths, padded to 16, of the code of results that are put one behind
another. -/
def paddedLens (asm : Assembler) (va : Nat) : List VMDevirtualizer → List Nat
  | [] => []
  | r::rs =>
    let len:=align16 (linesLen asm va r.reconstruct)
    len::paddedLens asm (va+len) rs

/-- All names are ones that `encode("ascii")` takes. -/
def asciiNames (results : List VMDevirtualizer) : Bool :=
  (newImports results).all fun imp => (imp.dll++imp.func).all fun c => c.toNat ≤ 127

section
variable (asm : Assembler) {d : IatBySym} (hd : ∀ e∈d,IsKey e.1)
include hd

variable (newVa : Nat)

theorem firstPass_cursor (cursor : Nat) {rs : List VMDevirtualizer}
    (made : ∀ r∈rs,∀ info∈r.hookMap,info.Made) :
    (firstPass asm d newVa cursor rs).2=cursor+(paddedLens asm (newVa+cursor)
      (rs.filter fun r => r.reconstruct.all (takes asm d))).sum := by
  induction rs generalizing cursor with
  | nil => rfl
  | cons r rs ih =>
    have htail:=fun c => ih c fun x hx => made x (List.mem_cons_of_mem r hx)
    simp only [firstPass]
    rw [assembles_reconstruct asm hd (made r List.mem_cons_self),List.filter_cons]
    split
    · rw [htail,codeLen_resolveAsm,paddedLens,List.sum_cons,Nat.add_assoc,Nat.add_assoc]
    · exact htail cursor

theorem firstPass_sources (cursor : Nat) {rs : List VMDevirtualizer}
    (made : ∀ r∈rs,∀ info∈r.hookMap,info.Made) :
    (firstPass asm d newVa cursor rs).1.map Func.source=
      rs.filter fun r => r.reconstruct.all (takes asm d) := by
  induction rs generalizing cursor with
  | nil => rfl
  | cons r rs ih =>
    have htail:=fun c => ih c fun x hx => made x (List.mem_cons_of_mem r hx)
    simp only [firstPass]
    rw [assembles_reconstruct asm hd (made r List.mem_cons_self),List.filter_cons]
    split
    · rw [List.map_cons,htail]
    · exact htail cursor

theorem secondPass_eq (cursor : Nat) {rs : List VMDevirtualizer}
    (made : ∀ r∈rs,∀ info∈r.hookMap,info.Made) :
    secondPass asm d newVa cursor rs=
      if rs.all (fun r => r.reconstruct.all (takes asm d)) then
        some (firstPass asm d newVa cursor rs) else none := by
  induction rs generalizing cursor with
  | nil => rfl
  | cons r rs ih =>
    simp only [secondPass,firstPass]
    rw [assembles_reconstruct asm hd (made r List.mem_cons_self),List.all_cons,
      ih _ fun x hx => made x (List.mem_cons_of_mem r hx)]
    cases r.reconstruct.all (takes asm d) with
    | false => rfl
    | true => cases rs.all fun r => r.reconstruct.all (takes asm d) <;> rfl

end

theorem estCode_eq (results : List VMDevirtualizer) :
    estCode results=10*(results.map fun r => r.reconstruct.length).sum := by
  induction results with
  | nil => rfl
  | cons r rs ih =>
    rw [estCode] at ih ⊢
    rw [List.map_cons,List.sum_cons,ih,List.map_cons,List.sum_cons,Nat.mul_add]
    omega

section
variable {pe : Pe} {results : List VMDevirtualizer} {asm : Assembler}
  (made : ∀ r∈results,∀ info∈r.hookMap,info.Made)
include made

theorem accepts_eq (n : Nat) {r : VMDevirtualizer} (hr : r∈results) :
    accepts pe results asm r=r.reconstruct.all (takes asm (iatBySym pe results n)) := by
  rw [accepts,assembles_reconstruct asm (isKey_iatBySym pe made _) (made r hr),
    takes_congr asm (keys_iatBySym (estCode results) n)]

variable (pe asm) in
theorem passOf_cursor (n : Nat) :
    (passOf pe results asm n).2=
      (paddedLens asm (pe.ib+pe.newRva) (results.filter (accepts pe results asm))).sum := by
  rw [passOf,firstPass_cursor asm (isKey_iatBySym pe made n) _ _ made,Nat.zero_add,Nat.add_zero]
  congr 2
  exact List.filter_congr fun r hr => (accepts_eq made n hr).symm

variable (pe asm) in
theorem passOf_sources (n : Nat) :
    (passOf pe results asm n).1.map Func.source=results.filter (accepts pe results asm) := by
  rw [passOf,firstPass_sources asm (isKey_iatBySym pe made n) _ _ made]
  exact List.filter_congr fun r hr => (accepts_eq made n hr).symm

theorem secondPass_accepts (n : Nat) :
    secondPass asm (iatBySym pe results n) (pe.ib+pe.newRva) 0 results=
      if results.all (accepts pe results asm) then some (passOf pe results asm n) else none := by
  have hall : results.all (accepts pe results asm)=
      results.all fun r => r.reconstruct.all (takes asm (iatBySym pe results n)) := by
    rw [Bool.eq_iff_iff,List.all_eq_true,List.all_eq_true]
    exact forall₂_congr fun r hr => by rw [accepts_eq made n hr]
  rw [secondPass_eq asm (isKey_iatBySym pe made n) _ _ made,hall]
  rfl

theorem generateMultiPe_eq (taken : ∃ r∈results,accepts pe results asm r=true)
    (room : pe.headerSpace=true) :
    generateMultiPe pe results asm=
      if asciiNames results=false then none
      else if (passOf pe results asm (estCode results)).2=estCode results then
        some (image pe results (estCode results) (passOf pe results asm (estCode results)).1)
      else (secondPass asm (iatBySym pe results (passOf pe results asm (estCode results)).2)
        (pe.ib+pe.newRva) 0 results).map fun second =>
          image pe results (passOf pe results asm (estCode results)).2 second.1 := by
  have hsrc:=passOf_sources pe asm made (estCode results)
  have hne : (passOf pe results asm (estCode results)).1.isEmpty=false := by
    obtain ⟨r,hr,ht⟩:=taken
    cases hp : (passOf pe results asm (estCode results)).1 with
    | nil =>
      rw [hp] at hsrc
      have hm:=List.mem_filter.mpr ⟨hr,ht⟩
      rw [← hsrc] at hm
      cases hm
    | cons f fs => rfl
  have hascii : ((newImports results).any fun imp => (imp.dll++imp.func).any fun c => 127<c.toNat)=
      !asciiNames results := by
    simp only [asciiNames,List.all_eq_not_any_not,Bool.not_not]
    simp only [← decide_not,Nat.not_le]
  rw [generateMultiPe,hascii]
  dsimp only
  rw [hne,room,if_neg (by decide : ¬false=true),if_neg (by decide : ¬true=false)]
  cases asciiNames results <;> rfl

/-- With a function that does not assemble, the image with the others is built
exactly when the names can be encoded and the padded code of the functions that
are left is ten bytes long for each line of all functions. -/
theorem kept_iff (rejected : ∃ r∈results,accepts pe results asm r=false)
    (taken : ∃ r∈results,accepts pe results asm r=true) (room : pe.headerSpace=true) :
    (∃ img,generateMultiPe pe results asm=some img ∧
        img.funcs.map Func.source=results.filter (accepts pe results asm)) ↔
      asciiNames results=true ∧
        (paddedLens asm (pe.ib+pe.newRva) (results.filter (accepts pe results asm))).sum=
          10*(results.map fun r => r.reconstruct.length).sum := by
  rw [generateMultiPe_eq made taken room,← passOf_cursor pe asm made (estCode results),
    ← estCode_eq]
  cases asciiNames results with
  | false =>
    refine iff_of_false ?_ fun h => by cases h.1
    rintro ⟨img,hi,-⟩
    cases hi
  | true =>
    rw [if_neg (by decide)]
    by_cases he : (passOf pe results asm (estCode results)).2=estCode results
    · rw [if_pos he]
      exact iff_of_true ⟨_,rfl,passOf_sources pe asm made (estCode results)⟩ ⟨rfl,he⟩
    · refine iff_of_false ?_ fun h => he h.2
      rintro ⟨img,hi,-⟩
      obtain ⟨r,hr,hf⟩:=rejected
      have hall : results.all (accepts pe results asm)=false :=
        List.all_eq_false.mpr ⟨r,hr,by rw [hf]; decide⟩
      rw [if_neg he,secondPass_accepts made,hall] at hi
      cases hi

end

theorem firstPass_placed (asm : Assembler) (d : IatBySym) (newVa cursor : Nat)
    (rs : List VMDevirtualizer) :
    cursor ≤ (firstPass asm d newVa cursor rs).2 ∧
      ((firstPass asm d newVa cursor rs).1.Pairwise fun f g => f.offset+codeLen f.code ≤ g.offset) ∧
      ∀ f∈(firstPass asm d newVa cursor rs).1,cursor ≤ f.offset ∧
        f.offset+codeLen f.code ≤ (firstPass asm d newVa cursor rs).2 ∧
        f.code=resolveAsm asm d (newVa+f.offset) f.source.reconstruct := by
  induction rs generalizing cursor with
  | nil => exact ⟨Nat.le_refl _,.nil,fun f hf => by cases hf⟩
  | cons r rs ih =>
    simp only [firstPass]
    split
    · have ha : ∀ n,n ≤ align16 n := fun n => by rw [align16]; omega
      have hn:=ha (codeLen (resolveAsm asm d (newVa+cursor) r.reconstruct))
      obtain ⟨hle,hp,hall⟩:=
        ih (cursor+align16 (codeLen (resolveAsm asm d (newVa+cursor) r.reconstruct)))
      refine ⟨by omega,.cons (fun f hf => ?_) hp,fun f hf => ?_⟩
      · have h:=(hall f hf).1
        dsimp only
        omega
      · rcases List.mem_cons.mp hf with rfl | hf
        · exact ⟨Nat.le_refl _,by dsimp only; omega,rfl⟩
        · obtain ⟨h1,h2⟩:=hall f hf
          exact ⟨by omega,h2⟩
    · exact ih cursor

/-- In an image the functions do not overlap one another nor the import area,
and each is assembled for the address where it is, with the slots of the area
where the area is. -/
theorem image_placed {pe : Pe} {results : List VMDevirtualizer} {asm : Assembler} {img : Image}
    (made : ∀ r∈results,∀ info∈r.hookMap,info.Made)
    (built : generateMultiPe pe results asm=some img) :
    (img.funcs.Pairwise fun f g => f.offset+codeLen f.code ≤ g.offset) ∧
      ∃ n,img.areaRva=areaStart pe n ∧ ∀ f∈img.funcs,
        pe.newRva+(f.offset+codeLen f.code) ≤ img.areaRva ∧
        f.code=resolveAsm asm (iatBySym pe results n) (pe.ib+pe.newRva+f.offset)
          f.source.reconstruct := by
  obtain ⟨n,hn,himg,hrva⟩:=generateMultiPe_spec made built
  obtain ⟨-,hp,hall⟩:=firstPass_placed asm (iatBySym pe results n) (pe.ib+pe.newRva) 0 results
  rw [← passOf] at hp hall
  rw [hrva,himg]
  refine ⟨hp,n,rfl,fun f hf => ?_⟩
  obtain ⟨-,h2,h3⟩:=hall f hf
  rw [areaStart,align16]
  exact ⟨by omega,h3⟩

/-- Two functions, with two calls and with one. -/
def known : List VMDevirtualizer := [calledTwice,oneCallEach [exitProcess]]

theorem known_made : ∀ r∈known,∀ info∈r.hookMap,info.Made := by
  intro r hr info hi
  have he : info=exitProcess := by
    rcases List.mem_cons.mp hr with rfl | hr
    · exact calledTwice_hooks info hi
    · rw [List.mem_singleton.mp hr] at hi
      exact List.mem_singleton.mp hi
  rw [he]
  exact .inl rfl

theorem image_placed_known : ∃ img,generateMultiPe somePe known someAssembler=some img ∧
    img.funcs.map Func.offset=[0,80] ∧
    (img.funcs.Pairwise fun f g => f.offset+codeLen f.code ≤ g.offset) ∧
      ∃ n,img.areaRva=areaStart somePe n ∧ ∀ f∈img.funcs,
        somePe.newRva+(f.offset+codeLen f.code) ≤ img.areaRva ∧
        f.code=resolveAsm someAssembler (iatBySym somePe known n)
          (somePe.ib+somePe.newRva+f.offset) f.source.reconstruct := by
  have hb : (generateMultiPe somePe known someAssembler).map (fun img => img.funcs.map Func.offset)=
      some [0,80] := by decide +kernel
  obtain ⟨img,built,hoff⟩:=Option.map_eq_some_iff.mp hb
  exact ⟨img,built,hoff,image_placed known_made built⟩

/- `_on_dark_call` records it, and its line names no slot. -/
def darkCall : VMDevirtualizer where
  hookMap:=[]
  sections:=[]
  frameSize:=0
  preVmRegs:=fun _ => 0
  traps:=[⟨0x150000000,true,['?'],"dark_0".toList,fun _ => 0,fun _ => 0⟩]
  vmExitAddr:=0x140002000

def knownAndDark : List VMDevirtualizer := [oneCallEach [exitProcess],darkCall]

/-- The call of `ExitProcess` assembles and is lost with the other. -/
theorem knownAndDark_lost :
    knownAndDark.map (accepts somePe knownAndDark someAssembler)=[true,false] ∧
      somePe.headerSpace=true ∧
        (generateMultiPe somePe knownAndDark someAssembler).isNone=true := by
  decide +kernel

/-- Eight functions of two lines each; what is left of them takes 160 bytes. -/
def fiveAndThree : List VMDevirtualizer :=
  List.replicate 5 (oneCallEach [exitProcess])++List.replicate 3 darkCall

def wideAssembler : Assembler := ⟨fun _ _ => 15,fun _ => true⟩

theorem kept_iff_wide : ∃ img,generateMultiPe somePe fiveAndThree wideAssembler=some img ∧
    img.funcs.map Func.source=fiveAndThree.filter (accepts somePe fiveAndThree wideAssembler) := by
  have made : ∀ r∈fiveAndThree,∀ info∈r.hookMap,info.Made := by
    intro r hr info hi
    rcases List.mem_append.mp hr with hr | hr <;> rw [List.eq_of_mem_replicate hr] at hi
    · rw [List.mem_singleton.mp hi]
      exact .inl rfl
    · cases hi
  have hacc : [oneCallEach [exitProcess],darkCall].map
      (accepts somePe fiveAndThree wideAssembler)=[true,false] := by
    decide +kernel
  obtain ⟨h1,h2⟩:=List.cons.inj hacc
  refine (kept_iff made ⟨darkCall,?_,(List.cons.inj h2).1⟩ ⟨_,List.mem_cons_self,h1⟩ rfl).mpr ?_
  · exact List.mem_append_right _ List.mem_cons_self
  · decide +kernel

end Devirt
