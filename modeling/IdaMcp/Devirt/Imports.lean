import IdaMcp.Devirt.Trace
import IdaMcp.Lib.Layout

/-!
# The new import directory

`_build_new_imports` lays out, after the code, for each DLL a table of
addresses and a lookup table, then the names, then the descriptors. The
loader goes from a descriptor to the names in the lookup table and writes the
addresses it finds into the address table, slot by slot.
-/

namespace Devirt
open Lib
variable {o p v i : Nat}

structure Import where
  dll : List Char
  func : List Char
  sym : List Char
  deriving DecidableEq,Repr

variable {imp : Import}

/-- The functions of one DLL. -/
abbrev Group := List Char × List Import

variable {g : Group} {b : Nat × Group}

def byDll (imps : List Import) : List Group :=
  (firsts Import.dll imps).map fun f => (f.dll,imps.filter fun imp => imp.dll=f.dll)

inductive NameCell where
  | dll (name : List Char)
  | hint (dll func : List Char)
  deriving DecidableEq,Repr

variable {c : NameCell}

def padEven (n : Nat) : Nat := n+n%2

/-- Where a name ends: a DLL's name and a zero, or two bytes of hint before a
function's, padded to an even offset. -/
def NameCell.next (o : Nat) : NameCell → Nat
  | .dll name => padEven (o+(name.length+1))
  | .hint _ func => padEven (o+2+(func.length+1))

/-- A table has one qword for each function and a zero at its end. -/
def tableEnd (o : Nat) (g : Group) : Nat := o+8*(g.2.length+1)

def thunks (o : Nat) : List Nat → List (Nat × Nat)
  | [] => [(o,0)]
  | v::vs => (o,v)::thunks (o+8) vs

def slotsOf (o : Nat) : List Import → List (Import × Nat)
  | [] => []
  | imp::imps => (imp,o)::slotsOf (o+8) imps

structure Descriptor where
  originalFirstThunk : Nat
  name : Nat
  firstThunk : Nat

/-- The area as the loader sees it: qwords and names by their offset, and
the descriptors. -/
structure ImportArea where
  slots : List (Nat × Nat)
  names : List (Nat × NameCell)
  descriptors : List Descriptor

section
variable (base : Nat) (imps : List Import)

def iatBlocks : List (Nat × Group) := place tableEnd 0 (byDll imps)
def iltStart : Nat := placeEnd tableEnd 0 (byDll imps)
def iltBlocks : List (Nat × Group) := place tableEnd (iltStart imps) (byDll imps)

def nameCells : List (Nat × NameCell) :=
  place NameCell.next (placeEnd tableEnd (iltStart imps) (byDll imps))
    ((byDll imps).flatMap fun g => .dll g.1::g.2.map fun imp => .hint g.1 imp.func)

/-- The last offset written for a name, and its RVA. -/
def rvaOf (c : NameCell) : Nat :=
  base+(((nameCells imps).reverse.find? fun x => x.2=c).map Prod.fst).getD 0

def startOf (blocks : List (Nat × Group)) (dll : List Char) : Nat :=
  ((blocks.find? fun b => b.2.1=dll).map Prod.fst).getD 0

/-- The hint-name RVAs of a table. -/
def hints (g : Group) : List Nat := g.2.map fun imp => rvaOf base imps (.hint g.1 imp.func)

def buildArea : ImportArea where
  slots:=(iatBlocks imps++iltBlocks imps).flatMap fun b => thunks b.1 (hints base imps b.2)
  names:=nameCells imps
  descriptors:=(byDll imps).map fun g =>
    ⟨base+startOf (iltBlocks imps) g.1,rvaOf base imps (.dll g.1),base+startOf (iatBlocks imps) g.1⟩

/-- Where the slot of each import is, from the start of the area. -/
def iatSlots : List (Import × Nat) := (iatBlocks imps).flatMap fun b => slotsOf b.1 b.2.2

end

theorem byDll_distinct (imps : List Import) :
    (byDll imps).Pairwise fun g h => g.1≠h.1 := by
  rw [byDll,List.pairwise_map]
  exact firsts_distinct Import.dll imps

theorem byDll_inj {imps : List Import} {h : Group} (hg : g∈byDll imps) (hh : h∈byDll imps)
    (he : g.1=h.1) : g=h :=
  List.inj_on_of_nodup_map (List.pairwise_map.mpr (byDll_distinct imps)) hg hh he

theorem mem_byDll {imps : List Import} (hg : g∈byDll imps)
    (hi : imp∈g.2) : imp∈imps ∧ imp.dll=g.1 := by
  obtain ⟨f,-,rfl⟩:=List.mem_map.mp hg
  obtain ⟨h1,h2⟩:=List.mem_filter.mp hi
  exact ⟨h1,of_decide_eq_true h2⟩

theorem tableEnd_grows (o : Nat) (g : Group) : o<tableEnd o g := by
  rw [tableEnd]
  omega

theorem nameCell_grows (o : Nat) (c : NameCell) : o<c.next o := by
  cases c <;> simp only [NameCell.next,padEven] <;> omega

theorem mem_thunks {vs : List Nat} : (p,v)∈thunks o vs ↔ ∃ i,p=o+8*i ∧ (vs++[0])[i]?=some v := by
  induction vs generalizing o with
  | nil =>
    rw [thunks,List.mem_singleton]
    constructor
    · rintro h
      cases h
      exact ⟨0,rfl,rfl⟩
    · rintro ⟨i,rfl,hi⟩
      cases i with
      | zero =>
        cases hi
        rfl
      | succ i => cases hi
  | cons w vs ih =>
    rw [thunks,List.mem_cons,ih]
    constructor
    · rintro (h | ⟨i,rfl,hi⟩)
      · cases h
        exact ⟨0,rfl,rfl⟩
      · exact ⟨i+1,by omega,hi⟩
    · rintro ⟨i,rfl,hi⟩
      cases i with
      | zero =>
        cases hi
        exact .inl rfl
      | succ i => exact .inr ⟨i,by omega,hi⟩

theorem mem_slotsOf {imps : List Import} :
    (imp,p)∈slotsOf o imps ↔ ∃ i,p=o+8*i ∧ imps[i]?=some imp := by
  induction imps generalizing o with
  | nil =>
    constructor
    · intro h
      cases h
    · rintro ⟨i,-,hi⟩
      cases hi
  | cons x imps ih =>
    rw [slotsOf,List.mem_cons,ih]
    constructor
    · rintro (h | ⟨i,rfl,hi⟩)
      · cases h
        exact ⟨0,rfl,rfl⟩
      · exact ⟨i+1,by omega,hi⟩
    · rintro ⟨i,rfl,hi⟩
      cases i with
      | zero =>
        cases hi
        exact .inl rfl
      | succ i => exact .inr ⟨i,by omega,hi⟩

section
variable {base : Nat} {imps : List Import}

theorem blocks_eq : iatBlocks imps++iltBlocks imps=place tableEnd 0 (byDll imps++byDll imps) :=
  (place_append tableEnd 0 (byDll imps) (byDll imps)).symm

theorem rvaOf_spec (base : Nat) (h : ∃ p,(p,c)∈nameCells imps) :
    ∃ p,rvaOf base imps c=base+p ∧ (p,c)∈nameCells imps := by
  obtain ⟨p,hp⟩:=h
  rw [rvaOf]
  cases hf : (nameCells imps).reverse.find? fun x => x.2=c with
  | none =>
    have hn:=List.find?_eq_none.mp hf (p,c) (List.mem_reverse.mpr hp)
    simp at hn
  | some x =>
    have hx:=List.mem_reverse.mp (List.mem_of_find?_eq_some hf)
    have he:=List.find?_some hf
    have hc : x.2=c := of_decide_eq_true he
    exact ⟨x.1,rfl,hc ▸ hx⟩

theorem dll_named (hg : g∈byDll imps) : ∃ p,(p,.dll g.1)∈nameCells imps := by
  apply exists_mem_place
  exact List.mem_flatMap.mpr ⟨g,hg,List.mem_cons_self⟩

theorem hint_named (hg : g∈byDll imps) (hi : imp∈g.2) :
    ∃ p,(p,.hint g.1 imp.func)∈nameCells imps := by
  apply exists_mem_place
  refine List.mem_flatMap.mpr ⟨g,hg,List.mem_cons_of_mem _ ?_⟩
  exact List.mem_map.mpr ⟨imp,hi,rfl⟩

theorem name_pos (h : (p,c)∈nameCells imps) : 0<p := by
  have hle:=le_of_mem_place (fun o c => nameCell_grows o c) h
  have hc:=mem_of_mem_place h
  obtain ⟨g,hg,-⟩:=List.mem_flatMap.mp hc
  obtain ⟨g',gs,he⟩:=List.exists_cons_of_ne_nil (List.ne_nil_of_mem hg)
  have h1 : iltStart imps<placeEnd tableEnd (iltStart imps) (byDll imps) := by
    rw [he]
    exact Nat.lt_of_lt_of_le (tableEnd_grows _ g') (le_placeEnd tableEnd_grows _ gs)
  omega

theorem startOf_spec {blocks : List (Nat × Group)} (hb : blocks=place tableEnd o (byDll imps))
    (hg : g∈byDll imps) : (startOf blocks g.1,g)∈blocks := by
  obtain ⟨p,hp⟩:=exists_mem_place tableEnd o hg
  rw [← hb] at hp
  rw [startOf]
  cases hf : blocks.find? fun b => b.2.1=g.1 with
  | none =>
    have hn:=List.find?_eq_none.mp hf (p,g) hp
    simp at hn
  | some b =>
    have hm:=List.mem_of_find?_eq_some hf
    have he:=List.find?_some hf
    have hd : b.2.1=g.1 := of_decide_eq_true he
    have hbg : b.2∈byDll imps := by
      rw [hb] at hm
      exact mem_of_mem_place (p := b.1) hm
    have heq:=byDll_inj hbg hg hd
    rw [← heq]
    exact hm

theorem startOf_iat (hg : g∈byDll imps) :
    (startOf (iatBlocks imps) g.1,g)∈iatBlocks imps++iltBlocks imps :=
  List.mem_append_left _ (startOf_spec rfl hg)

theorem startOf_ilt (hg : g∈byDll imps) :
    (startOf (iltBlocks imps) g.1,g)∈iatBlocks imps++iltBlocks imps :=
  List.mem_append_right _ (startOf_spec rfl hg)

end

section
variable {base : Nat} {imps : List Import}

theorem hint_at (hi : g.2[i]?=some imp) :
    (hints base imps g++[0])[i]?=some (rvaOf base imps (.hint g.1 imp.func)) := by
  obtain ⟨hl,-⟩:=List.getElem?_eq_some_iff.mp hi
  rw [List.getElem?_append_left (by rw [hints,List.length_map]; exact hl),hints,
    List.getElem?_map,hi]
  rfl

theorem slot_mem (hb : b∈iatBlocks imps++iltBlocks imps) (hi : b.2.2[i]?=some imp) :
    (b.1+8*i,rvaOf base imps (.hint b.2.1 imp.func))∈(buildArea base imps).slots :=
  List.mem_flatMap.mpr ⟨b,hb,mem_thunks.mpr ⟨i,rfl,hint_at hi⟩⟩

theorem end_mem (base : Nat) (hb : b∈iatBlocks imps++iltBlocks imps) :
    (b.1+8*b.2.2.length,0)∈(buildArea base imps).slots := by
  refine List.mem_flatMap.mpr ⟨b,hb,mem_thunks.mpr ⟨b.2.2.length,rfl,?_⟩⟩
  have hl : (hints base imps b.2).length=b.2.2.length := List.length_map _
  rw [List.getElem?_append_right (Nat.le_of_eq hl),hl,Nat.sub_self]
  rfl

theorem mem_of_slot (h : (imp,o)∈iatSlots imps) : imp∈imps := by
  obtain ⟨b,hb,hs⟩:=List.mem_flatMap.mp h
  obtain ⟨i,-,hi⟩:=mem_slotsOf.mp hs
  exact (mem_byDll (mem_of_mem_place (p := b.1) hb) (List.mem_of_getElem? hi)).1

end
end Devirt
