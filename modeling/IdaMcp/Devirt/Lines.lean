import IdaMcp.Devirt.Trace
import IdaMcp.Lib.Hex
import IdaMcp.Lib.Replace
import IdaMcp.Lib.Text
import Mathlib.Data.List.Infix

/-!
# Placeholders in assembly text

`_reconstruct` writes lines of text in which an import is named by a
placeholder, and `_resolve_asm` replaces the placeholders, one name after
another, by addresses relative to `rip`.
-/

namespace Devirt
open Lib
variable {t x ds op : List Char}

def hex (n : Nat) : List Char := Nat.toDigits 16 n

def Reg.name32 : Reg → List Char
  | .rax => "eax".toList | .rbx => "ebx".toList | .rcx => "ecx".toList | .rdx => "edx".toList
  | .rsi => "esi".toList | .rdi => "edi".toList | .rbp => "ebp".toList | .rsp => "rsp".toList
  | .r8 => "r8d".toList | .r9 => "r9d".toList | .r10 => "r10d".toList | .r11 => "r11d".toList
  | .r12 => "r12d".toList | .r13 => "r13d".toList | .r14 => "r14d".toList | .r15 => "r15d".toList

/-- `__iat_` + `sym` + `__` -/
def placeholder (sym : List Char) : List Char := ['_','_','i','a','t','_']++sym++['_','_']

/-- The text before the operand of a load. -/
def loadOpen (dst : Reg) : List Char := "mov ".toList++dst.name++", qword ptr ".toList
def callOpen : List Char := "call qword ptr ".toList

/-- The start of an address that `rip` is added to, and of a name for data. -/
def ripPlus : List Char := ['r','i','p',' ','+',' ','0','x']
def ripMinus : List Char := ['r','i','p',' ','-',' ','0','x']
def dataOpen : List Char := ['_','_','d','a','t','a','_','0','x']

def Insn.text : Insn → List Char
  | .movReg dst src => "mov ".toList++dst.name++", ".toList++src.name
  | .movIat dst info => loadOpen dst++ '['::(placeholder info.sym++[']'])
  | .leaRsp dst off => "lea ".toList++dst.name++", [rsp + 0x".toList++hex off.toNat++[']']
  | .leaData dst addr => "lea ".toList++dst.name++", [__data_0x".toList++hex addr.toNat++
      "__]".toList
  | .mov32 dst imm => "mov ".toList++dst.name32++", 0x".toList++hex imm.toNat
  | .mov64 dst imm => "mov ".toList++dst.name++", 0x".toList++hex imm.toNat
  | .storeDword off imm => "mov dword ptr [rsp + 0x".toList++hex off++"], 0x".toList++hex imm
  | .storeQword off imm => "mov qword ptr [rsp + 0x".toList++hex off++"], 0x".toList++hex imm

def Line.text : Line → List Char
  | .insn i => i.text
  | .call (.via r) => "call ".toList++r.name
  | .call (.iat sym) => callOpen++ '['::(placeholder sym++[']'])
  | .jmp addr => "jmp 0x".toList++hex addr

/-- The import that a line names. -/
def Line.iatSym : Line → Option (List Char)
  | .insn (.movIat _ info) => some info.sym
  | .call (.iat sym) => some sym
  | _ => none

def ripText (target va sz : Nat) : List Char :=
  let d:=(target : Int)-(va+sz : Nat)
  if d<0 then ripMinus++hex (-d).toNat else ripPlus++hex d.toNat

def isHexDigit (c : Char) : Bool := (digitOf 16 c).isSome

/-- A match of `__data_(0x[0-9a-fA-F]+)__` at the start of the text. -/
def matchData (cs : List Char) : Option (List Char) :=
  let ds:=(cs.drop 9).takeWhile isHexDigit
  if dataOpen.isPrefixOf cs && !ds.isEmpty &&
      ['_','_'].isPrefixOf ((cs.drop 9).dropWhile isHexDigit) then some ds else none

def findData : List Char → Option (List Char)
  | [] => none
  | c::cs => (matchData (c::cs)).or (findData cs)

def dataKey (ds : List Char) : List Char := dataOpen++ds++['_','_']

/-- The placeholders with their addresses, in the order of the dict. -/
abbrev IatBySym := List (List Char × Nat)

def substAll (iatBySym : IatBySym) (va sz : Nat) (out : List Char) : List Char :=
  iatBySym.foldl (fun out e => replaceAll e.1 (ripText e.2 va sz) out) out

def substData (va sz : Nat) (out : List Char) : List Char :=
  match findData out with
  | some ds => replaceAll (dataKey ds) (ripText (ofDigits 16 (ds.filterMap (digitOf 16))) va sz) out
  | none => out

def resolveLine (iatBySym : IatBySym) (va sz : Nat) (ln : List Char) : List Char :=
  substData va sz (substAll iatBySym va sz ln)

/-- The memory operand of a line. -/
def operand (out : List Char) : List Char :=
  ((out.dropWhile (·≠ '[')).drop 1).takeWhile (·≠ ']')

/-- The address of a `rip`-relative operand; any other text with a name in it
is refused by the assembler. -/
def ripOperand (va sz : Nat) (x : List Char) : Option Int :=
  if (x.drop 8).isEmpty || !(x.drop 8).all isHexDigit then none
  else if x.take 8=ripPlus then some ((va+sz : Nat)+hexValue (x.drop 8))
  else if x.take 8=ripMinus then some ((va+sz : Nat)-hexValue (x.drop 8))
  else none

/-- A name that stands for an address: it starts and ends with an underscore
and has neither a blank nor a bracket in it. -/
structure IsKey (k : List Char) : Prop where
  head : ∃ cs,k= '_'::cs
  last : ∃ cs,k=cs++['_']
  blank : ' '∉k
  bracket : ']'∉k

def IsRip (t : List Char) : Prop :=
  ∃ n,t=ripPlus++hex n ∨ t=ripMinus++hex n

/-- A character that no address has after its sign. -/
def Marked (x : List Char) : Prop := '_'∈x ∨ ' '∈x

/-- A text in which the wrong name was replaced. -/
def Spoiled (x : List Char) : Prop :=
  (∃ cs,x= '_'::cs ∧ ' '∈cs) ∨ ∃ t y,x=t++y ∧ IsRip t ∧ Marked y

theorem isRip_ripText (target va sz : Nat) : IsRip (ripText target va sz) := by
  simp only [ripText]
  split
  · exact ⟨_,.inr rfl⟩
  · exact ⟨_,.inl rfl⟩

theorem not_mem_hex {c : Char} (h : ∀ d < 16,c≠Nat.digitChar d) (n : Nat) : c∉hex n :=
  not_mem_toDigits h n

theorem IsRip.clean (h : IsRip t) : '_'∉t := by
  obtain ⟨n,rfl | rfl⟩:=h
  all_goals
    have hn:=not_mem_hex (c := '_') (by decide) n
    simp [ripPlus,ripMinus,hn]

theorem IsRip.blank (h : IsRip t) : ' '∈t := by
  obtain ⟨n,rfl | rfl⟩:=h
  all_goals exact List.mem_append_left _ (by decide)

theorem IsKey.ne_nil {k : List Char} (h : IsKey k) : k≠[] := by
  obtain ⟨cs,rfl⟩:=h.head
  exact List.cons_ne_nil _ _

theorem replaceAll_rip {k : List Char} (hk : IsKey k) (rep : List Char) (ht : IsRip t)
    (y : List Char) : replaceAll k rep (t++y)=t++replaceAll k rep y := by
  obtain ⟨cs,rfl⟩:=hk.head
  exact replaceAll_before rep t y ht.clean

section
variable {k rep : List Char} (hk : IsKey k) (hr : IsRip rep)
include hk hr

theorem marked_replaceAll (h : Marked x) : Marked (replaceAll k rep x) := by
  by_cases hi : k <:+: x
  · exact .inr (rep_mem_replaceAll rep hk.ne_nil hr.blank hi)
  · rwa [replaceAll_absent rep hk.ne_nil x hi]

theorem spoiled_inside {p : List Char} (hp : IsKey p) (hne : k≠p) (hi : k <:+: p) :
    Spoiled (replaceAll k rep p) := by
  by_cases hpre : k <+: p
  · obtain ⟨y,rfl⟩:=hpre
    rw [replaceAll_hit rep hk.ne_nil]
    have hy : y≠[] := by
      rintro rfl
      exact hne (List.append_nil k).symm
    have hm : '_'∈y := by
      obtain ⟨cs,hcs⟩:=hp.last
      obtain ⟨zs,z,rfl⟩:=(List.eq_nil_or_concat' y).resolve_left hy
      rw [← List.append_assoc] at hcs
      have hz:=(List.append_inj' hcs rfl).2
      rw [List.cons.inj hz |>.1]
      exact List.mem_append_right _ List.mem_cons_self
    exact .inr ⟨rep,_,rfl,hr,marked_replaceAll hk hr (.inl hm)⟩
  · obtain ⟨cs,rfl⟩:=hp.head
    rw [replaceAll_miss rep hpre]
    refine .inl ⟨_,rfl,rep_mem_replaceAll rep hk.ne_nil hr.blank ?_⟩
    exact (List.infix_cons_iff.mp hi).resolve_left hpre

theorem spoiled_replaceAll (h : Spoiled x) : Spoiled (replaceAll k rep x) := by
  rcases h with ⟨cs,rfl,hb⟩ | ⟨t,y,rfl,ht,hm⟩
  · by_cases hpre : k <+: '_'::cs
    · obtain ⟨y,hy⟩:=hpre
      rw [← hy,replaceAll_hit rep hk.ne_nil]
      have hb' : ' '∈k++y := hy ▸ List.mem_cons_of_mem _ hb
      have hby : ' '∈y := (List.mem_append.mp hb').resolve_left hk.blank
      exact .inr ⟨rep,_,rfl,hr,marked_replaceAll hk hr (.inr hby)⟩
    · rw [replaceAll_miss rep hpre]
      exact .inl ⟨_,rfl,mem_replaceAll rep hk.ne_nil hk.blank hb⟩
  · rw [replaceAll_rip hk rep ht]
    exact .inr ⟨t,_,rfl,ht,marked_replaceAll hk hr hm⟩

end

theorem isHexDigit_hex (n : Nat) : (hex n).all isHexDigit=true := by
  rw [List.all_eq_true]
  intro c hc
  obtain ⟨d,hd,rfl⟩:=mem_toDigits hc
  clear hc
  revert d
  decide

theorem hex_ne_nil (n : Nat) : hex n≠[] := by
  intro h
  have hv:=hexValue_toDigits n
  rw [hex] at h
  cases n with
  | zero => exact absurd h (by decide)
  | succ n =>
    rw [h] at hv
    cases hv

theorem ripOperand_ripText (target va sz : Nat) :
    ripOperand va sz (ripText target va sz)=some (target : Int) := by
  have hall:=isHexDigit_hex
  have hemp : ∀ n,(hex n).isEmpty=false := fun n => by
    rw [List.isEmpty_eq_false_iff]
    exact hex_ne_nil n
  simp only [ripText]
  split
  · next hd =>
    have hdrop : (ripMinus++hex (-((target : Int)-(va+sz : Nat))).toNat).drop 8=
        hex (-((target : Int)-(va+sz : Nat))).toNat := rfl
    have htake : (ripMinus++hex (-((target : Int)-(va+sz : Nat))).toNat).take 8=
        ripMinus := rfl
    rw [ripOperand,hdrop,htake,hemp,hall,if_neg (by decide),if_neg (by decide),if_pos rfl,hex,
      hexValue_toDigits]
    congr 1
    omega
  · next hd =>
    have hdrop : (ripPlus++hex ((target : Int)-(va+sz : Nat)).toNat).drop 8=
        hex ((target : Int)-(va+sz : Nat)).toNat := rfl
    have htake : (ripPlus++hex ((target : Int)-(va+sz : Nat)).toNat).take 8=
        ripPlus := rfl
    rw [ripOperand,hdrop,htake,hemp,hall,if_neg (by decide),if_pos rfl,hex,hexValue_toDigits]
    congr 1
    omega

theorem ripOperand_head {va sz : Nat} (cs : List Char) : ripOperand va sz ('_'::cs)=none := by
  have hne : ∀ t : List Char,('_'::cs).take 8= 'r'::t → False := by
    intro t ht
    rw [List.take_succ_cons] at ht
    exact absurd (List.cons.inj ht).1 (by decide)
  rw [ripOperand]
  split
  · rfl
  · have hplus : ('_'::cs).take 8≠ripPlus := fun h => hne _ h
    have hminus : ('_'::cs).take 8≠ripMinus := fun h => hne _ h
    rw [if_neg hplus,if_neg hminus]

theorem ripOperand_spoiled {va sz : Nat} (h : Spoiled x) : ripOperand va sz x=none := by
  rcases h with ⟨cs,rfl,-⟩ | ⟨t,y,rfl,ht,hm⟩
  · exact ripOperand_head cs
  · have hlen : 8 ≤ t.length := by
      obtain ⟨n,rfl | rfl⟩:=ht
      all_goals
        rw [List.length_append]
        exact Nat.le_add_right 8 _
    have hdrop : (t++y).drop 8=t.drop 8++y := List.drop_append_of_le_length hlen
    have hbad : ((t++y).drop 8).all isHexDigit=false := by
      rw [hdrop,List.all_append]
      have hy : y.all isHexDigit=false := by
        rw [List.all_eq_false]
        rcases hm with hm | hm
        · exact ⟨_,hm,by decide⟩
        · exact ⟨_,hm,by decide⟩
      rw [hy,Bool.and_false]
    rw [ripOperand,hbad,if_pos (by simp)]

/-- The first name of the dict that is found in the text. -/
def firstName (d : IatBySym) (p : List Char) : Option (List Char × Nat) :=
  d.find? fun e => e.1 <:+: p

theorem firstName_cons (e : List Char × Nat) (d : IatBySym) (p : List Char) :
    firstName (e::d) p=if e.1 <:+: p then some e else firstName d p := by
  rw [firstName,List.find?_cons]
  by_cases h : e.1 <:+: p
  · rw [decide_eq_true h,if_pos h]
  · rw [decide_eq_false h,if_neg h]
    rfl

section
variable (va sz : Nat)

theorem substAll_cons (e : List Char × Nat) (d : IatBySym) (x : List Char) :
    substAll (e::d) va sz x=substAll d va sz (replaceAll e.1 (ripText e.2 va sz) x) := rfl

variable {d : IatBySym} (hd : ∀ e ∈ d,IsKey e.1)
include hd

theorem substAll_spoiled (h : Spoiled x) : Spoiled (substAll d va sz x) := by
  induction d generalizing x with
  | nil => exact h
  | cons e d ih =>
    have he:=hd e List.mem_cons_self
    rw [substAll_cons]
    exact ih (fun e' he' => hd e' (List.mem_cons_of_mem e he'))
      (spoiled_replaceAll he (isRip_ripText _ _ _) h)

theorem substAll_rip (ht : IsRip t) : substAll d va sz t=t := by
  induction d with
  | nil => rfl
  | cons e d ih =>
    have hs:=replaceAll_rip (hd e List.mem_cons_self) (ripText e.2 va sz) ht []
    rw [List.append_nil] at hs
    rw [substAll_cons,hs]
    refine (congrArg _ ?_).trans (ih fun e' he' => hd e' (List.mem_cons_of_mem e he'))
    exact List.append_nil t

theorem substAll_key {p : List Char} (hp : IsKey p) :
    (∀ e,firstName d p=some e →
      (e.1=p → substAll d va sz p=ripText e.2 va sz) ∧ (e.1≠p → Spoiled (substAll d va sz p))) ∧
    (firstName d p=none → substAll d va sz p=p) := by
  induction d with
  | nil =>
    constructor
    · intro e h
      cases h
    · exact fun _ => rfl
  | cons e d ih =>
    have hek:=hd e List.mem_cons_self
    have hdk : ∀ e' ∈ d,IsKey e'.1 := fun e' he' => hd e' (List.mem_cons_of_mem e he')
    rw [substAll_cons]
    by_cases hi : e.1 <:+: p
    · rw [firstName_cons,if_pos hi]
      constructor
      · intro e' he'
        cases he'
        constructor
        · intro hep
          have hall:=replaceAll_hit (ripText e.2 va sz) hek.ne_nil []
          rw [List.append_nil] at hall
          rw [← hep,hall]
          refine (congrArg _ ?_).trans (substAll_rip va sz hdk (isRip_ripText e.2 va sz))
          exact List.append_nil _
        · intro hne
          exact substAll_spoiled va sz hdk (spoiled_inside hek (isRip_ripText _ _ _) hp hne hi)
      · intro h
        cases h
    · rw [firstName_cons,if_neg hi,replaceAll_absent _ hek.ne_nil p hi]
      exact ih hdk

end

theorem matchData_spec {cs : List Char} (h : matchData cs=some ds) :
    dataKey ds <+: cs ∧ ∀ c∈ds,isHexDigit c=true := by
  simp only [matchData] at h
  split at h
  · next hc =>
    cases h
    simp only [Bool.and_eq_true] at hc
    obtain ⟨⟨h1,-⟩,h3⟩:=hc
    obtain ⟨rest,hrest⟩:=List.isPrefixOf_iff_prefix.mp h1
    have hdrop : cs.drop 9=rest := by
      rw [← hrest]
      rfl
    rw [hdrop] at h3 ⊢
    obtain ⟨tail,htail⟩:=List.isPrefixOf_iff_prefix.mp h3
    constructor
    · refine ⟨tail,?_⟩
      rw [dataKey,List.append_assoc,List.append_assoc,htail,List.takeWhile_append_dropWhile,hrest]
    · intro c hc
      exact List.mem_takeWhile_imp hc
  · cases h

theorem findData_spec {cs : List Char} (h : findData cs=some ds) :
    dataKey ds <:+: cs ∧ ∀ c∈ds,isHexDigit c=true := by
  induction cs with
  | nil => cases h
  | cons c cs ih =>
    rw [findData] at h
    cases hm : matchData (c::cs) with
    | some x =>
      rw [hm] at h
      cases h
      obtain ⟨h1,h2⟩:=matchData_spec hm
      exact ⟨h1.isInfix,h2⟩
    | none =>
      rw [hm] at h
      obtain ⟨h1,h2⟩:=ih h
      exact ⟨List.infix_cons_iff.mpr (.inr h1),h2⟩

theorem isKey_dataKey (h : ∀ c∈ds,isHexDigit c=true) : IsKey (dataKey ds) := by
  have hb : ' '∉ds := fun hm => absurd (h _ hm) (by decide)
  have hc : ']'∉ds := fun hm => absurd (h _ hm) (by decide)
  refine ⟨⟨_,rfl⟩,⟨dataOpen++ds++['_'],?_⟩,?_,?_⟩
  · rw [dataKey,List.append_assoc (dataOpen++ds)]
    rfl
  · simp [dataKey,dataOpen,hb]
  · simp [dataKey,dataOpen,hc]

theorem operand_eq {rest : List Char} (ho : '['∉op) (hx : ']'∉x) :
    operand (op++ '['::(x++ ']'::rest))=x := by
  have h1 : (op++ '['::(x++ ']'::rest)).dropWhile (·≠ '[')= '['::(x++ ']'::rest) := by
    rw [List.dropWhile_append_of_pos]
    · exact List.dropWhile_cons_of_neg (by decide)
    · intro c hc
      exact decide_eq_true fun he => ho (he ▸ hc)
  rw [operand,h1,List.drop_one,List.tail_cons,List.takeWhile_append_of_pos]
  · rw [List.takeWhile_cons_of_neg (by decide),List.append_nil]
  · intro c hc
    exact decide_eq_true fun he => hx (he ▸ hc)

/-- A text with an operand in brackets. -/
def bracketed (op x : List Char) : List Char := op++ '['::(x++[']'])

theorem replaceAll_bracketed {k rep : List Char} (hk : IsKey k) (ho : '_'∉op) :
    replaceAll k rep (bracketed op x)=bracketed op (replaceAll k rep x) := by
  obtain ⟨cs,rfl⟩:=hk.head
  have hb : '_'∉op++['['] := by simp [ho]
  have hx:=replaceAll_across rep (List.cons_ne_nil _ _) hk.bracket x []
  have hs : replaceAll ('_'::cs) rep ((op++['['])++(x++[']']))=
      (op++['['])++replaceAll ('_'::cs) rep (x++[']']) := replaceAll_before rep _ _ hb
  rw [hx,List.append_assoc,List.append_assoc] at hs
  exact hs

theorem substAll_bracketed {d : IatBySym} (va sz : Nat) (x : List Char) (hd : ∀ e ∈ d,IsKey e.1)
    (ho : '_'∉op) : substAll d va sz (bracketed op x)=bracketed op (substAll d va sz x) := by
  induction d generalizing x with
  | nil => rfl
  | cons e d ih =>
    rw [substAll_cons,substAll_cons,replaceAll_bracketed (hd e List.mem_cons_self) ho]
    exact ih _ fun e' he' => hd e' (List.mem_cons_of_mem e he')

theorem IsRip.bracket (h : IsRip t) : ']'∉t := by
  obtain ⟨n,rfl | rfl⟩:=h
  all_goals
    have hn:=not_mem_hex (c := ']') (by decide) n
    simp [ripPlus,ripMinus,hn]

theorem substAll_bracket {d : IatBySym} (va sz : Nat) (hd : ∀ e ∈ d,IsKey e.1)
    (hx : ']'∉x) : ']'∉substAll d va sz x := by
  induction d generalizing x with
  | nil => exact hx
  | cons e d ih =>
    refine ih (fun e' he' => hd e' (List.mem_cons_of_mem e he')) ?_
    intro hm
    rcases of_mem_replaceAll _ (hd e List.mem_cons_self).ne_nil hm with hm | hm
    · exact (isRip_ripText _ _ _).bracket hm
    · exact hx hm

theorem operand_substData (va sz : Nat) (ho : '['∉op) (hu : '_'∉op) (hx : ']'∉x) :
    (IsRip x → operand (substData va sz (bracketed op x))=x) ∧
      (Spoiled x ∨ (∃ sym,x=placeholder sym) ∧ IsKey x →
        ripOperand va sz (operand (substData va sz (bracketed op x)))=none) := by
  have hplain : operand (bracketed op x)=x := operand_eq ho hx
  rw [substData]
  cases hf : findData (bracketed op x) with
  | none =>
    refine ⟨fun _ => hplain,?_⟩
    intro h
    change ripOperand va sz (operand (bracketed op x))=none
    rw [hplain]
    rcases h with h | ⟨-,h⟩
    · exact ripOperand_spoiled h
    · obtain ⟨cs,rfl⟩:=h.head
      exact ripOperand_head cs
  | some ds =>
    obtain ⟨hi,hds⟩:=findData_spec hf
    have hk:=isKey_dataKey hds
    constructor
    · intro hr
      -- an address has no underscore, so nothing was found in it
      obtain ⟨cs,hcs⟩:=hk.head
      have hm : '_'∈bracketed op x := hi.subset (hcs ▸ List.mem_cons_self)
      have hn:=hr.clean
      simp [bracketed,hu,hn] at hm
    · intro h
      have hrip:=isRip_ripText (ofDigits 16 (ds.filterMap (digitOf 16))) va sz
      change ripOperand va sz (operand (replaceAll (dataKey ds) _ (bracketed op x)))=none
      rw [replaceAll_bracketed hk hu,bracketed,operand_eq ho ?_]
      · rcases h with h | ⟨⟨sym,rfl⟩,h⟩
        · exact ripOperand_spoiled (spoiled_replaceAll hk hrip h)
        · by_cases hin : dataKey ds <:+: placeholder sym
          · refine ripOperand_spoiled (spoiled_inside hk hrip h ?_ hin)
            intro he
            have h2 : some 'd'=some 'i' := congrArg (fun l : List Char => l[2]?) he
            exact absurd h2 (by decide)
          · rw [replaceAll_absent _ hk.ne_nil _ hin]
            exact ripOperand_head _
      · intro hm
        rcases of_mem_replaceAll _ hk.ne_nil hm with hm | hm
        · exact hrip.bracket hm
        · exact hx hm

/-- The address that a line is given as its operand. -/
def slot (d : IatBySym) (va sz : Nat) (ln : Line) : Option Int :=
  ripOperand va sz (operand (resolveLine d va sz ln.text))

/-- The entry of the dict that a placeholder is resolved with. -/
def resolution (d : IatBySym) (sym : List Char) : Option Nat :=
  (firstName d (placeholder sym)).bind fun e => if e.1=placeholder sym then some e.2 else none

theorem text_of_iatSym {ln : Line} {sym : List Char} (h : ln.iatSym=some sym) :
    ∃ op,'['∉op ∧ '_'∉op ∧ ln.text=bracketed op (placeholder sym) := by
  cases ln with
  | jmp addr => cases h
  | call t =>
    cases t with
    | via r => cases h
    | iat s =>
      cases h
      exact ⟨callOpen,by decide,by decide,rfl⟩
  | insn i =>
    cases i with
    | movIat dst info =>
      cases h
      exact ⟨loadOpen dst,by cases dst <;> decide,by cases dst <;> decide,rfl⟩
    | _ => cases h

/-- A line gets the address of its own name exactly when no other name of
the dict is found in the placeholder first; otherwise it gets none. -/
theorem slot_eq {d : IatBySym} {ln : Line} {sym : List Char} (va sz : Nat)
    (hd : ∀ e ∈ d,IsKey e.1) (hs : IsKey (placeholder sym)) (h : ln.iatSym=some sym) :
    slot d va sz ln=(resolution d sym).map (fun n : Nat => (n : Int)) := by
  obtain ⟨op,ho,hu,ht⟩:=text_of_iatSym h
  obtain ⟨hsome,hnone⟩:=substAll_key va sz hd hs
  have hx:=substAll_bracket va sz hd hs.bracket
  obtain ⟨hgood,hbad⟩:=operand_substData va sz ho hu hx
  rw [slot,resolveLine,ht,substAll_bracketed va sz _ hd hu,resolution]
  cases hf : firstName d (placeholder sym) with
  | none =>
    rw [hbad (.inr ⟨⟨sym,hnone hf⟩,(hnone hf).symm ▸ hs⟩)]
    rfl
  | some e =>
    obtain ⟨h1,h2⟩:=hsome e hf
    by_cases he : e.1=placeholder sym
    · have hr : IsRip (substAll d va sz (placeholder sym)) := by
        rw [h1 he]
        exact isRip_ripText _ _ _
      rw [hgood hr,h1 he,ripOperand_ripText,Option.bind_some,if_pos he]
      rfl
    · rw [hbad (.inl (h2 he)),Option.bind_some,if_neg he]
      rfl

end Devirt
