import IdaMcp.Ida.Search
import IdaMcp.Lib.Tokens
import IdaMcp.Lib.Utf8

/-!
# Byte patterns and their texts

A pattern is written with spaces between its elements, or as two characters
for each element without any space. `parse_pattern` tells one from the other by
a space in the trimmed text and reads both back, whatever blanks are around.
-/

namespace Ida
open Lib Rpc
variable {b : UInt8} {e : Option UInt8} {cs before after : List Char}
  {toks chunks : List (List Char)} {pat : Pattern}

/-- An element in two characters. -/
inductive Paired : Option UInt8 → List Char → Prop
  | byte {b : UInt8} {hi lo : Char} (high : digitOf 16 hi=some (b.toNat/16))
      (low : digitOf 16 lo=some (b.toNat%16)) : Paired (some b) [hi,lo]
  | wild : Paired none ['?','?']

/-- An element between spaces. -/
inductive Spelled : Option UInt8 → List Char → Prop
  | pair {e : Option UInt8} {cs : List Char} (h : Paired e cs) : Spelled e cs
  | marked {b : UInt8} {cs : List Char} (h : Paired (some b) cs) : Spelled (some b) ('0':: 'x'::cs)
  | wild : Spelled none ['?']

/-- The texts of a pattern. -/
inductive PatternText (pat : Pattern) : List Char → Prop
  | spaced {first : List Char} {rest : List (List Char × List Char)}
      (elements : List.Forall₂ Spelled pat (first::rest.map Prod.snd)) (several : rest≠[])
      (gaps : ∀ p∈rest,p.1≠[] ∧ ∀ c∈p.1,c = ' ') : PatternText pat (joined first rest)
  | contiguous {chunks : List (List Char)} (elements : List.Forall₂ Paired pat chunks)
      (any : pat≠[]) : PatternText pat chunks.flatten

theorem byteText_pair {hi lo : Char} (high : digitOf 16 hi=some (b.toNat/16))
    (low : digitOf 16 lo=some (b.toNat%16)) : byteText [hi,lo]=some b := by
  have hb:=b.toNat_lt
  have hd : digitsOf 16 [hi,lo]=some [b.toNat/16,b.toNat%16] := by
    rw [digitsOf,digitsOf,digitsOf,high,low]
  have hv : ofDigits 16 [b.toNat/16,b.toNat%16]=b.toNat := by
    change 16*(16*0+b.toNat/16)+b.toNat%16=b.toNat
    omega
  have hn : (UInt64.ofNat b.toNat).toNat=b.toNat :=
    UInt64.toNat_ofNat_of_lt' (Nat.lt_trans hb (by decide))
  have hr : fromStrRadix 16 [hi,lo]=some (UInt64.ofNat b.toNat) := by
    refine (fromStrRadix_eq_some_iff 16 _ _).mpr ⟨_,?_,List.cons_ne_nil _ _,hn.trans hv.symm⟩
    rw [unplus_of_digits fun c hc => mem_digitsOf hd hc,hd]
  rw [byteText,hr]
  change (if (UInt64.ofNat b.toNat).toNat < 256 then _ else _)=_
  rw [hn,if_pos hb,UInt8.ofNat_toNat]

theorem Paired.ne_nil (h : Paired e cs) : cs≠[] := by
  cases h <;> simp

theorem Paired.mem (h : Paired e cs) : ∀ c∈cs,c = '?' ∨ (digitOf 16 c).isSome=true := by
  cases h with
  | byte high low => simp [high,low]
  | wild => simp

theorem Paired.withoutMarks (h : Paired (some b) cs) : withoutMarks cs=cs := by
  cases h with
  | @byte _ hi lo high low =>
    refine withoutMarks.eq_2 _ fun rest he => ?_
    obtain ⟨-,rfl,-⟩ : hi = '0' ∧ lo = 'x' ∧ []=rest := by simpa using he
    exact absurd low (by simp [show digitOf 16 'x'=none from by decide])

theorem Paired.ne_wild (h : Paired (some b) cs) : ¬(cs=['?'] || cs=['?','?'])=true := by
  cases h with
  | @byte _ hi lo high low =>
    have hq : lo≠ '?' := by
      rintro rfl
      exact absurd low (by simp [show digitOf 16 '?'=none from by decide])
    simp [hq]

theorem Paired.byteText (h : Paired (some b) cs) : byteText (Ida.withoutMarks cs)=some b := by
  rw [h.withoutMarks]
  cases h with
  | byte high low => exact byteText_pair high low

theorem parseTokens_cons {tok : List Char}
    (h : Spelled e tok) : parseTokens (tok::toks)=(parseTokens toks).map (e::·) := by
  rw [parseTokens]
  cases h with
  | pair h =>
    cases e with
    | none =>
      cases h
      rfl
    | some b => rw [if_neg h.ne_wild,h.byteText]
  | @marked b cs h =>
    have hm : Ida.withoutMarks ('0':: 'x'::cs)=Ida.withoutMarks cs := rfl
    rw [if_neg (by simp),hm,h.byteText]
  | wild => rfl

theorem parseTokens_of_spelled (h : List.Forall₂ Spelled pat toks) : parseTokens toks=.ok pat := by
  induction h with
  | nil => rfl
  | cons he _ ih =>
    rw [parseTokens_cons he,ih]
    rfl

theorem Spelled.ne_nil (h : Spelled e cs) : cs≠[] := by
  cases h with
  | pair h => exact h.ne_nil
  | marked h => simp
  | wild => simp

theorem Spelled.not_blank (h : Spelled e cs) : ∀ c∈cs,isBlank c=false := by
  have hp : ∀ {e cs},Paired e cs → ∀ c∈cs,isBlank c=false := by
    intro e cs h c hc
    rcases h.mem c hc with rfl | hd
    · decide
    · exact isBlank_of_digit hd
  cases h with
  | pair h => exact hp h
  | marked h => exact List.forall_mem_cons.mpr ⟨by decide,List.forall_mem_cons.mpr ⟨by decide,hp h⟩⟩
  | wild => exact List.forall_mem_singleton.mpr (by decide)

theorem exists_of_mem {R : Option UInt8 → List Char → Prop} (h : List.Forall₂ R pat toks)
    {tok : List Char} (ht : tok∈toks) : ∃ e,R e tok := by
  induction h with
  | nil => cases ht
  | cons he _ ih =>
    rcases List.mem_cons.mp ht with rfl | ht
    · exact ⟨_,he⟩
    · exact ih ht

theorem parsePattern_padded {lossy : List UInt8 → List Char} (hb : ∀ c∈before,isBlank c=true)
    (ha : ∀ c∈after,isBlank c=true) (hh : ∀ c∈cs.head?,isBlank c=false)
    (hl : ∀ c∈cs.getLast?,isBlank c=false) (hne : cs≠[]) :
    parsePattern lossy (String.ofList (before++cs++after))=
      if cs.contains ' ' then parseTokens (tokensOf isBlank cs)
      else if (cs.flatMap String.utf8EncodeChar).length%2≠0 then
        let text:=String.ofList cs
        .error (.idaError s!"invalid hex pattern length: {text}")
      else parseTokens ((pairs (cs.flatMap String.utf8EncodeChar)).map lossy) := by
  rw [parsePattern,String.toList_ofList,trim_padded hb ha hh hl]
  exact if_neg fun h => hne (List.isEmpty_iff.mp h)

theorem parsePattern_spaced {lossy : List UInt8 → List Char} {first : List Char}
    {rest : List (List Char × List Char)}
    (elements : List.Forall₂ Spelled pat (first::rest.map Prod.snd)) (several : rest≠[])
    (gaps : ∀ p∈rest,p.1≠[] ∧ ∀ c∈p.1,c = ' ') (hb : ∀ c∈before,isBlank c=true)
    (ha : ∀ c∈after,isBlank c=true) :
    parsePattern lossy (String.ofList (before++joined first rest++after))=.ok pat := by
  have hs : ∀ t∈first::rest.map Prod.snd,t≠[] ∧ ∀ c∈t,isBlank c=false := by
    intro t ht
    obtain ⟨e,he⟩:=exists_of_mem elements ht
    exact ⟨he.ne_nil,he.not_blank⟩
  have hf:=hs first List.mem_cons_self
  have hr : ∀ p∈rest,p.2≠[] ∧ ∀ c∈p.2,isBlank c=false :=
    fun p hp => hs p.2 (List.mem_cons_of_mem _ (List.mem_map_of_mem hp))
  have hg : ∀ p∈rest,p.1≠[] ∧ ∀ c∈p.1,isBlank c=true := by
    intro p hp
    refine ⟨(gaps p hp).1,fun c hc => ?_⟩
    rw [(gaps p hp).2 c hc]
    decide
  have hspace : (joined first rest).contains ' '=true := by
    obtain ⟨p,ps,rfl⟩:=List.exists_cons_of_ne_nil several
    obtain ⟨hne,hall⟩:=gaps p List.mem_cons_self
    obtain ⟨c,gap,hp⟩:=List.exists_cons_of_ne_nil hne
    have hc : c = ' ':=hall c (by rw [hp]; exact List.mem_cons_self)
    rw [List.contains_iff_mem,joined,List.flatMap_cons,hp,hc]
    simp
  rw [parsePattern_padded hb ha (fun c hc => hf.2 c (head_joined hf.1 c hc)),if_pos hspace,
    tokensOf_joined hf hr hg]
  · exact parseTokens_of_spelled elements
  · intro c hc
    obtain ⟨t,ht,hct⟩:=getLast_joined (fun p hp => (hr p hp).1) c hc
    exact (hs t ht).2 c hct
  · rw [joined,ne_eq,List.append_eq_nil_iff]
    exact fun h => hf.1 h.1

theorem pairs_chunks (h : List.Forall₂ Paired pat chunks) {β : Type} (f : Char → β) :
    pairs (chunks.flatten.map f)=chunks.map (List.map f) := by
  induction h with
  | nil => rfl
  | cons he _ ih => cases he <;> exact congrArg (_::·) ih

theorem even_chunks (h : List.Forall₂ Paired pat chunks) : chunks.flatten.length%2=0 := by
  induction h with
  | nil => rfl
  | cons he _ ih =>
    have hl : ∀ {e cs},Paired e cs → cs.length=2 := by
      intro e cs h
      cases h <;> rfl
    rw [List.flatten_cons,List.length_append,hl he]
    omega

theorem parsePattern_contiguous (elements : List.Forall₂ Paired pat chunks) (any : pat≠[])
    (hb : ∀ c∈before,isBlank c=true) (ha : ∀ c∈after,isBlank c=true) :
    parsePattern fromUtf8Lossy (String.ofList (before++chunks.flatten++after))=.ok pat := by
  have hm : ∀ t∈chunks,∀ c∈t,c = '?' ∨ (digitOf 16 c).isSome=true := by
    intro t ht
    obtain ⟨e,he⟩:=exists_of_mem elements ht
    exact he.mem
  have hm' : ∀ c∈chunks.flatten,c = '?' ∨ (digitOf 16 c).isSome=true := by
    intro c hc
    obtain ⟨t,ht,hct⟩:=List.mem_flatten.mp hc
    exact hm t ht c hct
  have hblank : ∀ c∈chunks.flatten,isBlank c=false := by
    intro c hc
    rcases hm' c hc with rfl | hd
    · decide
    · exact isBlank_of_digit hd
  have hascii : ∀ c,(c = '?' ∨ (digitOf 16 c).isSome=true) → c.toNat < 128 := by
    rintro c (rfl | hd)
    · decide
    · have hr:=digitOf_range hd
      omega
  have hne : chunks.flatten≠[] := by
    cases elements with
    | nil => exact absurd rfl any
    | cons he _ =>
      rw [List.flatten_cons,ne_eq,List.append_eq_nil_iff]
      exact fun h => he.ne_nil h.1
  have hspace : ¬chunks.flatten.contains ' '=true := by
    rw [List.contains_iff_mem]
    intro hc
    exact absurd (hblank ' ' hc) (by decide)
  have hback : (chunks.map (List.map fun c => UInt8.ofNat c.toNat)).map fromUtf8Lossy=chunks := by
    rw [List.map_map]
    conv_rhs => rw [← List.map_id chunks]
    exact List.map_congr_left fun t ht => fromUtf8Lossy_ascii fun c hc => hascii c (hm t ht c hc)
  rw [parsePattern_padded hb ha (fun c hc => hblank c (List.mem_of_mem_head? hc))
      (fun c hc => hblank c (List.mem_of_getLast? hc)) hne,if_neg hspace,
    flatMap_utf8EncodeChar fun c hc => hascii c (hm' c hc),List.length_map,
    if_neg (by rw [even_chunks elements]; decide),pairs_chunks elements,hback]
  exact parseTokens_of_spelled (elements.imp fun _ _ => Spelled.pair)

/-- Every text of a pattern is read as the pattern, whatever blanks are around it. -/
theorem parsePattern_text {pat : Pattern} {cs before after : List Char} (h : PatternText pat cs)
    (hb : ∀ c∈before,isBlank c=true) (ha : ∀ c∈after,isBlank c=true) :
    parsePattern fromUtf8Lossy (String.ofList (before++cs++after))=.ok pat := by
  cases h with
  | spaced elements several gaps => exact parsePattern_spaced elements several gaps hb ha
  | contiguous elements any => exact parsePattern_contiguous elements any hb ha

/-- A marked byte, a wildcard and a byte in capitals, on a line of its own. -/
theorem parsePattern_line :
    PatternText [some 0x48,none,some 0x8b] ['0','x','4','8',' ',' ','?',' ','8','B'] ∧
      parsePattern fromUtf8Lossy
        (String.ofList (['\t']++['0','x','4','8',' ',' ','?',' ','8','B']++['\n']))=
          .ok [some 0x48,none,some 0x8b] := by
  have h : PatternText [some 0x48,none,some 0x8b]
      (joined ['0','x','4','8'] [([' ',' '],['?']),([' '],['8','B'])]) := by
    refine .spaced (.cons (.marked (.byte ?_ ?_)) (.cons .wild (.cons (.pair (.byte ?_ ?_)) .nil)))
      (by simp) (by simp)
    all_goals decide
  exact ⟨h,parsePattern_text h (List.forall_mem_singleton.mpr (by decide))
    (List.forall_mem_singleton.mpr (by decide))⟩

end Ida
