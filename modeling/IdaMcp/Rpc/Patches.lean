import IdaMcp.Lib.Tokens
import IdaMcp.Rpc.Values

/-!
# Bytes to patch, written in hexadecimal

A list of bytes is written as two digits for each byte, and the digits are cut
into tokens at any place, the middle of a byte included. Each token may have a
mark in front, and between two tokens stand blanks and punctuation. The two
readers take the text apart again, if the blanks are those of ASCII that
`is_ascii_whitespace` knows.
-/

namespace Rpc
open Lib
variable {ds : List Char} {c : Char}

/-- What stands in front of a token. -/
inductive Mark
  | bare
  | lower
  | upper

def Mark.text : Mark → List Char
  | .bare => []
  | .lower => ['0','x']
  | .upper => ['0','X']

/-- Two digits of either case for each byte, the high one first. -/
def HexOf : List UInt8 → List Char → Prop
  | [],ds => ds=[]
  | b::bs,ds => ∃ hi lo rest,ds=hi::lo::rest ∧ digitOf 16 hi=some (b.toNat/16) ∧
      digitOf 16 lo=some (b.toNat%16) ∧ HexOf bs rest

structure HexToken where
  mark : Mark
  digits : List Char
  nonempty : digits≠[]

def HexToken.text (t : HexToken) : List Char := t.mark.text++t.digits

/-- Whitespace, a comma, a colon, a dash or an underscore. -/
def isGap (c : Char) : Bool := isBlank c || c == ',' || c == ':' || c == '-' || c == '_'

/-- A way to write bytes: the tokens, and what is between them. -/
structure HexText (bytes : List UInt8) where
  first : HexToken
  rest : List (List Char × HexToken)
  gaps : ∀ p∈rest,p.1≠[] ∧ ∀ c∈p.1,isGap c=true
  digits : HexOf bytes (first.digits++rest.flatMap fun p => p.2.digits)

namespace HexText
variable {bytes : List UInt8}

def tokens (t : HexText bytes) : List HexToken := t.first::t.rest.map Prod.snd

def chars (t : HexText bytes) : List Char :=
  joined t.first.text (t.rest.map fun p => (p.1,p.2.text))

def text (t : HexText bytes) : String := String.ofList t.chars

/-- Every character between two tokens is one that the readers split at. -/
def Split (t : HexText bytes) : Prop := ∀ p∈t.rest,∀ c∈p.1,isSeparator c=true

end HexText

theorem HexOf.digit {bytes : List UInt8} (h : HexOf bytes ds) :
    ∀ c∈ds,(digitOf 16 c).isSome=true := by
  induction bytes generalizing ds with
  | nil =>
    cases h
    exact List.forall_mem_nil _
  | cons b bs ih =>
    obtain ⟨hi,lo,rest,rfl,hhi,hlo,hrest⟩:=h
    refine List.forall_mem_cons.mpr ⟨by rw [hhi]; rfl,List.forall_mem_cons.mpr ⟨?_,ih hrest⟩⟩
    rw [hlo]
    rfl

theorem HexOf.length {bytes : List UInt8} (h : HexOf bytes ds) : ds.length=2*bytes.length := by
  induction bytes generalizing ds with
  | nil =>
    cases h
    rfl
  | cons b bs ih =>
    obtain ⟨hi,lo,rest,rfl,-,-,hrest⟩:=h
    rw [List.length_cons,List.length_cons,ih hrest,List.length_cons]
    omega

theorem HexOf.bytePairs {bytes : List UInt8} (h : HexOf bytes ds) : bytePairs ds=bytes := by
  induction bytes generalizing ds with
  | nil =>
    cases h
    rfl
  | cons b bs ih =>
    obtain ⟨hi,lo,rest,rfl,hhi,hlo,hrest⟩:=h
    rw [Rpc.bytePairs,ih hrest,hhi,hlo,Option.getD_some,Option.getD_some,Nat.div_add_mod,
      UInt8.ofNat_toNat]

theorem isSeparator_of_digit (h : (digitOf 16 c).isSome=true) : isSeparator c=false := by
  cases hs : isSeparator c with
  | false => rfl
  | true =>
    simp only [isSeparator,Bool.or_eq_true,beq_iff_eq] at hs
    rcases hs with (((((((rfl|rfl)|rfl)|rfl)|rfl)|rfl)|rfl)|rfl)|rfl <;> exact absurd h (by decide)

namespace HexToken

theorem cleaned {t : HexToken} (h : ∀ c∈t.digits,(digitOf 16 c).isSome=true) :
    (if marked 'x' 'X' t.text then t.text.drop 2 else t.text)=t.digits := by
  obtain ⟨mark,digits,hne⟩:=t
  cases mark with
  | bare => exact if_neg (by rw [text,Mark.text,List.nil_append,
      marked_digits h (by decide) (by decide)]; decide)
  | lower => rfl
  | upper => rfl

theorem text_ne_nil (t : HexToken) : t.text≠[] := by
  rw [text,ne_eq,List.append_eq_nil_iff]
  exact fun h => t.nonempty h.2

theorem mem_text {t : HexToken} (h : ∀ c∈t.digits,(digitOf 16 c).isSome=true)
    (hc : c∈t.text) : (c = 'x' ∨ c = 'X') ∨ (digitOf 16 c).isSome=true := by
  obtain ⟨mark,digits,hne⟩:=t
  rcases List.mem_append.mp hc with hc | hc
  · cases mark with
    | bare => cases hc
    | lower =>
      rcases List.mem_pair.mp hc with rfl | rfl
      · exact .inr (by decide)
      · exact .inl (.inl rfl)
    | upper =>
      rcases List.mem_pair.mp hc with rfl | rfl
      · exact .inr (by decide)
      · exact .inl (.inr rfl)
  · exact .inr (h c hc)

theorem not_separator {t : HexToken} (h : ∀ c∈t.digits,(digitOf 16 c).isSome=true) :
    ∀ c∈t.text,isSeparator c=false := by
  intro c hc
  rcases mem_text h hc with (rfl | rfl) | hd
  · decide
  · decide
  · exact isSeparator_of_digit hd

theorem not_blank {t : HexToken} (h : ∀ c∈t.digits,(digitOf 16 c).isSome=true) :
    ∀ c∈t.text,isBlank c=false := by
  intro c hc
  rcases mem_text h hc with (rfl | rfl) | hd
  · decide
  · decide
  · exact isBlank_of_digit hd

end HexToken

theorem tokenDigits_tokens {ts : List HexToken}
    (h : ∀ t∈ts,∀ c∈t.digits,(digitOf 16 c).isSome=true) :
    tokenDigits (ts.map HexToken.text)=.ok (ts.flatMap HexToken.digits) := by
  induction ts with
  | nil => rfl
  | cons t ts ih =>
    have ht:=h t List.mem_cons_self
    have hno : t.digits.find? (fun c => (digitOf 16 c).isNone)=none := by
      refine List.find?_eq_none.mpr fun c hc => ?_
      rw [← Option.not_isSome,ht c hc]
      decide
    rw [List.map_cons,tokenDigits,HexToken.cleaned ht,hno,
      ih fun t' ht' => h t' (List.mem_cons_of_mem _ ht')]
    rfl

theorem tokenDigits_foreign {ts : List (List Char)} {t : List Char} (hf : Foreign c) (ht : t∈ts)
    (hc : c∈t) : ∃ e,tokenDigits ts=.error e := by
  induction ts with
  | nil => cases ht
  | cons t' ts ih =>
    rw [tokenDigits]
    split
    · exact ⟨_,rfl⟩
    · next hno =>
      rcases List.mem_cons.mp ht with rfl | ht
      · -- the mark has no foreign sign, so the sign is among the digits
        have hm : c∈if marked 'x' 'X' t then t.drop 2 else t := by
          split
          · next hm =>
            exact mem_drop_of_marked hm hc (hf.ne (by decide)) (hf.ne (by decide))
              (hf.ne (by decide))
          · exact hc
        have hd:=List.find?_eq_none.mp hno c hm
        rw [hf.digit] at hd
        exact absurd rfl hd
      · obtain ⟨e,he⟩:=ih ht
        rw [he]
        exact ⟨e,rfl⟩

theorem foreign_of_blank (h : isBlank c=true) : Foreign c := by
  refine ⟨?_,fun radix => ?_⟩
  · rintro rfl
    exact absurd h (by decide)
  · cases hd : digitOf radix c with
    | none => rfl
    | some d =>
      have hs : (digitOf radix c).isSome=true := by rw [hd]; rfl
      exact absurd h (by rw [isBlank_of_digit hs]; decide)

theorem foreign_of_isGap (h : isGap c=true) (hs : isSeparator c=false) : Foreign c := by
  cases hb : isBlank c with
  | true => exact foreign_of_blank hb
  | false =>
    simp only [isGap,hb,Bool.false_or,Bool.or_eq_true,beq_iff_eq] at h
    rcases h with ((rfl | rfl) | rfl) | rfl <;> exact absurd hs (by decide)

namespace HexText
variable {bytes : List UInt8} (t : HexText bytes)

theorem digit : ∀ u∈t.tokens,∀ c∈u.digits,(digitOf 16 c).isSome=true := by
  intro u hu c hc
  refine t.digits.digit c (List.mem_append.mpr ?_)
  rcases List.mem_cons.mp hu with rfl | hu
  · exact .inl hc
  · obtain ⟨p,hp,rfl⟩:=List.mem_map.mp hu
    exact .inr (List.mem_flatMap.mpr ⟨p,hp,hc⟩)

theorem tokens_digits : t.tokens.flatMap HexToken.digits=
    t.first.digits++t.rest.flatMap fun p => p.2.digits := by
  rw [tokens,List.flatMap_cons,List.flatMap_map]

theorem trim_chars : trim t.chars=t.chars := by
  have hb : ∀ u∈t.tokens,∀ c∈u.text,isBlank c=false :=
    fun u hu => HexToken.not_blank (t.digit u hu)
  have hh : ∀ c∈t.chars.head?,isBlank c=false := fun c hc =>
    hb t.first List.mem_cons_self c (head_joined t.first.text_ne_nil c hc)
  have hl : ∀ c∈t.chars.getLast?,isBlank c=false := by
    intro c hc
    have hne : ∀ q∈t.rest.map (fun p => (p.1,p.2.text)),q.2≠[] := by
      intro q hq
      obtain ⟨p,-,rfl⟩:=List.mem_map.mp hq
      exact p.2.text_ne_nil
    obtain ⟨u,hu,hcu⟩:=getLast_joined hne c hc
    rcases List.mem_cons.mp hu with rfl | hu
    · exact hb t.first List.mem_cons_self c hcu
    · rw [List.map_map] at hu
      obtain ⟨p,hp,rfl⟩:=List.mem_map.mp hu
      exact hb p.2 (List.mem_cons_of_mem _ (List.mem_map_of_mem hp)) c hcu
  have h:=trim_padded (List.forall_mem_nil _) (List.forall_mem_nil _) hh hl
  rwa [List.nil_append,List.append_nil] at h

theorem tokensOf_chars (h : t.Split) :
    tokensOf isSeparator t.chars=t.tokens.map HexToken.text := by
  have ht : ∀ u∈t.tokens,u.text≠[] ∧ ∀ c∈u.text,isSeparator c=false :=
    fun u hu => ⟨u.text_ne_nil,HexToken.not_separator (t.digit u hu)⟩
  have hr : ∀ p∈t.rest,p.2∈t.tokens :=
    fun p hp => List.mem_cons_of_mem _ (List.mem_map_of_mem hp)
  rw [chars,tokensOf_joined (ht _ List.mem_cons_self),tokens,List.map_cons,List.map_map,
    List.map_map]
  · rfl
  · rintro q hq
    obtain ⟨p,hp,rfl⟩:=List.mem_map.mp hq
    exact ht p.2 (hr p hp)
  · rintro q hq
    obtain ⟨p,hp,rfl⟩:=List.mem_map.mp hq
    exact ⟨(t.gaps p hp).1,h p hp⟩

theorem chars_ne_nil : t.chars≠[] := by
  rw [chars,joined,ne_eq,List.append_eq_nil_iff]
  exact fun h => t.first.text_ne_nil h.1

theorem hexBytes_text : hexBytes t.text=(do
    let digits ← tokenDigits (tokensOf isSeparator t.chars)
    if digits.isEmpty then .error noBytes
    else if digits.length%2≠0 then .error (.invalidParams "hex string has odd length")
    else .ok (bytePairs digits)) := by
  rw [hexBytes,text,String.toList_ofList,t.trim_chars]
  exact if_neg fun h => t.chars_ne_nil (List.isEmpty_iff.mp h)

theorem hexBytes_of_split (h : t.Split) : hexBytes t.text=.ok bytes := by
  have hd:=tokenDigits_tokens t.digit
  rw [tokens_digits] at hd
  have hne : t.first.digits++t.rest.flatMap (fun p => p.2.digits)≠[] := by
    rw [ne_eq,List.append_eq_nil_iff]
    exact fun h => t.first.nonempty h.1
  have hlen:=t.digits.length
  have hb:=t.digits.bytePairs
  rw [hexBytes_text,tokensOf_chars t h,hd]
  generalize t.first.digits++t.rest.flatMap (fun p => p.2.digits)=ds at hne hlen hb
  change (if ds.isEmpty then Except.error noBytes else _)=_
  rw [if_neg fun h => hne (List.isEmpty_iff.mp h),if_neg (by omega),hb]

theorem split_of_hexBytes {out : List UInt8} (h : hexBytes t.text=.ok out) : t.Split := by
  intro p hp c hc
  cases hs : isSeparator c with
  | true => rfl
  | false =>
    have hmem : c∈t.chars := by
      refine List.mem_append_right _ (List.mem_flatMap.mpr ⟨_,List.mem_map_of_mem hp,?_⟩)
      exact List.mem_append_left _ hc
    obtain ⟨u,hu,hcu⟩:=exists_token hmem hs
    obtain ⟨e,he⟩:=tokenDigits_foreign (foreign_of_isGap ((t.gaps p hp).2 c hc) hs) hu hcu
    rw [hexBytes_text,he] at h
    cases h

/-- The readers give back the bytes of a text exactly if they split at all that
stands between its tokens. -/
theorem patchBytes_iff :
    (parsePatchBytes (.str t.text)=.ok bytes ∧ valueToBytes (.str t.text)=.ok bytes) ↔
      t.Split := by
  constructor
  · rintro ⟨h,-⟩
    exact t.split_of_hexBytes h
  · intro h
    exact ⟨t.hexBytes_of_split h,t.hexBytes_of_split h⟩

end HexText

/-- A vertical tab is whitespace, but the readers do not split at it. -/
def tabbed : HexText [0x41,0x42] where
  first := ⟨.bare,['4','1'],by decide⟩
  rest := [(['\x0b'],⟨.bare,['4','2'],by decide⟩)]
  gaps := List.forall_mem_singleton.mpr
    ⟨by decide,List.forall_mem_singleton.mpr (by decide)⟩
  digits := ⟨_,_,_,rfl,by decide,by decide,_,_,_,rfl,by decide,by decide,rfl⟩

theorem tabbed_refused :
    parsePatchBytes (.str tabbed.text)=.error (.invalidParams "invalid hex character: \x0b") ∧
      valueToBytes (.str tabbed.text)=.error (.invalidParams "invalid hex character: \x0b") := by
  decide +kernel

end Rpc
