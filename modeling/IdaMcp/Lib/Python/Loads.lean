import IdaMcp.Lib.JsonText
import IdaMcp.Lib.Python.Escape

/-!
# `json.loads`

Python's reading of a JSON text. A pair of surrogates is one character, a
single one has no value here; `NaN` and the infinities have none either.
-/

namespace Lib.Python
variable (cs : List Char) {n : Nat} {r rest : List Char} {x : Json} {k : String}
variable (c : Char)

/-! ### Strings -/

/-- Escapes of one character. -/
def jsonEscapes : List (Char × Char) :=
  [('"','"'),('\\','\\'),('/','/'),('b','\x08'),('f','\x0c'),('n','\n'),('r','\r'),('t','\t')]

def hexFour (cs : List Char) : Option Nat :=
  if (cs.take 4).length=4 then hexNumber? (cs.take 4) else none

/-- The text behind `\u`: the character, and how many characters it takes with
the letter `u`. -/
def unicodeAt (cs : List Char) : Option (Char × Nat) :=
  (hexFour cs).bind fun n =>
    if 0xd800 ≤ n ∧ n ≤ 0xdbff ∧ (cs.drop 4).take 2=['\\','u'] then
      (hexFour (cs.drop 6)).bind fun m =>
        if 0xdc00 ≤ m ∧ m ≤ 0xdfff then
          (scalar? (0x10000+(n-0xd800)*0x400+(m-0xdc00))).map fun ch => (ch,11)
        else none
    else (scalar? n).map fun ch => (ch,5)

def jsonEscapeAt : List Char → Option (Char × Nat)
  | [] => none
  | c::cs => if c = 'u' then unicodeAt cs else (jsonEscapes.lookup c).map fun ch => (ch,1)

/-- A string behind its opening quote, and the text behind its closing one. -/
def stringFrom : Nat → List Char → Option (List Char × List Char)
  | _,[] => none
  | k+1,_::cs => stringFrom k cs
  | 0,c::cs =>
    if c = '"' then some ([],cs)
    else if c = '\\' then
      (jsonEscapeAt cs).bind fun e => (stringFrom e.2 cs).map fun r => (e.1::r.1,r.2)
    else if c.toNat < 32 then none
    else (stringFrom 0 cs).map fun r => (c::r.1,r.2)

/-- Needs no escape in a string. -/
def isClean (c : Char) : Bool := c != '"' && c != '\\' && 32 ≤ c.toNat

theorem isClean_iff : isClean c=true ↔ c ≠ '"' ∧ c ≠ '\\' ∧ ¬c.toNat < 32 := by
  simp [isClean,and_assoc]

theorem stringFrom_clean (s rest : List Char) (h : s.all isClean=true) :
    stringFrom 0 (s ++ '"'::rest)=some (s,rest) := by
  induction s with
  | nil => simp [stringFrom]
  | cons c cs ih =>
    rw [List.all_cons,Bool.and_eq_true] at h
    obtain ⟨h1,h2,h3⟩ := (isClean_iff c).mp h.1
    rw [List.cons_append,stringFrom,if_neg h1,if_neg h2,if_neg h3,ih h.2]
    rfl

theorem hexNumber_step (n m : Nat)
    (h : cs.foldlM (fun n c => (hexDigit? c).map (16*n+·)) n=some m) :
    ∀ c ∈ cs,(hexDigit? c).isSome=true := by
  induction cs generalizing n with
  | nil => exact fun c hc => absurd hc List.not_mem_nil
  | cons d ds ih =>
    rw [List.foldlM_cons] at h
    cases hd : hexDigit? d with
    | none => simp [hd] at h
    | some k =>
      rw [hd] at h
      intro c hc
      rcases List.mem_cons.mp hc with rfl | hc
      · rw [hd]; rfl
      · exact ih _ h c hc

theorem hexFour_count (n : Nat) (h : hexFour cs=some n) :
    4 ≤ cs.length ∧ (cs.take 4).count '"'=0 := by
  unfold hexFour at h
  split at h
  · rename_i hl
    refine ⟨?_,?_⟩
    · rw [List.length_take] at hl
      omega
    · rw [List.count_eq_zero]
      intro hq
      exact absurd (hexNumber_step _ _ _ h '"' hq) (by decide)
  · cases h

theorem unicodeAt_count (ch : Char) (k : Nat) (h : unicodeAt cs=some (ch,k)) :
    1 ≤ k ∧ k ≤ cs.length+1 ∧ (cs.take (k-1)).count '"'=0 := by
  unfold unicodeAt at h
  obtain ⟨n,hn,h⟩ := Option.bind_eq_some_iff.mp h
  obtain ⟨hl,hc⟩ := hexFour_count cs n hn
  split at h
  · rename_i hp
    obtain ⟨m,hm,h⟩ := Option.bind_eq_some_iff.mp h
    obtain ⟨hl',hc'⟩ := hexFour_count _ m hm
    split at h
    · obtain ⟨x,_,hx⟩ := Option.map_eq_some_iff.mp h
      obtain ⟨rfl,rfl⟩ := Prod.mk.inj hx
      rw [List.length_drop] at hl'
      refine ⟨by decide,by omega,?_⟩
      have hsplit : cs.take 10=cs.take 4++((cs.drop 4).take 2++(cs.drop 6).take 4) := by
        have h6 : (cs.drop 4).drop 2=cs.drop 6 := by rw [List.drop_drop]
        rw [← h6,← List.take_add,← List.take_add]
      show (cs.take 10).count '"'=0
      rw [hsplit,hp.2.2,List.count_append,List.count_append,hc,hc']
      decide
    · cases h
  · obtain ⟨x,_,hx⟩ := Option.map_eq_some_iff.mp h
    obtain ⟨rfl,rfl⟩ := Prod.mk.inj hx
    exact ⟨by decide,by omega,hc⟩

theorem jsonEscapeAt_count (ch : Char) (k : Nat) (h : jsonEscapeAt cs=some (ch,k)) :
    1 ≤ k ∧ k ≤ cs.length ∧ (cs.take k).count '"' ≤ [ch].count '"' := by
  cases cs with
  | nil => cases h
  | cons c cs =>
    rw [jsonEscapeAt] at h
    split at h
    · rename_i hu
      obtain ⟨h1,h2,h3⟩ := unicodeAt_count cs ch k h
      obtain ⟨j,rfl⟩ : ∃ j,k=j+1 := ⟨k-1,by omega⟩
      refine ⟨h1,by rw [List.length_cons]; exact h2,?_⟩
      rw [Nat.add_sub_cancel] at h3
      rw [List.take_succ_cons,hu,List.count_cons,h3]
      exact Nat.zero_le _
    · obtain ⟨x,hx,he⟩ := Option.map_eq_some_iff.mp h
      obtain ⟨rfl,rfl⟩ := Prod.mk.inj he
      refine ⟨Nat.le_refl 1,by simp,?_⟩
      by_cases hc : c = '"'
      · subst hc
        have hx' : x = '"' := by
          have : jsonEscapes.lookup '"'=some '"' := by decide
          exact Option.some.inj (hx.symm.trans this)
        rw [hx']
        exact Nat.le_refl _
      · have : ([c] : List Char).count '"'=0 := by
          rw [List.count_eq_zero]
          simpa using fun h => hc h.symm
        rw [show (c::cs).take 1=[c] from rfl,this]
        exact Nat.zero_le _

theorem stringFrom_sound (k : Nat) (t d rest : List Char) (hk : k ≤ t.length)
    (h : stringFrom k t=some (d,rest)) :
    ∃ u,t.drop k=u ++ '"'::rest ∧ u.count '"' ≤ d.count '"' ∧ d.length ≤ u.length ∧
      (d.length=u.length → u=d ∧ d.all isClean=true) := by
  induction t generalizing k d rest with
  | nil => cases k <;> cases h
  | cons c cs ih =>
    cases k with
    | succ k => exact ih k d rest (by simpa using hk) h
    | zero =>
      rw [stringFrom] at h
      split at h
      · rename_i hc
        obtain ⟨rfl,rfl⟩ := Prod.mk.inj (Option.some.inj h)
        exact ⟨[],by rw [hc]; rfl,Nat.le_refl _,Nat.le_refl _,fun _ => ⟨rfl,rfl⟩⟩
      split at h
      · rename_i hq hb
        obtain ⟨⟨ch,n⟩,he,h⟩ := Option.bind_eq_some_iff.mp h
        obtain ⟨⟨d',rest'⟩,hs,hd⟩ := Option.map_eq_some_iff.mp h
        obtain rfl : ch::d'=d := congrArg Prod.fst hd
        obtain rfl : rest'=rest := congrArg Prod.snd hd
        obtain ⟨h1,h2,h3⟩ := jsonEscapeAt_count cs ch n he
        obtain ⟨u,hu,hcount,hlen,_⟩ := ih n d' rest' h2 hs
        refine ⟨'\\'::(cs.take n++u),?_,?_,?_,?_⟩
        · rw [List.drop_zero,hb,List.cons_append,List.append_assoc,← hu,List.take_append_drop]
        · have hch : (ch::d').count '"'=[ch].count '"'+d'.count '"' := by
            rw [← List.count_append,List.singleton_append]
          rw [List.count_cons_of_ne (by decide),List.count_append,hch]
          omega
        · simp only [List.length_cons,List.length_append,List.length_take]
          omega
        · intro heq
          simp only [List.length_cons,List.length_append,List.length_take] at heq
          omega
      split at h
      · cases h
      · rename_i hq hb hn
        obtain ⟨⟨d',rest'⟩,hs,hd⟩ := Option.map_eq_some_iff.mp h
        obtain rfl : c::d'=d := congrArg Prod.fst hd
        obtain rfl : rest'=rest := congrArg Prod.snd hd
        obtain ⟨u,hu,hcount,hlen,heq⟩ := ih 0 d' rest' (Nat.zero_le _) hs
        rw [List.drop_zero] at hu
        refine ⟨c::u,by rw [List.drop_zero,hu]; rfl,?_,by simpa using hlen,?_⟩
        · rw [List.count_cons,List.count_cons]
          omega
        · intro hl
          obtain ⟨rfl,hclean⟩ := heq (by simpa using hl)
          refine ⟨rfl,?_⟩
          rw [List.all_cons,hclean,Bool.and_true]
          exact (isClean_iff c).mpr ⟨hq,hb,hn⟩

theorem stringFrom_self_iff (s rest r : List Char) :
    stringFrom 0 (s ++ '"'::rest)=some (s,r) ↔ s.all isClean=true ∧ r=rest := by
  constructor
  · intro h
    obtain ⟨u,hu,hcount,hlen,heq⟩ := stringFrom_sound 0 _ s r (Nat.zero_le _) h
    rw [List.drop_zero] at hu
    rcases List.append_eq_append_iff.mp hu with ⟨w,hw,hr⟩ | ⟨w,hw,hr⟩
    · cases w with
      | nil =>
        rw [List.append_nil] at hw
        refine ⟨(heq (congrArg List.length hw).symm).2,?_⟩
        exact (List.cons.inj hr).2.symm
      | cons c w =>
        -- the text read goes beyond the quote at the end of `s`: one quote too many
        obtain ⟨rfl,_⟩ := List.cons.inj hr
        rw [hw,List.count_append,List.count_cons_self] at hcount
        omega
    · have hl := congrArg List.length hw
      rw [List.length_append] at hl
      have hw0 : w=[] := List.eq_nil_of_length_eq_zero (by omega)
      subst hw0
      rw [List.append_nil] at hw
      refine ⟨(heq (congrArg List.length hw)).2,?_⟩
      exact (List.cons.inj hr).2
  · rintro ⟨h,rfl⟩
    exact stringFrom_clean s r h

/-! ### Values -/

def JsonNumber.read? (t : List Char) : Option JsonNumber :=
  match natural? (unsigned t) with
  | some n => some (if isNegative t then (if n=0 then .nat 0 else .neg (n-1)) else .nat n)
  | none =>
    if h : isDecimal (String.ofList t).toList=true then some (.float ⟨String.ofList t,h⟩) else none

def numberAt (cs : List Char) : Option (Json × List Char) :=
  (JsonNumber.read? (cs.takeWhile isNumberChar)).map fun n =>
    (.number n,cs.dropWhile isNumberChar)

def isBlank (c : Char) : Bool := c == ' ' || c == '\t' || c == '\n' || c == '\r'
def blanks (cs : List Char) : List Char := cs.dropWhile isBlank

/-- The name of a field with its colon. -/
def keyAt (cs : List Char) : Option (String × List Char) :=
  if cs.head?=some '"' then
    (stringFrom 0 cs.tail).bind fun k =>
      if (blanks k.2).head?=some ':' then some
        (String.ofList k.1,blanks (blanks k.2).tail) else none
  else none

mutual
def valueAt : Nat → List Char → Option (Json × List Char)
  | 0,_ => none
  | _+1,[] => none
  | n+1,c::cs =>
    if c = '"' then (stringFrom 0 cs).map fun r => (.str (String.ofList r.1),r.2)
    else if c = '[' then
      if (blanks cs).head?=some ']' then some (.arr [],(blanks cs).tail)
      else (itemsAt n (blanks cs)).map fun r => (.arr r.1,r.2)
    else if c = '\x7b' then
      if (blanks cs).head?=some '\x7d' then some (.obj [],(blanks cs).tail)
      else (fieldsAt n (blanks cs)).map fun r => (.obj r.1,r.2)
    else if (c::cs).take 4=['n','u','l','l'] then some (.null,cs.drop 3)
    else if (c::cs).take 4=['t','r','u','e'] then some (.bool true,cs.drop 3)
    else if (c::cs).take 5=['f','a','l','s','e'] then some (.bool false,cs.drop 4)
    else numberAt (c::cs)
def itemsAt : Nat → List Char → Option (List Json × List Char)
  | 0,_ => none
  | n+1,cs => (valueAt n cs).bind fun v =>
    if (blanks v.2).head?=some ',' then
      (itemsAt n (blanks (blanks v.2).tail)).map fun vs => (v.1::vs.1,vs.2)
    else if (blanks v.2).head?=some ']' then some ([v.1],(blanks v.2).tail)
    else none
def fieldsAt : Nat → List Char → Option (List (String × Json) × List Char)
  | 0,_ => none
  | n+1,cs => (keyAt cs).bind fun k => (valueAt n k.2).bind fun v =>
    if (blanks v.2).head?=some ',' then
      (fieldsAt n (blanks (blanks v.2).tail)).map fun vs => ((k.1,v.1)::vs.1,vs.2)
    else if (blanks v.2).head?=some '\x7d' then some ([(k.1,v.1)],(blanks v.2).tail)
    else none
end

/-- Models `json.loads`; no value needs more steps than its text has characters. -/
def loads (text : List Char) : Option Json :=
  (valueAt (text.length+1) (blanks text)).bind fun r => if blanks r.2=[] then some r.1 else none

/-! ### Texts whose strings are not escaped -/

/-- The text of a value with its strings as they are. -/
def rawText (v : Json) : List Char := v.pieces.map Piece.value

mutual
/-- Every string of the value, its names too, is clean. -/
def cleanJson : Json → Bool
  | .str s => s.toList.all isClean
  | .arr xs => cleanItems xs
  | .obj fields => cleanFields fields
  | _ => true
def cleanItems : List Json → Bool
  | [] => true
  | x::xs => cleanJson x && cleanItems xs
def cleanFields : List (String × Json) → Bool
  | [] => true
  | (k,x)::xs => k.toList.all isClean && cleanJson x && cleanFields xs
end

theorem blanks_cons (cs : List Char) (h : isBlank c=false) : blanks (c::cs)=c::cs := by
  rw [blanks,List.dropWhile_cons,h]
  rfl

/-- What a value starts with. -/
def isStart (c : Char) : Bool :=
  c == '"' || c == '[' || c == '\x7b' || c == 'n' || c == 't' || c == 'f' || isNumberChar c

theorem isStart_facts (h : isStart c=true) : isBlank c=false ∧ c ≠ ']' ∧ c ≠ '\x7d' := by
  refine ⟨?_,?_,?_⟩
  · rw [Bool.eq_false_iff]
    intro hb
    simp only [isBlank,Bool.or_eq_true,beq_iff_eq] at hb
    rcases hb with ((rfl | rfl) | rfl) | rfl <;> exact absurd h (by decide)
  · rintro rfl
    exact absurd h (by decide)
  · rintro rfl
    exact absurd h (by decide)

theorem isNumberChar_facts (h : isNumberChar c=true) :
    c ≠ '"' ∧ c ≠ '[' ∧ c ≠ '\x7b' ∧ c ≠ 'n' ∧ c ≠ 't' ∧ c ≠ 'f' := by
  refine ⟨?_,?_,?_,?_,?_,?_⟩ <;> rintro rfl <;> exact absurd h (by decide)

/-! #### Numbers -/

theorem natural_toDigits (n : Nat) : natural? (Nat.toDigits 10 n)=some n := by
  simp [natural?,Nat.ofDigitChars_ten_toDigits]

theorem toDigits_cons (n : Nat) : ∃ c cs,Nat.toDigits 10 n=c::cs ∧ c.isDigit=true := by
  cases h : Nat.toDigits 10 n with
  | nil =>
    have := Nat.length_toDigits_pos (b := 10) (n := n)
    rw [h] at this
    exact absurd this (by decide)
  | cons c cs => exact ⟨c,cs,rfl,digit_of_toDigits n c (h ▸ List.mem_cons_self)⟩

theorem digit_of_natural (ds : List Char) (n : Nat) (h : natural? ds=some n) :
    ∀ c ∈ ds,c.isDigit=true := by
  simp only [natural?] at h
  split at h
  · rename_i hd
    intro c hc
    rw [← hd] at hc
    exact digit_of_toDigits _ c hc
  · cases h

theorem natural_none_of_decimal (t : List Char) (h : isDecimal t=true) :
    natural? (unsigned t)=none := by
  simp only [isDecimal,Bool.and_eq_true] at h
  cases hn : natural? (unsigned t) with
  | none => rfl
  | some n =>
    -- an integer has nothing behind its digits, a decimal has a fraction there
    have hd : (unsigned t).dropWhile Char.isDigit=[] := by
      rw [← List.append_nil (unsigned t),
        List.dropWhile_append_of_pos (digit_of_natural _ n hn),List.dropWhile_nil]
    rw [hd] at h
    exact absurd h.1.2 (by decide)

theorem number_cons (n : JsonNumber) : ∃ c cs,n.text=c::cs ∧ isNumberChar c=true := by
  cases h : n.text with
  | cons c cs => exact ⟨c,cs,rfl,number_chars n c (h ▸ List.mem_cons_self)⟩
  | nil =>
    cases n with
    | nat n =>
      obtain ⟨c,cs,hc,_⟩ := toDigits_cons n
      rw [JsonNumber.text,hc] at h
      cases h
    | neg n => cases h
    | float d =>
      have hd := d.wellFormed
      rw [JsonNumber.text] at h
      rw [h] at hd
      exact absurd hd (by decide)

theorem read_number (n : JsonNumber) : JsonNumber.read? n.text=some n := by
  cases n with
  | nat n =>
    obtain ⟨c,cs,hc,hd⟩ := toDigits_cons n
    have hneg : isNegative (Nat.toDigits 10 n)=false := by
      rw [hc,Bool.eq_false_iff]
      intro h
      obtain rfl : c = '-' := by simpa [isNegative] using h
      exact absurd hd (by decide)
    simp [JsonNumber.text,JsonNumber.read?,unsigned,hneg,natural_toDigits]
  | neg n =>
    have hneg : isNegative ('-'::Nat.toDigits 10 (n+1))=true := rfl
    simp [JsonNumber.text,JsonNumber.read?,unsigned,hneg,natural_toDigits]
  | float d =>
    simp [JsonNumber.text,JsonNumber.read?,natural_none_of_decimal _ d.wellFormed,d.wellFormed]

/-- What may stand behind a number. -/
def Delimited (rest : List Char) : Prop := ∀ c,rest.head?=some c → isNumberChar c=false

theorem numberAt_text (n : JsonNumber) (rest : List Char) (hr : Delimited rest) :
    numberAt (n.text++rest)=some (.number n,rest) := by
  have hall := number_chars n
  have htake : (n.text++rest).takeWhile isNumberChar=n.text := by
    rw [List.takeWhile_append_of_pos hall]
    cases rest with
    | nil => simp
    | cons c cs => simp [hr c rfl]
  have hdrop : (n.text++rest).dropWhile isNumberChar=rest := by
    rw [List.dropWhile_append_of_pos hall]
    cases rest with
    | nil => rfl
    | cons c cs => simp [hr c rfl]
  rw [numberAt,htake,hdrop,read_number]
  rfl

theorem valueAt_number (n : JsonNumber) (k : Nat) (rest : List Char) (hr : Delimited rest) :
    valueAt (k+1) (n.text++rest)=some (.number n,rest) := by
  obtain ⟨c,cs,hc,hn⟩ := number_cons n
  obtain ⟨h1,h2,h3,h4,h5,h6⟩ := isNumberChar_facts c hn
  have hword : ∀ (j : Nat) (d : Char) (w : List Char),c ≠ d →
    (c::(cs++rest)).take (j+1) ≠ d::w := by
    intro j d w hne h
    rw [List.take_succ_cons] at h
    exact hne (List.cons.inj h).1
  have hnum := numberAt_text n rest hr
  rw [hc,List.cons_append] at hnum ⊢
  rw [valueAt,if_neg h1,if_neg h2,if_neg h3,if_neg (hword 3 _ _ h4),if_neg (hword 3 _ _ h5),
    if_neg (hword 4 _ _ h6),hnum]

/-! #### Arrays and objects -/

def rawItems (xs : List Json) : List Char := (itemPieces xs).map Piece.value
def rawFields (xs : List (String × Json)) : List Char := (fieldPieces xs).map Piece.value

theorem map_value_plain : (cs.map Piece.plain).map Piece.value=cs := by
  rw [List.map_map]
  exact List.map_id cs

theorem map_value_content : (cs.map Piece.content).map Piece.value=cs := by
  rw [List.map_map]
  exact List.map_id cs

theorem raw_string (s : String) :
    (stringPieces s).map Piece.value = '"'::(s.toList++['"']) := by
  rw [stringPieces,List.map_cons,List.map_append,map_value_content]
  rfl

theorem rawText_number (n : JsonNumber) : rawText (.number n)=n.text := by
  rw [rawText,Json.pieces,map_value_plain]

theorem rawText_str (s : String) : rawText (.str s) = '"'::(s.toList++['"']) := by
  rw [rawText,Json.pieces,raw_string]

theorem rawText_arr (xs : List Json) : rawText (.arr xs) = '['::rawItems xs := by
  rw [rawText,Json.pieces]
  rfl

theorem rawText_obj (xs : List (String × Json)) : rawText (.obj xs) = '\x7b'::rawFields xs := by
  rw [rawText,Json.pieces]
  rfl

theorem rawItems_one (x : Json) : rawItems [x]=rawText x++[']'] := by
  rw [rawItems,itemPieces,List.map_append]
  rfl

theorem rawItems_more (x y : Json) (xs : List Json) :
    rawItems (x::y::xs)=rawText x ++ ','::rawItems (y::xs) := by
  rw [rawItems,itemPieces,List.map_append]
  rfl

theorem rawFields_one (k : String) (x : Json) :
    rawFields [(k,x)] = '"'::(k.toList ++ '"' :: ':'::(rawText x++['\x7d'])) := by
  rw [rawFields,fieldPieces,List.map_append,raw_string]
  simp [rawText,Piece.value]

theorem rawFields_more (k : String) (x : Json) (y : String × Json) (xs : List (String × Json)) :
    rawFields ((k,x)::y::xs) = '"'::(k.toList ++
      '"' :: ':'::(rawText x ++ ','::rawFields (y::xs))) := by
  rw [rawFields,fieldPieces,List.map_append,raw_string]
  simp [rawText,rawFields,Piece.value]

theorem rawText_cons (v : Json) : ∃ c cs,rawText v=c::cs ∧ isStart c=true := by
  cases v with
  | null => exact ⟨_,_,rfl,by decide⟩
  | bool b => cases b <;> exact ⟨_,_,rfl,by decide⟩
  | number n =>
    obtain ⟨c,cs,hc,hn⟩ := number_cons n
    exact ⟨c,cs,by rw [rawText_number,hc],by simp [isStart,hn]⟩
  | str s => exact ⟨_,_,rawText_str s,by decide⟩
  | arr xs => exact ⟨_,_,rawText_arr xs,by decide⟩
  | obj xs => exact ⟨_,_,rawText_obj xs,by decide⟩

theorem blanks_rawText (v : Json) (rest : List Char) :
    blanks (rawText v++rest)=rawText v++rest := by
  obtain ⟨c,cs,hc,hs⟩ := rawText_cons v
  rw [hc]
  exact blanks_cons c _ (isStart_facts c hs).1

theorem rawItems_cons (x : Json) (xs : List Json) :
    ∃ tail,rawItems (x::xs)=rawText x++tail := by
  cases xs with
  | nil => exact ⟨_,rawItems_one x⟩
  | cons y ys => exact ⟨_,rawItems_more x y ys⟩

theorem rawFields_cons (e : String × Json) (xs : List (String × Json)) :
    ∃ tail,rawFields (e::xs) = '"'::tail := by
  obtain ⟨k,x⟩ := e
  cases xs with
  | nil => exact ⟨_,rawFields_one k x⟩
  | cons y ys => exact ⟨_,rawFields_more k x y ys⟩

theorem delimited_cons (cs : List Char) (h : isNumberChar c=false) : Delimited (c::cs) := by
  intro d hd
  obtain rfl := Option.some.inj hd
  exact h

theorem keyAt_raw_iff (k : String) (rest r : List Char) (hb : blanks rest=rest) :
    keyAt ('"'::(k.toList ++ '"' :: ':'::rest))=some (k,r) ↔ k.toList.all isClean=true ∧
      r=rest := by
  rw [keyAt,List.head?_cons,if_pos rfl,List.tail_cons]
  constructor
  · intro h
    obtain ⟨⟨s,t⟩,hs,h⟩ := Option.bind_eq_some_iff.mp h
    split at h
    · have hk : String.ofList s=k := congrArg Prod.fst (Option.some.inj h)
      have hr : blanks (blanks t).tail=r := congrArg Prod.snd (Option.some.inj h)
      have hs' : s=k.toList := by rw [← hk,String.toList_ofList]
      rw [hs'] at hs
      obtain ⟨hc,rfl⟩ := (stringFrom_self_iff _ _ _).mp hs
      refine ⟨hc,?_⟩
      rw [← hr,blanks_cons _ _ (by decide),List.tail_cons,hb]
    · cases h
  · rintro ⟨hc,rfl⟩
    rw [(stringFrom_self_iff _ _ _).mpr ⟨hc,rfl⟩,Option.bind_some]
    simp only [blanks_cons ':' r (by decide),List.head?_cons,if_true,List.tail_cons,hb,
      String.ofList_toList]

theorem itemsAt_head {cs : List Char} {xs : List Json}
    (h : itemsAt (n+1) cs=some (x::xs,r)) : ∃ u,valueAt n cs=some (x,u) := by
  rw [itemsAt] at h
  obtain ⟨⟨v,u⟩,hv,h⟩ := Option.bind_eq_some_iff.mp h
  split at h
  · obtain ⟨vs,_,he⟩ := Option.map_eq_some_iff.mp h
    obtain rfl : v=x := (List.cons.inj (congrArg Prod.fst he)).1
    exact ⟨u,hv⟩
  split at h
  · obtain rfl : v=x := (List.cons.inj (congrArg Prod.fst (Option.some.inj h))).1
    exact ⟨u,hv⟩
  · cases h

theorem fieldsAt_head {cs : List Char} {xs : List (String × Json)}
    (h : fieldsAt (n+1) cs=some ((k,x)::xs,r)) :
    ∃ t u,keyAt cs=some (k,t) ∧ valueAt n t=some (x,u) := by
  rw [fieldsAt] at h
  obtain ⟨⟨j,t⟩,hk,h⟩ := Option.bind_eq_some_iff.mp h
  obtain ⟨⟨v,u⟩,hv,h⟩ := Option.bind_eq_some_iff.mp h
  have hfirst : (j,v)=(k,x) := by
    split at h
    · obtain ⟨vs,_,he⟩ := Option.map_eq_some_iff.mp h
      exact (List.cons.inj (congrArg Prod.fst he)).1
    split at h
    · exact (List.cons.inj (congrArg Prod.fst (Option.some.inj h))).1
    · cases h
  obtain ⟨rfl,rfl⟩ := Prod.mk.inj hfirst
  exact ⟨t,u,hk,hv⟩

theorem itemsAt_one_iff
    (ih : ∀ u,valueAt n (rawText x ++ ']'::rest)=some (x,u) ↔ cleanJson x=true ∧ u = ']'::rest) :
    itemsAt (n+1) (rawItems [x]++rest)=some ([x],r) ↔ cleanItems [x]=true ∧ r=rest := by
  rw [rawItems_one,List.append_assoc,List.singleton_append]
  by_cases hc : cleanJson x=true
  · rw [itemsAt,(ih _).mpr ⟨hc,rfl⟩]
    simp [blanks_cons ']' rest (by decide),cleanItems,hc,eq_comm]
  · refine ⟨fun h => ?_,fun h => ?_⟩
    · obtain ⟨u,hu⟩ := itemsAt_head h
      exact absurd ((ih u).mp hu).1 hc
    · simp [cleanItems,hc] at h

theorem itemsAt_more_iff {y : Json} {xs : List Json}
    (ih : ∀ tail u,valueAt n (rawText x ++ ','::tail)=some (x,u) ↔ cleanJson x=true ∧ u = ','::tail)
    (ihs : itemsAt n (rawItems (y::xs)++rest)=some (y::xs,r) ↔
      cleanItems (y::xs)=true ∧ r=rest) :
    itemsAt (n+1) (rawItems (x::y::xs)++rest)=some (x::y::xs,r) ↔
      cleanItems (x::y::xs)=true ∧ r=rest := by
  rw [rawItems_more,List.append_assoc,List.cons_append]
  by_cases hc : cleanJson x=true
  · have hb : blanks (rawItems (y::xs)++rest)=rawItems (y::xs)++rest := by
      obtain ⟨tail,ht⟩ := rawItems_cons y xs
      rw [ht,List.append_assoc,blanks_rawText]
    have hclean : cleanItems (x::y::xs)=cleanItems (y::xs) := by
      rw [cleanItems,hc,Bool.true_and]
    rw [hclean,← ihs,itemsAt,(ih _ _).mpr ⟨hc,rfl⟩,Option.bind_some]
    simp only [blanks_cons ',' _ (by decide),List.head?_cons,if_true,List.tail_cons,hb]
    rw [Option.map_eq_some_iff]
    constructor
    · rintro ⟨⟨vs,w⟩,hvs,he⟩
      have h1 : vs=y::xs := (List.cons.inj (congrArg Prod.fst he)).2
      have h2 : w=r := congrArg Prod.snd he
      rw [hvs,h1,h2]
    · exact fun h => ⟨_,h,rfl⟩
  · refine ⟨fun h => ?_,fun h => ?_⟩
    · obtain ⟨u,hu⟩ := itemsAt_head h
      exact absurd ((ih _ u).mp hu).1 hc
    · simp [cleanItems,hc] at h

theorem fieldsAt_one_iff
    (ih : ∀ u,valueAt n (rawText x ++ '\x7d'::rest)=some (x,u) ↔ cleanJson x=true ∧
      u = '\x7d'::rest) : fieldsAt (n+1) (rawFields [(k,x)]++rest)=some ([(k,x)],r) ↔
      cleanFields [(k,x)]=true ∧ r=rest := by
  have htext : rawFields [(k,x)]++
    rest = '"'::(k.toList ++ '"' :: ':'::(rawText x ++ '\x7d'::rest)) := by
    rw [rawFields_one]
    simp
  have hkey := fun u => keyAt_raw_iff k (rawText x ++ '\x7d'::rest) u (blanks_rawText x _)
  rw [htext]
  by_cases hc : k.toList.all isClean=true ∧ cleanJson x=true
  · rw [fieldsAt,(hkey _).mpr ⟨hc.1,rfl⟩,Option.bind_some,(ih _).mpr ⟨hc.2,rfl⟩]
    simp [blanks_cons '\x7d' rest (by decide),cleanFields,hc.1,hc.2,eq_comm]
  · refine ⟨fun h => ?_,fun h => ?_⟩
    · obtain ⟨t,u,ht,hu⟩ := fieldsAt_head h
      obtain ⟨hk,rfl⟩ := (hkey t).mp ht
      exact absurd ⟨hk,((ih u).mp hu).1⟩ hc
    · rw [cleanFields,Bool.and_eq_true,Bool.and_eq_true] at h
      exact absurd h.1.1 hc

theorem fieldsAt_more_iff {y : String × Json} {xs : List (String × Json)}
    (ih : ∀ tail u,valueAt n (rawText x ++ ','::tail)=some (x,u) ↔ cleanJson x=true ∧ u = ','::tail)
    (ihs : fieldsAt n (rawFields (y::xs)++rest)=some (y::xs,r) ↔
      cleanFields (y::xs)=true ∧ r=rest) :
    fieldsAt (n+1) (rawFields ((k,x)::y::xs)++rest)=some ((k,x)::y::xs,r) ↔
      cleanFields ((k,x)::y::xs)=true ∧ r=rest := by
  have htext : rawFields ((k,x)::y::xs)++rest=
      '"'::(k.toList ++ '"' :: ':'::(rawText x ++ ','::(rawFields (y::xs)++rest))) := by
    rw [rawFields_more]
    simp
  have hkey := fun u =>
    keyAt_raw_iff k (rawText x ++ ','::(rawFields (y::xs)++rest)) u (blanks_rawText x _)
  rw [htext]
  by_cases hc : k.toList.all isClean=true ∧ cleanJson x=true
  · have hb : blanks (rawFields (y::xs)++rest)=rawFields (y::xs)++rest := by
      obtain ⟨tail,ht⟩ := rawFields_cons y xs
      rw [ht]
      exact blanks_cons '"' _ (by decide)
    have hclean : cleanFields ((k,x)::y::xs)=cleanFields (y::xs) := by
      rw [cleanFields,hc.1,hc.2,Bool.true_and,Bool.true_and]
    rw [hclean,← ihs,fieldsAt,(hkey _).mpr ⟨hc.1,rfl⟩,Option.bind_some,(ih _ _).mpr ⟨hc.2,rfl⟩,
      Option.bind_some]
    simp only [blanks_cons ',' _ (by decide),List.head?_cons,if_true,List.tail_cons,hb]
    rw [Option.map_eq_some_iff]
    constructor
    · rintro ⟨⟨vs,w⟩,hvs,he⟩
      have h1 : vs=y::xs := (List.cons.inj (congrArg Prod.fst he)).2
      have h2 : w=r := congrArg Prod.snd he
      rw [hvs,h1,h2]
    · exact fun h => ⟨_,h,rfl⟩
  · refine ⟨fun h => ?_,fun h => ?_⟩
    · obtain ⟨t,u,ht,hu⟩ := fieldsAt_head h
      obtain ⟨hk,rfl⟩ := (hkey t).mp ht
      exact absurd ⟨hk,((ih _ u).mp hu).1⟩ hc
    · rw [cleanFields,Bool.and_eq_true,Bool.and_eq_true] at h
      exact absurd h.1.1 hc

mutual
theorem valueAt_raw_iff : ∀ (v : Json) (n : Nat) (rest r : List Char),
    (rawText v).length < n → Delimited rest →
    (valueAt n (rawText v++rest)=some (v,r) ↔ cleanJson v=true ∧ r=rest)
  | v,0,rest,r,hn,_ => absurd hn (Nat.not_lt_zero _)
  | .null,n+1,rest,r,_,_ => by
    have h : valueAt (n+1) (rawText .null++rest)=some (.null,rest) := rfl
    rw [h]
    simp [cleanJson,eq_comm]
  | .bool true,n+1,rest,r,_,_ => by
    have h : valueAt (n+1) (rawText (.bool true)++rest)=some (.bool true,rest) := rfl
    rw [h]
    simp [cleanJson,eq_comm]
  | .bool false,n+1,rest,r,_,_ => by
    have h : valueAt (n+1) (rawText (.bool false)++rest)=some (.bool false,rest) := rfl
    rw [h]
    simp [cleanJson,eq_comm]
  | .number k,n+1,rest,r,_,hd => by
    rw [rawText_number,valueAt_number k n rest hd]
    simp [cleanJson,eq_comm]
  | .str s,n+1,rest,r,_,_ => by
    rw [rawText_str,List.cons_append,List.append_assoc,valueAt,if_pos rfl,cleanJson,
      ← stringFrom_self_iff,List.singleton_append]
    constructor
    · intro h
      obtain ⟨⟨t,u⟩,ht,he⟩ := Option.map_eq_some_iff.mp h
      have hs : String.ofList t=s := Json.str.inj (congrArg Prod.fst he)
      have hu : u=r := congrArg Prod.snd he
      have ht' : t=s.toList := by rw [← hs,String.toList_ofList]
      rw [ht,ht',hu]
    · intro h
      rw [h]
      simp
  | .arr [],n+1,rest,r,_,_ => by
    have h : valueAt (n+1) (rawText (.arr [])++rest)=some (.arr [],rest) := rfl
    rw [h]
    simp [cleanJson,cleanItems,eq_comm]
  | .arr (x::xs),n+1,rest,r,hn,_ => by
    rw [rawText_arr] at hn ⊢
    obtain ⟨tail,ht⟩ := rawItems_cons x xs
    obtain ⟨c,cs,hc,hst⟩ := rawText_cons x
    have hb : blanks (rawItems (x::xs)++rest)=rawItems (x::xs)++rest := by
      rw [ht,List.append_assoc,blanks_rawText]
    have hh : ¬(rawItems (x::xs)++rest).head?=some ']' := by
      rw [ht,hc]
      exact fun h => (isStart_facts c hst).2.1 (Option.some.inj h)
    have ih := itemsAt_raw_iff x xs n rest r (by rw [List.length_cons] at hn; omega)
    rw [List.cons_append,valueAt,if_neg (by decide),if_pos rfl,hb,if_neg hh,cleanJson,← ih,
      Option.map_eq_some_iff]
    constructor
    · rintro ⟨⟨ys,u⟩,hy,he⟩
      have h1 : ys=x::xs := Json.arr.inj (congrArg Prod.fst he)
      have h2 : u=r := congrArg Prod.snd he
      rw [hy,h1,h2]
    · exact fun h => ⟨_,h,rfl⟩
  | .obj [],n+1,rest,r,_,_ => by
    have h : valueAt (n+1) (rawText (.obj [])++rest)=some (.obj [],rest) := rfl
    rw [h]
    simp [cleanJson,cleanFields,eq_comm]
  | .obj ((k,x)::xs),n+1,rest,r,hn,_ => by
    rw [rawText_obj] at hn ⊢
    obtain ⟨tail,ht⟩ := rawFields_cons (k,x) xs
    have hb : blanks (rawFields ((k,x)::xs)++rest)=rawFields ((k,x)::xs)++rest := by
      rw [ht]
      exact blanks_cons '"' _ (by decide)
    have hh : ¬(rawFields ((k,x)::xs)++rest).head?=some '\x7d' := by
      rw [ht]
      exact fun h => absurd (Option.some.inj h) (by decide)
    have ih := fieldsAt_raw_iff k x xs n rest r (by rw [List.length_cons] at hn; omega)
    rw [List.cons_append,valueAt,if_neg (by decide),if_neg (by decide),if_pos rfl,hb,if_neg hh,
      cleanJson,← ih,Option.map_eq_some_iff]
    constructor
    · rintro ⟨⟨ys,u⟩,hy,he⟩
      have h1 : ys=(k,x)::xs := Json.obj.inj (congrArg Prod.fst he)
      have h2 : u=r := congrArg Prod.snd he
      rw [hy,h1,h2]
    · exact fun h => ⟨_,h,rfl⟩
theorem itemsAt_raw_iff : ∀ (x : Json) (xs : List Json) (n : Nat) (rest r : List Char),
    (rawItems (x::xs)).length < n →
    (itemsAt n (rawItems (x::xs)++rest)=some (x::xs,r) ↔ cleanItems (x::xs)=true ∧ r=rest)
  | x,xs,0,rest,r,hn => absurd hn (Nat.not_lt_zero _)
  | x,[],n+1,rest,r,hn => by
    rw [rawItems_one,List.length_append] at hn
    exact itemsAt_one_iff fun u =>
      valueAt_raw_iff x n (']'::rest) u (by simpa using hn) (delimited_cons _ _ (by decide))
  | x,y::ys,n+1,rest,r,hn => by
    rw [rawItems_more,List.length_append,List.length_cons] at hn
    refine itemsAt_more_iff (fun tail u => ?_) ?_
    · exact valueAt_raw_iff x n (','::tail) u (by omega) (delimited_cons _ _ (by decide))
    · exact itemsAt_raw_iff y ys n rest r (by omega)
theorem fieldsAt_raw_iff : ∀ (k : String) (x : Json) (xs : List (String × Json)) (n : Nat)
    (rest r : List Char), (rawFields ((k,x)::xs)).length < n →
    (fieldsAt n (rawFields ((k,x)::xs)++rest)=some ((k,x)::xs,r) ↔
      cleanFields ((k,x)::xs)=true ∧ r=rest)
  | k,x,xs,0,rest,r,hn => absurd hn (Nat.not_lt_zero _)
  | k,x,[],n+1,rest,r,hn => by
    rw [rawFields_one] at hn
    simp only [List.length_cons,List.length_append] at hn
    exact fieldsAt_one_iff fun u =>
      valueAt_raw_iff x n ('\x7d'::rest) u (by omega) (delimited_cons _ _ (by decide))
  | k,x,(k',y)::ys,n+1,rest,r,hn => by
    rw [rawFields_more] at hn
    simp only [List.length_cons,List.length_append] at hn
    refine fieldsAt_more_iff (fun tail u => ?_) ?_
    · exact valueAt_raw_iff x n (','::tail) u (by omega) (delimited_cons _ _ (by decide))
    · exact fieldsAt_raw_iff k' y ys n rest r (by omega)
end

theorem loads_raw_iff (v : Json) : loads (rawText v)=some v ↔ cleanJson v=true := by
  have hb : blanks (rawText v)=rawText v := by
    have h := blanks_rawText v []
    rwa [List.append_nil] at h
  have ih := fun r => valueAt_raw_iff v ((rawText v).length+1) [] r (Nat.lt_succ_self _)
    (fun _ h => by cases h)
  rw [List.append_nil] at ih
  rw [loads,hb]
  constructor
  · intro h
    obtain ⟨⟨w,r⟩,hw,h⟩ := Option.bind_eq_some_iff.mp h
    split at h
    · obtain rfl : w=v := Option.some.inj h
      exact ((ih r).mp hw).1
    · cases h
  · intro h
    rw [(ih []).mpr ⟨h,rfl⟩]
    rfl

end Lib.Python
