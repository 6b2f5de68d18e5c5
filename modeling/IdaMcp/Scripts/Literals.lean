import IdaMcp.Scripts.Idat

/-!
# The literals of the idat scripts

What Python reads between the quotes of each kind of literal: a name or query
between single quotes, a path in a raw literal, a list of addresses as JSON
between three single quotes.
-/

namespace Scripts
open Lib (Json Piece Tame tame_pieces getLast_itemPieces text_no_cr)
open Lib.Python
variable (c : Char)
variable (p : Piece)

def escapeOne (c : Char) : List Char :=
  if c = '\\' then ['\\','\\']
  else if c = '"' then ['\\','"']
  else if c = '\n' then ['\\','n']
  else if c = '\r' then ['\\','r']
  else [c]

theorem escapePythonString_eq (s : String) :
    escapePythonString s=s.toList.flatMap escapeOne := by
  simp only [escapePythonString,replaceChar,List.flatMap_assoc]
  congr 1
  funext c
  by_cases h1 : c = '\\'
  · subst h1
    rfl
  by_cases h2 : c = '"'
  · subst h2
    rfl
  by_cases h3 : c = '\n'
  · subst h3
    rfl
  by_cases h4 : c = '\r'
  · subst h4
    rfl
  simp [escapeOne,h1,h2,h3,h4]

/-- The characters that `escape_python_string` changes. -/
def isSpecial (c : Char) : Bool := c == '\\' || c == '"' || c == '\n' || c == '\r'

theorem escapeOne_special (h : isSpecial c=true) :
    ∃ d,escapeOne c=['\\',d] ∧ d ≠ '\x00' ∧ d ≠ '\r' ∧ StandsFor ['\\',d] c := by
  simp only [isSpecial,Bool.or_eq_true,beq_iff_eq] at h
  rcases h with ((rfl | rfl) | rfl) | rfl
  · exact ⟨'\\',rfl,by decide,by decide,.escape ['\\'] _ fun _ => rfl⟩
  · exact ⟨'"',rfl,by decide,by decide,.escape ['"'] _ fun _ => rfl⟩
  · exact ⟨'n',rfl,by decide,by decide,.escape ['n'] _ fun _ => rfl⟩
  · exact ⟨'r',rfl,by decide,by decide,.escape ['r'] _ fun _ => rfl⟩

theorem isSpecial_false (h : isSpecial c=false) : c ≠ '\\' ∧ c ≠ '"' ∧ c ≠ '\n' ∧ c ≠ '\r' := by
  refine ⟨?_,?_,?_,?_⟩ <;> rintro rfl <;> exact absurd h (by decide)

theorem escapeOne_plain (h : isSpecial c=false) : escapeOne c=[c] := by
  obtain ⟨h1,h2,h3,h4⟩ := isSpecial_false c h
  simp [escapeOne,h1,h2,h3,h4]

theorem escapeOne_standsFor : StandsFor (escapeOne c) c := by
  cases h : isSpecial c with
  | true =>
    obtain ⟨d,hd,_,_,hs⟩ := escapeOne_special c h
    rw [hd]
    exact hs
  | false =>
    rw [escapeOne_plain c h]
    exact .plain c (isSpecial_false c h).1

theorem unescape_escapePythonString (s : String) :
    unescape (escapePythonString s)=some s.toList := by
  rw [escapePythonString_eq,unescape_flatMap escapeOne id _ fun c _ => escapeOne_standsFor c,
    List.map_id]

theorem escapePythonString_no_cr (s : String) : '\r' ∉ escapePythonString s := by
  rw [escapePythonString_eq]
  intro h
  obtain ⟨c,_,hc⟩ := List.mem_flatMap.mp h
  cases hs : isSpecial c with
  | true =>
    obtain ⟨d,hd,_,hr,_⟩ := escapeOne_special c hs
    rw [hd] at hc
    simp only [List.mem_cons,List.not_mem_nil,or_false] at hc
    rcases hc with hc | hc
    · exact absurd hc (by decide)
    · exact hr hc.symm
  | false =>
    rw [escapeOne_plain c hs,List.mem_singleton] at hc
    exact (isSpecial_false c hs).2.2.2 hc.symm

theorem newlines_escapePythonString (s : String) :
    newlines (escapePythonString s)=escapePythonString s :=
  newlines_of_not_mem _ (escapePythonString_no_cr s)

/-- Text without NUL characters. -/
def NulFree (s : String) : Prop := '\x00' ∉ s.toList

instance (s : String) : Decidable (NulFree s) := inferInstanceAs (Decidable ('\x00' ∉ s.toList))

theorem unbroken_escape_iff (q : Char) (hq : isSpecial q=false) (cs : List Char)
    (h0 : '\x00' ∉ cs) : unbroken q (cs.flatMap escapeOne)=true ↔ q ∉ cs := by
  induction cs with
  | nil => simp [unbroken]
  | cons c cs ih =>
    obtain ⟨hc0,hcs⟩ := List.ne_and_not_mem_of_not_mem_cons h0
    rw [List.flatMap_cons]
    cases hs : isSpecial c with
    | true =>
      obtain ⟨d,hd,hd0,_,_⟩ := escapeOne_special c hs
      have hne : q ≠ c := by
        rintro rfl
        exact absurd hs (by rw [hq]; decide)
      rw [hd,List.cons_append,List.singleton_append,unbroken_escape]
      simp [hd0,ih hcs,hne]
    | false =>
      obtain ⟨h1,_,h3,_⟩ := isSpecial_false c hs
      rw [escapeOne_plain c hs,List.singleton_append,unbroken_cons _ _ _ h1]
      simp only [Bool.and_eq_true,bne_iff_ne,List.mem_cons,not_or,ih hcs]
      constructor
      · rintro ⟨⟨⟨_,hcq⟩,_⟩,h⟩
        exact ⟨hcq.symm,h⟩
      · rintro ⟨hqc,h⟩
        exact ⟨⟨⟨hc0.symm,fun hcq => hqc hcq.symm⟩,h3⟩,h⟩

theorem unbroken_escape_double (cs : List Char) (h0 : '\x00' ∉ cs) :
    unbroken '"' (cs.flatMap escapeOne)=true := by
  induction cs with
  | nil => rfl
  | cons c cs ih =>
    obtain ⟨hc0,hcs⟩ := List.ne_and_not_mem_of_not_mem_cons h0
    rw [List.flatMap_cons]
    cases hs : isSpecial c with
    | true =>
      obtain ⟨d,hd,hd0,_,_⟩ := escapeOne_special c hs
      rw [hd,List.cons_append,List.singleton_append,unbroken_escape]
      simp [hd0,ih hcs]
    | false =>
      obtain ⟨h1,h2,h3,_⟩ := isSpecial_false c hs
      rw [escapeOne_plain c hs,List.singleton_append,unbroken_cons _ _ _ h1]
      simp [hc0.symm,h2,h3,ih hcs]

theorem escape_eq_self_iff (cs : List Char) :
    cs.flatMap escapeOne=cs ↔ ∀ c ∈ cs,isSpecial c=false := by
  have hle : ∀ ds : List Char,ds.length ≤ (ds.flatMap escapeOne).length := by
    intro ds
    induction ds with
    | nil => exact Nat.le_refl _
    | cons d ds ih =>
      have h1 : 1 ≤ (escapeOne d).length := by
        unfold escapeOne
        split_ifs <;> simp
      rw [List.flatMap_cons,List.length_append,List.length_cons]
      omega
  induction cs with
  | nil => simp
  | cons c cs ih =>
    rw [List.flatMap_cons,List.forall_mem_cons]
    cases hs : isSpecial c with
    | true =>
      obtain ⟨d,hd,_⟩ := escapeOne_special c hs
      refine ⟨fun h => ?_,fun h => absurd h.1 (by decide)⟩
      have hl := congrArg List.length h
      rw [hd,List.length_append,List.length_cons,List.length_cons,List.length_cons] at hl
      have := hle cs
      simp only [List.length_nil] at hl
      omega
    | false =>
      rw [escapeOne_plain c hs,List.singleton_append,List.cons.injEq]
      exact ⟨fun h => ⟨rfl,ih.mp h.2⟩,fun h => ⟨rfl,ih.mpr h.2⟩⟩

theorem quoted_iff (s : String) (h0 : NulFree s) :
    (quoted s).Good ↔ '\'' ∉ s.toList := by
  have hin : newlines (quoted s).inner=escapePythonString s := newlines_escapePythonString s
  have hm : (quoted s).Means (newlines (quoted s).inner) := by
    rw [hin]
    exact (value_plain '\'' _).trans (unescape_escapePythonString s)
  have hw : (quoted s).Whole ↔ unbroken '\'' (escapePythonString s)=true := by
    rw [Slot.Whole,hin]
    exact ⟨fun h => h rfl,fun h _ => h⟩
  rw [Slot.Good,hw,escapePythonString_eq,unbroken_escape_iff '\'' rfl _ h0]
  exact ⟨fun h => h.1,fun h => ⟨h,hm⟩⟩

theorem rawPath_whole (path : String) (h0 : NulFree path) : (rawPath path).Whole := by
  intro _
  have hin : newlines (rawPath path).inner=escapePythonString path :=
    newlines_escapePythonString path
  rw [hin,escapePythonString_eq]
  exact unbroken_escape_double _ h0

theorem rawPath_iff (path : String) (h0 : NulFree path) :
    (rawPath path).Good ↔ ∀ c ∈ path.toList,isSpecial c=false := by
  have hin : newlines (rawPath path).inner=escapePythonString path :=
    newlines_escapePythonString path
  have hm : (rawPath path).Means (newlines (rawPath path).inner) ↔
      escapePythonString path=path.toList := by
    rw [hin]
    exact Option.some_inj
  rw [Slot.Good,hm,escapePythonString_eq,escape_eq_self_iff]
  exact ⟨fun h => h.2,fun h => ⟨rawPath_whole path h0,h⟩⟩

/-- The text `u` stays inside of a long literal and stands for `vs`. -/
structure Reads (f : Form) (u vs : List Char) : Prop where
  inside : Sealed f u
  value : ∀ rest,unescape (u++rest)=(unescape rest).map (vs++·)

theorem Reads.nil (f : Form) : Reads f [] [] := ⟨.nil f,fun rest => by simp⟩

theorem Reads.append {f : Form} {u v us vs : List Char} (hu : Reads f u us) (hv : Reads f v vs) :
    Reads f (u++v) (us++vs) := by
  refine ⟨hu.inside.append hv.inside,fun rest => ?_⟩
  rw [List.append_assoc,hu.value,hv.value,Option.map_map]
  congr 1
  funext w
  exact (List.append_assoc us vs w).symm

theorem Reads.of_standsFor {f : Form} {u : List Char} {c : Char} (hs : Sealed f u)
    (hv : StandsFor u c) : Reads f u [c] := ⟨hs,hv⟩

def quoteForm : Form := (Form.ofWord [] '\'').long

theorem digitChar_facts (n : Nat) (h : n < 32) :
    hexNumber? ['0','0',Nat.digitChar (n/16),Nat.digitChar (n%16)]=some n ∧
      Nat.digitChar (n/16) ≠ '\'' ∧ Nat.digitChar (n%16) ≠ '\'' ∧
      Nat.digitChar (n/16) ≠ '\\' ∧ Nat.digitChar (n%16) ≠ '\\' ∧
      Nat.digitChar (n/16) ≠ '\x00' ∧ Nat.digitChar (n%16) ≠ '\x00' := by
  revert n
  decide

theorem reads_plain (hb : c ≠ '\\') (hq : c ≠ '\'') (h0 : ¬c.toNat < 32) :
    Reads quoteForm [c] [c] := by
  have hn : c ≠ '\x00' := by
    rintro rfl
    exact h0 (by decide)
  exact .of_standsFor (.plain _ rfl c hn hb hq) (.plain c hb)

theorem reads_escape (d c : Char) (hd : d ≠ '\x00') (h : StandsFor ['\\',d] c) :
    Reads quoteForm ['\\',d] [c] := .of_standsFor (.escape _ d hd) h

theorem scalar_toNat : scalar? c.toNat=some c := by
  have hv : c.toNat.isValidChar := c.valid
  rw [scalar?,if_pos hv,Char.ofNat_toNat]

theorem reads_control (h : c.toNat < 32) : Reads quoteForm
      ['\\','u','0','0',Nat.digitChar (c.toNat/16),Nat.digitChar (c.toNat%16)] [c] := by
  obtain ⟨hn,hq1,hq2,hb1,hb2,h01,h02⟩ := digitChar_facts c.toNat h
  refine .of_standsFor ?_ ?_
  · have hu : Sealed quoteForm ['\\','u'] := .escape _ 'u' (by decide)
    have hz : Sealed quoteForm ['0'] := .plain _ rfl '0' (by decide) (by decide) (by decide)
    exact hu.append (hz.append (hz.append
      ((Sealed.plain _ rfl _ h01 hb1 hq1).append (Sealed.plain _ rfl _ h02 hb2 hq2))))
  · refine .escape ['u','0','0',Nat.digitChar (c.toNat/16),Nat.digitChar (c.toNat%16)] c
      fun rest => ?_
    have hx : hexEscape 4 (['0','0',Nat.digitChar (c.toNat/16),
        Nat.digitChar (c.toNat%16)]++rest)=some ([c],5) := by
      simp only [hexEscape,List.cons_append,List.nil_append,List.take_succ_cons,List.take_zero,
        List.length_cons,List.length_nil,if_true,hn,Option.bind_some,scalar_toNat]
      rfl
    exact hx

theorem reads_piece (ht : Tame p) (hq : p.value ≠ '\'') : Reads quoteForm p.text [p.value] := by
  cases p with
  | plain c => exact reads_plain c ht.1 hq ht.2.2
  | content c =>
    show Reads quoteForm (Lib.escapeChar c) [c]
    unfold Lib.escapeChar
    split_ifs with h1 h2 h3 h4 h5 h6 h7 h8
    · exact h1 ▸ reads_escape '"' '"' (by decide) (.escape ['"'] _ fun _ => rfl)
    · exact h2 ▸ reads_escape '\\' '\\' (by decide) (.escape ['\\'] _ fun _ => rfl)
    · exact h3 ▸ reads_escape 'b' '\x08' (by decide) (.escape ['b'] _ fun _ => rfl)
    · exact h4 ▸ reads_escape 'f' '\x0c' (by decide) (.escape ['f'] _ fun _ => rfl)
    · exact h5 ▸ reads_escape 'n' '\n' (by decide) (.escape ['n'] _ fun _ => rfl)
    · exact h6 ▸ reads_escape 'r' '\r' (by decide) (.escape ['r'] _ fun _ => rfl)
    · exact h7 ▸ reads_escape 't' '\t' (by decide) (.escape ['t'] _ fun _ => rfl)
    · exact reads_control c h8
    · exact reads_plain c h2 hq h8

theorem guardQuotes_cons (cs : List Char) (h : c ≠ '\'') :
    guardQuotes (c::cs)=c::guardQuotes cs := by
  rw [guardQuotes.eq_2]
  rintro _ rfl
  exact absurd rfl h

theorem guardQuotes_append (u t : List Char) (h : '\'' ∉ u) :
    guardQuotes (u++t)=u++guardQuotes t := by
  induction u with
  | nil => rfl
  | cons c cs ih =>
    obtain ⟨hc,hcs⟩ := List.ne_and_not_mem_of_not_mem_cons h
    rw [List.cons_append,guardQuotes_cons c _ hc.symm,ih hcs]
    rfl

theorem guardQuotes_quote (t : List Char) (h : ∀ cs,t ≠ '\'' :: '\''::cs) :
    guardQuotes ('\''::t) = '\''::guardQuotes t := by
  rw [guardQuotes.eq_2]
  rintro cs _ rfl
  exact h cs rfl

theorem mem_guardQuotes (t : List Char) (c : Char) (h : c ∈ guardQuotes t) :
    c ∈ t ∨ c = '\\' ∨ c = '\'' := by
  induction t using guardQuotes.induct with
  | case1 cs ih =>
    simp only [guardQuotes,List.mem_append,List.mem_cons,List.not_mem_nil,or_false] at h
    rcases h with h | h
    · rcases h with h | h | h | h | h | h <;> simp [h]
    · rcases ih h with h | h
      · exact .inl (by simp [h])
      · exact .inr h
  | case2 d cs hd ih =>
    rw [guardQuotes.eq_2 d cs hd] at h
    rcases List.mem_cons.mp h with h | h
    · exact .inl (by simp [h])
    · rcases ih h with h | h
      · exact .inl (by simp [h])
      · exact .inr h
  | case3 => exact absurd h List.not_mem_nil

theorem quote_text (h : p.value = '\'') : p.text=['\''] := by
  cases p with
  | plain c =>
    obtain rfl : c = '\'' := h
    rfl
  | content c =>
    obtain rfl : c = '\'' := h
    decide

theorem text_no_quote (h : p.value ≠ '\'') : '\'' ∉ p.text := by
  cases p with
  | plain c => exact fun hc => h (List.mem_singleton.mp hc).symm
  | content c =>
    show '\'' ∉ Lib.escapeChar c
    unfold Lib.escapeChar
    split_ifs with h1 h2 h3 h4 h5 h6 h7 h8
    · decide
    · decide
    · decide
    · decide
    · decide
    · decide
    · decide
    · obtain ⟨_,hq1,hq2,_⟩ := digitChar_facts c.toNat h8
      simp [hq1.symm,hq2.symm]
    · exact fun hc => h (List.mem_singleton.mp hc).symm

theorem text_cons (h : p.value ≠ '\'') : ∃ c cs,p.text=c::cs ∧ c ≠ '\'' := by
  have hq := text_no_quote p h
  cases ht : p.text with
  | nil =>
    cases p with
    | plain c => cases ht
    | content c =>
      have hne : Lib.escapeChar c ≠ [] := by
        unfold Lib.escapeChar
        split_ifs <;> simp
      exact absurd ht hne
  | cons c cs =>
    rw [ht] at hq
    exact ⟨c,cs,rfl,fun hc => hq (by rw [hc]; exact List.mem_cons_self)⟩

theorem reads_quote_piece (ht : Tame p) (h : p.value ≠ '\'') :
    Reads quoteForm ('\''::p.text) ['\'',p.value] := by
  have hp := reads_piece p ht h
  obtain ⟨c,cs,hc,hne⟩ := text_cons p h
  refine ⟨?_,fun rest => ?_⟩
  · have hs := hp.inside
    rw [hc] at hs ⊢
    exact hs.quote rfl (.inr rfl) hne
  · rw [List.cons_append,unescape_plain _ _ (by decide),hp.value,Option.map_map]
    rfl

theorem reads_quotes_piece (ht : Tame p) (h : p.value ≠ '\'') :
    Reads quoteForm ('\'' :: '\''::p.text) ['\'','\'',p.value] := by
  have hp := reads_piece p ht h
  obtain ⟨c,cs,hc,hne⟩ := text_cons p h
  refine ⟨?_,fun rest => ?_⟩
  · have hs := hp.inside
    rw [hc] at hs ⊢
    exact hs.quotes rfl (.inr rfl) hne
  · rw [List.cons_append,unescape_plain _ _ (by decide),List.cons_append,
      unescape_plain _ _ (by decide),hp.value,Option.map_map,Option.map_map]
    rfl

theorem reads_three_quotes :
    Reads quoteForm ['\\','\'','\\','\'','\\','\''] ['\'','\'','\''] := by
  have h : Reads quoteForm ['\\','\''] ['\''] :=
    reads_escape '\'' '\'' (by decide) (.escape ['\''] _ fun _ => rfl)
  exact h.append (h.append h)

theorem reads_guarded : ∀ ps : List Piece,(∀ p ∈ ps,Tame p) →
    (∀ p,ps.getLast?=some p → p.value ≠ '\'') →
    Reads quoteForm (guardQuotes (ps.flatMap Piece.text)) (ps.map Piece.value)
  | [],_,_ => .nil _
  | p::ps,ht,hl => by
    have hps : ∀ p' ∈ ps,Tame p' := fun p' hp' => ht p' (List.mem_cons_of_mem _ hp')
    have hlast : ∀ q,ps.getLast?=some q → q.value ≠ '\'' := by
      intro q hq
      apply hl
      rw [List.getLast?_cons,hq]
      rfl
    by_cases hp : p.value = '\''
    · match ps,hps,hlast with
      | [],_,_ => exact absurd hp (hl p rfl)
      | p2::ps2,hps,hlast =>
        have ht2 : Tame p2 := hps p2 List.mem_cons_self
        by_cases hp2 : p2.value = '\''
        · match ps2,hps,hlast with
          | [],_,hlast => exact absurd hp2 (hlast p2 rfl)
          | p3::ps3,hps,hlast =>
            have ht3 : Tame p3 := hps p3 (by simp)
            have hps3 : ∀ p' ∈ ps3,Tame p' := fun p' hp' => hps p' (by simp [hp'])
            have hlast3 : ∀ q,ps3.getLast?=some q → q.value ≠ '\'' := by
              intro q hq
              apply hlast
              rw [List.getLast?_cons,List.getLast?_cons,hq]
              rfl
            have ih := reads_guarded ps3 hps3 hlast3
            simp only [List.flatMap_cons,List.map_cons,quote_text p hp,quote_text p2 hp2,hp,hp2,
              List.singleton_append]
            by_cases hp3 : p3.value = '\''
            · simp only [quote_text p3 hp3,hp3,List.singleton_append]
              exact reads_three_quotes.append ih
            · obtain ⟨c,cs,hc,hne⟩ := text_cons p3 hp3
              have hno : ∀ l : List Char,∀ cs',p3.text++l ≠ '\''::cs' := by
                intro l cs' h
                rw [hc] at h
                exact hne (List.cons.inj h).1
              rw [guardQuotes_quote _ fun cs' h => hno _ _ (List.cons.inj h).2,
                guardQuotes_quote _ fun cs' h => hno _ _ h,
                guardQuotes_append _ _ (text_no_quote p3 hp3)]
              exact (reads_quotes_piece p3 ht3 hp3).append ih
        · have hps2 : ∀ p' ∈ ps2,Tame p' := fun p' hp' => hps p' (List.mem_cons_of_mem _ hp')
          have hlast2 : ∀ q,ps2.getLast?=some q → q.value ≠ '\'' := by
            intro q hq
            apply hlast
            rw [List.getLast?_cons,hq]
            rfl
          have ih := reads_guarded ps2 hps2 hlast2
          obtain ⟨c,cs,hc,hne⟩ := text_cons p2 hp2
          simp only [List.flatMap_cons,List.map_cons,quote_text p hp,hp,List.singleton_append]
          rw [guardQuotes_quote _ fun cs' h => hne (by rw [hc] at h; exact (List.cons.inj h).1),
            guardQuotes_append _ _ (text_no_quote p2 hp2)]
          exact (reads_quote_piece p2 ht2 hp2).append ih
    · have ih := reads_guarded ps hps hlast
      rw [List.flatMap_cons,guardQuotes_append _ _ (text_no_quote p hp)]
      exact (reads_piece p (ht p List.mem_cons_self) hp).append ih
termination_by ps => ps.length

theorem reads_addressList (addrs : List Json) :
    Reads quoteForm (addressList addrs).inner (rawText (.arr addrs)) := by
  have hp : (Json.arr addrs).pieces=.plain '['::Lib.itemPieces addrs := by rw [Json.pieces]
  refine reads_guarded _ (tame_pieces _) fun p h => ?_
  rw [hp,List.getLast?_cons,getLast_itemPieces] at h
  obtain rfl := Option.some.inj h
  decide

theorem newlines_addressList (addrs : List Json) :
    newlines (addressList addrs).inner=(addressList addrs).inner := by
  refine newlines_of_not_mem _ fun h => ?_
  rcases mem_guardQuotes _ _ h with h | h | h
  · obtain ⟨p,hp,hc⟩ := List.mem_flatMap.mp h
    exact text_no_cr p (tame_pieces _ p hp) hc
  · exact absurd h (by decide)
  · exact absurd h (by decide)

theorem addressList_iff (addrs : List Json) :
    (addressList addrs).Good ↔ cleanItems addrs=true := by
  have hv : unescape (addressList addrs).inner=some (rawText (.arr addrs)) := by
    have h := (reads_addressList addrs).value []
    rw [List.append_nil] at h
    rw [h]
    simp [unescape,unescapeFrom]
  have hm : (addressList addrs).Means (newlines (addressList addrs).inner) ↔
      loads (rawText (.arr addrs))=some (.arr addrs) := by
    rw [newlines_addressList]
    show (unescape (addressList addrs).inner).bind loads=some (.arr addrs) ↔ _
    rw [hv,Option.bind_some]
  have hw : (addressList addrs).Whole := fun h => Bool.noConfusion h
  rw [Slot.Good,hm,loads_raw_iff,cleanJson]
  exact ⟨fun h => h.2,fun h => ⟨hw,h⟩⟩

end Scripts
