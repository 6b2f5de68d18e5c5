import IdaMcp.Lib.Python.Lexer

/-!
# The value of a Python string literal

What the body of a literal stands for, escape by escape. A named character
(`\N`) is given no value, nor is a code point that is no Unicode scalar value.
-/

namespace Lib.Python

def hexDigit? (c : Char) : Option Nat :=
  if c.isDigit then some (c.toNat-48)
  else if 'a' ≤ c ∧ c ≤ 'f' then some (c.toNat-87)
  else if 'A' ≤ c ∧ c ≤ 'F' then some (c.toNat-55)
  else none

/-- The number that hexadecimal digits write. -/
def hexNumber? (digits : List Char) : Option Nat :=
  digits.foldlM (fun n c => (hexDigit? c).map (16*n+·)) 0

def scalar? (n : Nat) : Option Char := if n.isValidChar then some (Char.ofNat n) else none

def isOctal (c : Char) : Bool := '0' ≤ c && c ≤ '7'

/-- Escapes of one character that stand for another one. -/
def controls : List (Char × Char) :=
  [('a','\x07'),('b','\x08'),('f','\x0c'),('n','\n'),('r','\r'),('t','\t'),('v','\x0b')]

/-- The escape with `k` hexadecimal digits behind its letter. -/
def hexEscape (k : Nat) (cs : List Char) : Option (List Char × Nat) :=
  if (cs.take k).length=k then
    ((hexNumber? (cs.take k)).bind scalar?).map fun ch => ([ch],k+1)
  else none

/-- What stands behind a backslash: the characters it gives, and how many of
the text it takes. An escape that is none stays as it is. -/
def escapeAt : List Char → Option (List Char × Nat)
  | [] => none
  | c::cs =>
    if c = '\n' then some ([],1)
    else if c = '\\' ∨ c = '\'' ∨ c = '"' then some ([c],1)
    else if isOctal c then
      let digits := ((c::cs).take 3).takeWhile isOctal
      (scalar? (digits.foldl (fun n d => 8*n+(d.toNat-48)) 0)).map fun ch => ([ch],digits.length)
    else if c = 'x' then hexEscape 2 cs
    else if c = 'u' then hexEscape 4 cs
    else if c = 'U' then hexEscape 8 cs
    else if c = 'N' then none
    else match controls.lookup c with
      | some d => some ([d],1)
      | none => some (['\\',c],1)

def unescapeFrom : Nat → List Char → Option (List Char)
  | _,[] => some []
  | k+1,_::cs => unescapeFrom k cs
  | 0,c::cs =>
    if c = '\\' then (escapeAt cs).bind fun e => (unescapeFrom e.2 cs).map (e.1++·)
    else (unescapeFrom 0 cs).map (c::·)

def unescape (body : List Char) : Option (List Char) := unescapeFrom 0 body

/-- The value of a literal that is a plain string. -/
def Form.value? (f : Form) (body : List Char) : Option (List Char) :=
  if f.bytes || f.formatted then none else if f.raw then some body else unescape body

theorem value_plain (q : Char) (body : List Char) :
    (Form.ofWord [] q).value? body=unescape body := by
  have hb : (Form.ofWord [] q).bytes=false := rfl
  have hf : (Form.ofWord [] q).formatted=false := rfl
  have hr : (Form.ofWord [] q).raw=false := rfl
  rw [Form.value?,hb,hf,hr]
  rfl

theorem unescape_plain (c : Char) (cs : List Char) (h : c ≠ '\\') :
    unescape (c::cs)=(unescape cs).map (c::·) := by
  simp only [unescape,unescapeFrom,if_neg h]

theorem unescapeFrom_append (u rest : List Char) :
    unescapeFrom u.length (u++rest)=unescape rest := by
  induction u with
  | nil => rfl
  | cons c cs ih => exact ih

/-- The text `u` stands for the one character `c`, whatever comes next. -/
def StandsFor (u : List Char) (c : Char) : Prop :=
  ∀ rest,unescape (u++rest)=(unescape rest).map (c::·)

theorem StandsFor.plain (c : Char) (h : c ≠ '\\') : StandsFor [c] c :=
  fun rest => unescape_plain c rest h

theorem StandsFor.escape (u : List Char) (c : Char)
    (h : ∀ rest,escapeAt (u++rest)=some ([c],u.length)) : StandsFor ('\\'::u) c := by
  intro rest
  have hu := unescapeFrom_append u rest
  simp only [unescape] at hu ⊢
  rw [List.cons_append,unescapeFrom,if_pos rfl,h,Option.bind_some]
  simp only [hu]
  rfl

theorem unescape_flatMap {α : Type} (text : α → List Char) (value : α → Char) (xs : List α)
    (h : ∀ x ∈ xs,StandsFor (text x) (value x)) :
    unescape (xs.flatMap text)=some (xs.map value) := by
  induction xs with
  | nil => rfl
  | cons x xs ih =>
    rw [List.flatMap_cons,h x List.mem_cons_self,
      ih fun y hy => h y (List.mem_cons_of_mem _ hy)]
    rfl

/-- The characters that make an escape with a backslash before them. -/
def isEscape (d : Char) : Bool :=
  d == '\n' || d == '\\' || d == '\'' || d == '"' || isOctal d || d == 'x' || d == 'u' ||
    d == 'U' || d == 'N' ||
    (controls.lookup d).isSome

theorem escapeAt_other (d : Char) (ds : List Char) (h : isEscape d=false) :
    escapeAt (d::ds)=some (['\\',d],1) := by
  simp only [isEscape,Bool.or_eq_false_iff,beq_eq_false_iff_ne] at h
  obtain ⟨⟨⟨⟨⟨⟨⟨⟨⟨h1,h2⟩,h3⟩,h4⟩,h5⟩,h6⟩,h7⟩,h8⟩,h9⟩,h10⟩ := h
  have hc : controls.lookup d=none := by
    cases hl : controls.lookup d with
    | none => rfl
    | some _ => rw [hl] at h10; cases h10
  simp [escapeAt,h1,h2,h3,h4,h5,h6,h7,h8,h9,hc]

theorem hexEscape_length {k : Nat} {cs e : List Char} {n : Nat}
    (h : hexEscape k cs=some (e,n)) : e.length ≤ 1 ∧ 1 ≤ n := by
  unfold hexEscape at h
  split at h
  · obtain ⟨ch,_,he⟩ := Option.map_eq_some_iff.mp h
    obtain ⟨rfl,rfl⟩ := Prod.mk.inj he
    exact ⟨Nat.le_refl 1,Nat.succ_pos k⟩
  · cases h

theorem escapeAt_length {d : Char} {ds e : List Char} {n : Nat} (hd : isEscape d=true)
    (h : escapeAt (d::ds)=some (e,n)) : e.length ≤ 1 ∧ 1 ≤ n := by
  rw [escapeAt] at h
  split at h
  · obtain ⟨rfl,rfl⟩ := Prod.mk.inj (Option.some.inj h)
    exact ⟨Nat.zero_le 1,Nat.le_refl 1⟩
  split at h
  · obtain ⟨rfl,rfl⟩ := Prod.mk.inj (Option.some.inj h)
    exact ⟨Nat.le_refl 1,Nat.le_refl 1⟩
  split at h
  · rename_i ho
    obtain ⟨ch,_,he⟩ := Option.map_eq_some_iff.mp h
    obtain ⟨rfl,rfl⟩ := Prod.mk.inj he
    refine ⟨Nat.le_refl 1,?_⟩
    rw [List.take_succ_cons,List.takeWhile_cons,if_pos ho]
    exact Nat.succ_pos _
  split at h
  · exact hexEscape_length h
  split at h
  · exact hexEscape_length h
  split at h
  · exact hexEscape_length h
  split at h
  · cases h
  split at h
  · obtain ⟨rfl,rfl⟩ := Prod.mk.inj (Option.some.inj h)
    exact ⟨Nat.le_refl 1,Nat.le_refl 1⟩
  · rename_i h1 h2 h3 h4 h5 h6 h7 _ hl
    simp only [not_or] at h2
    simp [isEscape,h1,h2,h3,h4,h5,h6,h7,hl] at hd

/-- Every backslash stands before a character it makes no escape with. -/
def inert : List Char → Bool
  | [] => true
  | '\\'::d::ds => !isEscape d && inert ds
  | c::cs => c != '\\' && inert cs

theorem inert_escape (d : Char) (ds : List Char) :
    inert ('\\'::d::ds)=(!isEscape d && inert ds) := rfl

theorem inert_cons (c : Char) (cs : List Char) (h : c ≠ '\\') : inert (c::cs)=inert cs := by
  have hb : (c != '\\')=true := bne_iff_ne.mpr h
  rw [inert.eq_3 c cs (fun _ _ h' _ => absurd h' h),hb,Bool.true_and]

theorem unescape_inert (a b : List Char) (h : inert a=true) :
    unescape (a++b)=(unescape b).map (a++·) := by
  induction a using inert.induct with
  | case1 => simp
  | case2 d ds ih =>
    simp only [inert_escape,Bool.and_eq_true,Bool.not_eq_true'] at h
    have hi := ih h.2
    have he := escapeAt_other d (ds++b) h.1
    simp only [unescape,List.cons_append] at hi ⊢
    rw [unescapeFrom,if_pos rfl,he,Option.bind_some]
    simp only [unescapeFrom]
    rw [hi,Option.map_map]
    rfl
  | case3 c cs hc ih =>
    by_cases hb : c = '\\'
    · subst hb
      cases cs with
      | nil => simp [inert] at h
      | cons d ds => exact absurd rfl (hc d ds rfl)
    · rw [inert_cons c cs hb] at h
      rw [List.cons_append,unescape_plain c _ hb,ih h,Option.map_map]
      rfl

theorem unescapeFrom_length (k : Nat) (t v : List Char) (h : unescapeFrom k t=some v) :
    v.length ≤ t.length := by
  induction hn : t.length using Nat.strongRecOn generalizing k t v with
  | ind n ih =>
    cases t with
    | nil =>
      have hv : v=[] := by cases k <;> exact (Option.some.inj h).symm
      rw [hv]
      exact Nat.zero_le n
    | cons c cs =>
      rw [List.length_cons] at hn
      cases k with
      | succ k =>
        have := ih cs.length (by omega) k cs v h rfl
        omega
      | zero =>
        rw [unescapeFrom] at h
        split at h
        · obtain ⟨⟨e,m⟩,he,h⟩ := Option.bind_eq_some_iff.mp h
          obtain ⟨v',hv',rfl⟩ := Option.map_eq_some_iff.mp h
          show (e++v').length ≤ n
          rw [List.length_append]
          cases cs with
          | nil => cases he
          | cons d ds =>
            rw [List.length_cons] at hn
            cases hd : isEscape d with
            | true =>
              have hl := escapeAt_length hd he
              have := ih (ds.length+1) (by omega) m (d::ds) v' hv' rfl
              omega
            | false =>
              rw [escapeAt_other d ds hd] at he
              obtain ⟨rfl,rfl⟩ := Prod.mk.inj (Option.some.inj he)
              have := ih ds.length (by omega) 0 ds v' hv' rfl
              simp only [List.length_cons,List.length_nil]
              omega
        · obtain ⟨v',hv',rfl⟩ := Option.map_eq_some_iff.mp h
          have := ih cs.length (by omega) 0 cs v' hv' rfl
          rw [List.length_cons]
          omega

inductive Chunk where
  | text : List Char → Chunk
  | field : List Char → Chunk
  deriving Repr,DecidableEq

def flush (read : List Char) : List Chunk := if read=[] then [] else [.text read.reverse]

/-- The texts and fields of a body; two braces in a row are one brace of the
text. A field ends at the next closing brace. -/
def chunksFrom : Option (List Char) → List Char → List Char → Option (List Chunk)
  | none,read,[] => some (flush read)
  | some _,_,[] => none
  | none,read,'\x7b' :: '\x7b'::cs => chunksFrom none ('\x7b'::read) cs
  | none,read,'\x7d' :: '\x7d'::cs => chunksFrom none ('\x7d'::read) cs
  | none,read,c::cs =>
    if c = '\x7b' then (chunksFrom (some []) [] cs).map (flush read++·)
    else if c = '\x7d' then none
    else chunksFrom none (c::read) cs
  | some e,read,c::cs =>
    if c = '\x7d' then (chunksFrom none [] cs).map (.field e.reverse::·)
    else chunksFrom (some (c::e)) read cs

def Chunk.value? : Chunk → Option Chunk
  | .text t => (unescape t).map .text
  | .field e => some (.field e)

/-- What the body of an f-string stands for. -/
def formatted? (body : List Char) : Option (List Chunk) :=
  (chunksFrom none [] body).bind fun cs => cs.mapM Chunk.value?

def isBrace (c : Char) : Bool := c == '\x7b' || c == '\x7d'

theorem chunksFrom_plain (read u rest : List Char) (h : ∀ c ∈ u,isBrace c=false) :
    chunksFrom none read (u++rest)=chunksFrom none (u.reverse++read) rest := by
  induction u generalizing read with
  | nil => rfl
  | cons c cs ih =>
    obtain ⟨hc,hcs⟩ := List.forall_mem_cons.mp h
    simp only [isBrace,Bool.or_eq_false_iff,beq_eq_false_iff_ne] at hc
    rw [List.cons_append,chunksFrom,if_neg hc.1,if_neg hc.2,ih _ hcs]
    · simp
    · rintro _ rfl _
      exact absurd rfl hc.1
    · rintro _ rfl _
      exact absurd rfl hc.2

theorem chunksFrom_open (read z : List Char) (hz : z.head? ≠ some '\x7b') :
    chunksFrom none read ('\x7b'::z)=(chunksFrom (some []) [] z).map (flush read++·) := by
  rw [chunksFrom,if_pos rfl]
  · rintro cs _ rfl
    exact hz rfl
  · exact fun _ h => absurd h (by decide)

theorem chunksFrom_field {e read z w : List Char} {cs : List Chunk} :
    chunksFrom (some e) read z ≠ some (.text w::cs) := by
  induction z generalizing e with
  | nil => exact fun h => by cases h
  | cons c z ih =>
    rw [chunksFrom]
    split
    · intro h
      obtain ⟨l,_,hl⟩ := Option.map_eq_some_iff.mp h
      cases hl
    · exact ih

theorem text_of_open {read z w : List Char} {cs : List Chunk}
    (h : (chunksFrom (some []) [] z).map (flush read++·)=some (.text w::cs)) :
    w.length=read.length := by
  obtain ⟨l,hl,he⟩ := Option.map_eq_some_iff.mp h
  unfold flush at he
  split at he
  · rw [List.nil_append] at he
    exact absurd (hl.trans (congrArg some he)) chunksFrom_field
  · rw [List.singleton_append,List.cons.injEq,Chunk.text.injEq] at he
    rw [← he.1,List.length_reverse]

theorem chunksFrom_text : ∀ (u read z w : List Char) (cs : List Chunk),
    (∀ x,u.getLast?=some x → isBrace x=false) → z.head? ≠ some '\x7b' →
    chunksFrom none read (u ++ '\x7b'::z)=some (.text w::cs) →
    w.length ≤ read.length+u.length ∧
      (w.length=read.length+u.length → ∀ c ∈ u,isBrace c=false)
  | [],read,z,w,cs,_,hz,h => by
    rw [List.nil_append,chunksFrom_open read z hz] at h
    have hl := text_of_open h
    exact ⟨by rw [hl]; exact Nat.le_refl _,fun _ c hc => absurd hc List.not_mem_nil⟩
  | [c],read,z,w,cs,hu,hz,h => by
    have hc : ∀ d ∈ [c],isBrace d=false := List.forall_mem_singleton.mpr (hu c rfl)
    rw [chunksFrom_plain read [c] _ hc,chunksFrom_open _ z hz] at h
    have hl := text_of_open h
    rw [List.length_append,List.length_reverse] at hl
    exact ⟨by omega,fun _ => hc⟩
  | c::d::u,read,z,w,cs,hu,hz,h => by
    have hlast : ∀ x,(d::u).getLast?=some x → isBrace x=false := by
      intro x hx
      apply hu
      rw [List.getLast?_cons,hx]
      rfl
    cases hb : isBrace c with
    | false =>
      rw [show c::d::u ++ '\x7b'::z=[c]++(d::u ++ '\x7b'::z) from rfl,
        chunksFrom_plain read [c] _ (List.forall_mem_singleton.mpr hb)] at h
      obtain ⟨hle,heq⟩ := chunksFrom_text (d::u) _ z w cs hlast hz h
      rw [List.length_append,List.length_reverse] at hle heq
      simp only [List.length_cons,List.length_nil] at hle heq ⊢
      refine ⟨by omega,fun he => List.forall_mem_cons.mpr ⟨hb,heq (by omega)⟩⟩
    | true =>
      simp only [isBrace,Bool.or_eq_true,beq_iff_eq] at hb
      have hlen : ∀ read',chunksFrom none read' (u ++ '\x7b'::z)=some (.text w::cs) →
          read'.length=read.length+1 → w.length < read.length+(c::d::u).length := by
        intro read' h' hr
        have hlast' : ∀ x,u.getLast?=some x → isBrace x=false := by
          intro x hx
          apply hlast
          rw [List.getLast?_cons,hx]
          rfl
        have := (chunksFrom_text u read' z w cs hlast' hz h').1
        simp only [List.length_cons]
        omega
      have hlt : w.length < read.length+(c::d::u).length := by
        rcases hb with rfl | rfl
        · by_cases hd : d = '\x7b'
          · subst hd
            exact hlen ('\x7b'::read) h rfl
          · have hne : (d::u ++ '\x7b'::z).head? ≠ some '\x7b' := fun hh => hd (Option.some.inj hh)
            rw [List.cons_append,chunksFrom_open read _ hne] at h
            have hl := text_of_open h
            simp only [List.length_cons]
            omega
        · by_cases hd : d = '\x7d'
          · subst hd
            exact hlen ('\x7d'::read) h rfl
          · rw [List.cons_append,List.cons_append,chunksFrom,if_neg (by decide),if_pos rfl] at h
            · cases h
            · exact fun _ hh _ => absurd hh (by decide)
            · rintro _ _ hh
              exact hd (List.cons.inj hh).1
      exact ⟨Nat.le_of_lt hlt,fun he => absurd he (Nat.ne_of_lt hlt)⟩

end Lib.Python
