import Mathlib.Data.List.Basic

/-!
# Reading Python source

What Python's lexical rules make of a text: line ends are unified first, then
the text falls into string literals and the characters outside of them. Names,
numbers and operators stay single characters, a comment leaves nothing. A
literal keeps its body as it is written; what an escape in it stands for is
the matter of `Lib.Python.Escape`.
-/

namespace Lib.Python
variable (word : List Char)

/-- CR and CR LF become LF. The flag says that the last character was a CR. -/
def unify (afterCR : Bool) : List Char → List Char
  | [] => []
  | c::cs =>
    if c = '\r' then '\n'::unify true cs
    else if afterCR ∧ c = '\n' then unify false cs
    else c::unify false cs

def newlines (text : List Char) : List Char := unify false text

theorem unify_append (k : Bool) (a : List Char) (c : Char) (b : List Char) (hc : c ≠ '\r') :
    unify k (a++c::b)=unify k (a++[c])++unify false b := by
  induction a generalizing k with
  | nil =>
    simp only [List.nil_append,unify,if_neg hc]
    split <;> rfl
  | cons d ds ih =>
    simp only [List.cons_append,unify]
    split
    · rw [ih,List.cons_append]
    · split
      · exact ih false
      · rw [ih,List.cons_append]

theorem newlines_append (a b : List Char) (h : a.getLast? ≠ some '\r') :
    newlines (a++b)=newlines a++newlines b := by
  rcases List.eq_nil_or_concat a with rfl | ⟨l,c,rfl⟩
  · rfl
  · rw [List.concat_eq_append] at h ⊢
    have hc : c ≠ '\r' := by simpa using h
    rw [List.append_assoc]
    exact unify_append false l c b hc

theorem unify_concat (k : Bool) (a : List Char) (c : Char) (h : c ≠ '\r') (hn : c ≠ '\n') :
    unify k (a++[c])=unify k a++[c] := by
  induction a generalizing k with
  | nil => simp [unify,h,hn]
  | cons d ds ih =>
    simp only [List.cons_append,unify]
    split_ifs <;> simp only [ih,List.cons_append]

theorem newlines_cons (c : Char) (cs : List Char) :
    ∃ cs',newlines (c::cs)=(if c = '\r' then '\n' else c)::cs' := by
  unfold newlines unify
  split_ifs with h h'
  · exact ⟨_,rfl⟩
  · exact absurd h'.1 (by decide)
  · exact ⟨_,rfl⟩

theorem unify_of_not_mem (text : List Char) (h : '\r' ∉ text) : unify false text=text := by
  induction text with
  | nil => rfl
  | cons c cs ih =>
    obtain ⟨hc,hcs⟩ := List.ne_and_not_mem_of_not_mem_cons h
    simp only [unify,if_neg hc.symm,Bool.false_eq_true,false_and,if_false,ih hcs]

theorem newlines_of_not_mem (text : List Char) (h : '\r' ∉ text) : newlines text=text :=
  unify_of_not_mem text h

/-- How a literal is written: its prefix letters, its quote, one quote or three. -/
structure Form where
  raw : Bool
  bytes : Bool
  formatted : Bool
  quote : Char
  triple : Bool
  deriving Repr,DecidableEq

/-- The word right before a quote is the literal's prefix if it is one. -/
def Form.ofWord (word : List Char) (quote : Char) : Form :=
  let w := word.map Char.toLower
  { raw := [['r'],['b','r'],['r','b'],['f','r'],['r','f']].contains w
    bytes := [['b'],['b','r'],['r','b']].contains w
    formatted := [['f'],['f','r'],['r','f']].contains w
    quote := quote
    triple := false }

variable (f : Form)

def Form.fence : List Char :=
  if f.triple then [f.quote,f.quote,f.quote] else [f.quote]

inductive Token where
  | char : Char → Token
  | literal : Form → List Char → Token
  deriving Repr,DecidableEq

/-- Where the reader stands. The text of a word or a body read so far is kept,
a body in reverse. -/
inductive Mode where
  | code (word : List Char)
  | comment
  /-- After one opening quote. -/
  | opened (f : Form)
  /-- After two quotes: an empty literal, or two of three opening quotes. -/
  | opening (f : Form)
  | body (f : Form) (read : List Char)
  | escape (f : Form) (read : List Char)
  /-- After one or two of the three closing quotes. -/
  | closing (f : Form) (read : List Char) (two : Bool)
  /-- The text is no Python source. -/
  | broken
  deriving Repr,DecidableEq

def isWordChar (c : Char) : Bool := c.isAlphanum || c == '_' || 128 ≤ c.toNat

def outside (word : List Char) (c : Char) : List Token × Mode :=
  if c = '#' then ([],.comment)
  else if c = '"' ∨ c = '\'' then ([],.opened (.ofWord word c))
  else ([.char c],.code (if isWordChar c then word++[c] else []))

def inside (read : List Char) (c : Char) : List Token × Mode :=
  if c = '\\' then ([],.escape f (c::read))
  else if c=f.quote then
    if f.triple then ([],.closing f read false) else ([.literal f read.reverse],.code [])
  else if c = '\n' ∧ ¬f.triple then ([],.broken)
  else ([],.body f (c::read))

def step (m : Mode) (c : Char) : List Token × Mode :=
  if c = '\x00' then ([],.broken) else
  match m with
  | .code word => outside word c
  | .comment => if c = '\n' then ([.char c],.code []) else ([],.comment)
  | .opened f => if c=f.quote then ([],.opening f) else inside f [] c
  | .opening f =>
    if c=f.quote then ([],.body { f with triple := true } [])
    else (.literal f []::(outside [] c).1,(outside [] c).2)
  | .body f read => inside f read c
  | .escape f read => ([],.body f (c::read))
  | .closing f read two =>
    if c=f.quote then
      if two then ([.literal f read.reverse],.code []) else ([],.closing f read true)
    else inside f (if two then f.quote::f.quote::read else f.quote::read) c
  | .broken => ([],.broken)

def run (m : Mode) : List Char → List Token × Mode
  | [] => ([],m)
  | c::cs => ((step m c).1++(run (step m c).2 cs).1,(run (step m c).2 cs).2)

/-- The tokens of a text, and where its end leaves the reader. -/
def tokens (text : List Char) : List Token × Mode := run (.code []) (newlines text)

theorem run_append (m : Mode) (a b : List Char) :
    run m (a++b)=((run m a).1++(run (run m a).2 b).1,(run (run m a).2 b).2) := by
  induction a generalizing m with
  | nil => rfl
  | cons c cs ih => simp only [List.cons_append,run,ih,List.append_assoc]

theorem run_broken (text : List Char) : run .broken text=([],.broken) := by
  induction text with
  | nil => rfl
  | cons c cs ih =>
    have hs : step .broken c=([],.broken) := by simp [step]
    simp only [run,hs,ih,List.append_nil]

/-- A character that neither joins a word nor opens anything ends every word. -/
def isBreak (c : Char) : Bool :=
  c != '\x00' && c != '#' && c != '"' && c != '\'' && !isWordChar c

theorem run_code_break (c : Char) (cs : List Char) (h : isBreak c=true) :
    run (.code word) (c::cs)=run (.code []) (c::cs) := by
  simp only [isBreak,Bool.and_eq_true,bne_iff_ne,ne_eq,Bool.not_eq_true'] at h
  obtain ⟨⟨⟨⟨h0,h1⟩,h2⟩,h3⟩,h4⟩ := h
  have hs : ∀ w,step (.code w) c=([.char c],.code []) := by
    intro w
    simp [step,outside,h0,h1,h2,h3,h4]
  simp only [run,hs]

theorem run_code_words (word text : List Char) (h : ∀ c ∈ text,isWordChar c=true)
    (h0 : '\x00' ∉ text) : ∃ ts,run (.code word) text=(ts,.code (word++text)) := by
  induction text generalizing word with
  | nil => exact ⟨[],by rw [List.append_nil]; rfl⟩
  | cons c cs ih =>
    obtain ⟨hn,hns⟩ := List.ne_and_not_mem_of_not_mem_cons h0
    have hw : isWordChar c=true := h c List.mem_cons_self
    have h1 : c ≠ '#' := by rintro rfl; exact absurd hw (by decide)
    have h2 : c ≠ '"' := by rintro rfl; exact absurd hw (by decide)
    have h3 : c ≠ '\'' := by rintro rfl; exact absurd hw (by decide)
    have hs : step (.code word) c=([.char c],.code (word++[c])) := by
      simp [step,outside,hn.symm,h1,h2,h3,hw]
    obtain ⟨ts,ht⟩ := ih (word++[c]) (fun d hd => h d (List.mem_cons_of_mem _ hd)) hns
    refine ⟨.char c::ts,?_⟩
    simp only [run,hs,ht,List.append_assoc,List.singleton_append]

def unbroken (q : Char) : List Char → Bool
  | [] => true
  | '\\'::d::ds => d != '\x00' && unbroken q ds
  | c::cs => c != '\x00' && c != '\\' && c != q && c != '\n' && unbroken q cs

theorem unbroken_escape (q d : Char) (ds : List Char) :
    unbroken q ('\\'::d::ds)=(d != '\x00' && unbroken q ds) := rfl

theorem unbroken_cons (q c : Char) (cs : List Char) (hc : c ≠ '\\') :
    unbroken q (c::cs)=(c != '\x00' && c != q && c != '\n' && unbroken q cs) := by
  have hb : (c != '\\')=true := bne_iff_ne.mpr hc
  rw [unbroken.eq_3 q c cs (fun _ _ h _ => absurd h hc),hb,Bool.and_true]

/-- What the reader needs to know of a literal's quote. -/
def Form.Quoted : Prop := f.quote = '"' ∨ f.quote = '\''

theorem Form.Quoted.not_backslash {f : Form} (h : f.Quoted) : f.quote ≠ '\\' := by
  rcases h with h | h <;> rw [h] <;> decide

theorem Form.Quoted.not_nul {f : Form} (h : f.Quoted) : f.quote ≠ '\x00' := by
  rcases h with h | h <;> rw [h] <;> decide

theorem step_escape (read : List Char) (d : Char) (h : d ≠ '\x00') :
    step (.escape f read) d=([],.body f (d::read)) := by
  simp [step,h]

theorem step_backslash (read : List Char) :
    step (.body f read) '\\'=([],.escape f ('\\'::read)) := by
  simp [step,inside]

theorem run_body_escape (read : List Char) (d : Char) (ds : List Char)
    (h : d ≠ '\x00') : run (.body f read) ('\\'::d::ds)=run (.body f (d :: '\\'::read)) ds := by
  simp only [run,step_backslash,step_escape f _ d h,List.nil_append]

theorem run_body_unbroken {f : Form} (text read : List Char) (h : unbroken f.quote text=true) :
    run (.body f read) text=([],.body f (text.reverse++read)) := by
  -- one step for a plain character, two for a backslash and what it guards
  induction text using unbroken.induct generalizing read with
  | case1 => rfl
  | case2 d ds ih =>
    simp only [unbroken_escape,Bool.and_eq_true,bne_iff_ne] at h
    rw [run_body_escape f read d ds h.1,ih _ h.2]
    simp
  | case3 c cs hc ih =>
    by_cases hb : c = '\\'
    · subst hb
      cases cs with
      | nil => simp [unbroken] at h
      | cons d ds => exact absurd rfl (hc d ds rfl)
    · simp only [unbroken_cons _ _ _ hb,Bool.and_eq_true,bne_iff_ne] at h
      obtain ⟨⟨⟨h0,hq⟩,hn⟩,hs⟩ := h
      have hstep : step (.body f read) c=([],.body f (c::read)) := by
        simp [step,inside,h0,hb,hq,hn]
      simp only [run,hstep,ih _ hs]
      simp

section Line
variable {f : Form} (hf : f.triple=false) (hq : f.Quoted)
include hf hq

theorem step_body_quote (read : List Char) :
    step (.body f read) f.quote=([.literal f read.reverse],.code []) := by
  simp [step,inside,hq.not_nul,hq.not_backslash,hf]

theorem run_body_line (body read post : List Char) (h : unbroken f.quote body=true) :
    run (.body f read) (body++f.quote::post)=
      (.literal f (read.reverse++body)::(run (.code []) post).1,(run (.code []) post).2) := by
  rw [run_append,run_body_unbroken body read h]
  simp [run,step_body_quote hf hq]

theorem literal_of_run_body (text read : List Char) (g : Form) (body : List Char)
    (ts : List Token) (m : Mode) (h : run (.body f read) text=(.literal g body::ts,m)) :
    ∃ u rest,text=u++f.quote::rest ∧ body=read.reverse++u ∧ unbroken f.quote u=true := by
  induction text using unbroken.induct generalizing read with
  | case1 => simp [run] at h
  | case2 d ds ih =>
    by_cases hd : d = '\x00'
    · subst hd
      have hs : step (.escape f ('\\'::read)) '\x00'=([],.broken) := by simp [step]
      simp only [run,step_backslash,hs,run_broken,List.nil_append] at h
      simp at h
    · rw [run_body_escape f read d ds hd] at h
      obtain ⟨u,rest,rfl,hb,hu⟩ := ih _ h
      refine ⟨'\\'::d::u,rest,rfl,?_,?_⟩
      · simpa using hb
      · simp [unbroken_escape,hd,hu]
  | case3 c cs hc ih =>
    by_cases hb : c = '\\'
    · subst hb
      cases cs with
      | nil => simp [run,step_backslash] at h
      | cons d ds => exact absurd rfl (hc d ds rfl)
    by_cases h0 : c = '\x00'
    · subst h0
      have hs : step (.body f read) '\x00'=([],.broken) := by simp [step]
      simp only [run,hs,run_broken,List.nil_append] at h
      simp at h
    by_cases hqc : c=f.quote
    · subst hqc
      simp only [run,step_body_quote hf hq,List.cons_append,List.nil_append,Prod.mk.injEq,
        List.cons.injEq,Token.literal.injEq] at h
      exact ⟨[],cs,rfl,by rw [List.append_nil]; exact h.1.1.2.symm,rfl⟩
    by_cases hn : c = '\n'
    · subst hn
      have hs : step (.body f read) '\n'=([],.broken) := by simp [step,inside,hqc,hf]
      simp only [run,hs,run_broken,List.nil_append] at h
      simp at h
    have hs : step (.body f read) c=([],.body f (c::read)) := by
      simp [step,inside,h0,hb,hqc,hn]
    simp only [run,hs,List.nil_append] at h
    obtain ⟨u,rest,rfl,hbody,hu⟩ := ih _ h
    refine ⟨c::u,rest,rfl,?_,?_⟩
    · simpa using hbody
    · simp [unbroken_cons _ _ _ hb,h0,hqc,hn,hu]

end Line

/-- The literal a mode is inside of. -/
def Mode.form? : Mode → Option Form
  | .body f _ => some f
  | .escape f _ => some f
  | .closing f _ _ => some f
  | _ => none

theorem step_form (m : Mode) (f : Form) (c : Char) (h : m.form?=some f) :
    (∃ body,(step m c).1=[.literal f body]) ∨
      (step m c).1=[] ∧ ((step m c).2.form?=some f ∨ (step m c).2=.broken) := by
  have hin : ∀ read,(∃ body,(inside f read c).1=[.literal f body]) ∨
      (inside f read c).1=[] ∧
        ((inside f read c).2.form?=some f ∨ (inside f read c).2=.broken) := by
    intro read
    unfold inside
    split_ifs <;> simp [Mode.form?]
  by_cases h0 : c = '\x00'
  · exact .inr ⟨by simp [step,h0],.inr (by simp [step,h0])⟩
  cases m with
  | body g read =>
    cases h
    simpa [step,h0] using hin read
  | escape g read =>
    cases h
    exact .inr ⟨by simp [step,h0],.inl (by simp [step,h0,Mode.form?])⟩
  | closing g read two =>
    cases h
    by_cases hc : c=f.quote
    · subst hc
      cases two <;> simp [step,h0,Mode.form?]
    · simpa [step,h0,hc] using hin _
  | code _ => cases h
  | comment => cases h
  | opened _ => cases h
  | opening _ => cases h
  | broken => cases h

theorem form_of_run (m : Mode) (f : Form) (text : List Char) (t : Token) (ts : List Token)
    (m' : Mode) (h : m.form?=some f) (hr : run m text=(t::ts,m')) :
    ∃ body,t=.literal f body := by
  induction text generalizing m with
  | nil => simp [run] at hr
  | cons c cs ih =>
    simp only [run,Prod.mk.injEq] at hr
    rcases step_form m f c h with ⟨body,hb⟩ | ⟨he,hm | hm⟩
    · rw [hb,List.cons_append,List.cons.injEq] at hr
      exact ⟨body,hr.1.1.symm⟩
    · rw [he,List.nil_append] at hr
      exact ih _ hm (Prod.ext hr.1 hr.2)
    · rw [he,hm,run_broken] at hr
      simp at hr

theorem Form.ofWord_triple (q : Char) : (Form.ofWord word q).triple=false := rfl
theorem Form.ofWord_quote (q : Char) : (Form.ofWord word q).quote=q := rfl

theorem step_code_quote (q : Char) (hq : q = '"' ∨ q = '\'') :
    step (.code word) q=([],.opened (.ofWord word q)) := by
  rcases hq with rfl | rfl <;> simp [step,outside]

theorem run_opened_cons (d : Char) (ds : List Char) (hd : d ≠ f.quote) :
    run (.opened f) (d::ds)=run (.body f []) (d::ds) := by
  have hs : step (.opened f) d=step (.body f []) d := by simp [step,hd]
  simp only [run,hs]

theorem run_opening_break (hq : f.Quoted) (c : Char) (post : List Char)
    (hc : isBreak c=true) : run (.opening f) (c::post)=
      (.literal f []::(run (.code []) (c::post)).1,(run (.code []) (c::post)).2) := by
  simp only [isBreak,Bool.and_eq_true,bne_iff_ne,ne_eq,Bool.not_eq_true'] at hc
  obtain ⟨⟨⟨⟨h0,h1⟩,h2⟩,h3⟩,h4⟩ := hc
  have hne : c ≠ f.quote := by rcases hq with h | h <;> rw [h] <;> assumption
  have hs : step (.opening f) c=(.literal f []::(outside [] c).1,(outside [] c).2) := by
    simp [step,h0,hne]
  have hs' : step (.code []) c=outside [] c := by simp [step,h0]
  simp only [run,hs,hs',List.cons_append]

theorem body_of_run_opening (hf : f.triple=false) (text body : List Char) (ts : List Token)
    (m : Mode) (h : run (.opening f) text=(.literal f body::ts,m)) : body=[] := by
  cases text with
  | nil => simp [run] at h
  | cons e es =>
    by_cases h0 : e = '\x00'
    · have hs : step (.opening f) e=([],.broken) := by simp [step,h0]
      simp only [run,hs,run_broken,List.nil_append] at h
      simp at h
    by_cases he : e=f.quote
    · have hs : step (.opening f) e=([],.body { f with triple := true } []) := by
        subst he
        simp [step,h0]
      simp only [run,hs,List.nil_append] at h
      obtain ⟨b,hb⟩ := form_of_run _ _ _ _ _ _ rfl h
      rw [Token.literal.injEq] at hb
      have ht : f.triple=true := congrArg Form.triple hb.1
      exact absurd ht (by simp [hf])
    · have hs : (step (.opening f) e).1=.literal f []::(outside [] e).1 := by
        simp [step,h0,he]
      simp only [run,hs,List.cons_append,Prod.mk.injEq,List.cons.injEq,
        Token.literal.injEq] at h
      exact h.1.1.2.symm

theorem run_opened_quote (hq : f.Quoted) (text : List Char) :
    run (.opened f) (f.quote::text)=run (.opening f) text := by
  have hs : step (.opened f) f.quote=([],.opening f) := by simp [step,hq.not_nul]
  simp only [run,hs,List.nil_append]

theorem run_code_line_iff (q : Char) (hq : q = '"' ∨ q = '\'') (body : List Char) (c : Char)
    (post : List Char) (hc : isBreak c=true) : run (.code word) (q::(body++q::c::post))=
        (.literal (.ofWord word q) body::(run (.code []) (c::post)).1,
          (run (.code []) (c::post)).2) ↔
      unbroken q body=true := by
  have hqf : (Form.ofWord word q).Quoted := hq
  have hft := Form.ofWord_triple word q
  have hopen : run (.code word) (q::(body++q::c::post))=
      run (.opened (.ofWord word q)) (body++q::c::post) := by
    simp only [run,step_code_quote word q hq,List.nil_append]
  have hsecond := run_opened_quote (Form.ofWord word q) hqf
  rw [Form.ofWord_quote] at hsecond
  rw [hopen]
  cases body with
  | nil =>
    refine ⟨fun _ => rfl,fun _ => ?_⟩
    rw [List.nil_append,hsecond,run_opening_break _ hqf c post hc]
  | cons d ds =>
    by_cases hd : d=q
    · subst hd
      refine ⟨fun h => ?_,fun h => ?_⟩
      · rw [List.cons_append,hsecond] at h
        exact absurd (body_of_run_opening _ hft _ _ _ _ h) (List.cons_ne_nil d ds)
      · have hb : d ≠ '\\' := hqf.not_backslash
        rw [unbroken_cons _ _ _ hb] at h
        simp at h
    · rw [List.cons_append,run_opened_cons _ _ _ hd]
      constructor
      · intro h
        obtain ⟨u,rest,_,hu,hun⟩ := literal_of_run_body hft hqf _ _ _ _ _ _ h
        rw [hu]
        exact hun
      · intro h
        exact run_body_line hft hqf (d::ds) [] (c::post) h

/-- Reading the text leaves the reader inside of the literal, at no escape and
at no closing quote. -/
def Sealed (text : List Char) : Prop :=
  ∀ read,run (.body f read) text=([],.body f (text.reverse++read))

theorem Sealed.nil : Sealed f [] := fun _ => rfl

theorem Sealed.append {f : Form} {a b : List Char} (ha : Sealed f a) (hb : Sealed f b) :
    Sealed f (a++b) := by
  intro read
  rw [run_append,ha,hb]
  simp

theorem Sealed.escape (d : Char) (hd : d ≠ '\x00') : Sealed f ['\\',d] := by
  intro read
  rw [run_body_escape f read d [] hd]
  rfl

theorem Sealed.plain (hf : f.triple=true) (c : Char) (h0 : c ≠ '\x00') (hb : c ≠ '\\')
    (hq : c ≠ f.quote) : Sealed f [c] := by
  intro read
  have hs : step (.body f read) c=([],.body f (c::read)) := by
    simp [step,inside,h0,hb,hq,hf]
  simp only [run,hs]
  rfl

theorem Sealed.quote {f : Form} (hf : f.triple=true) (hq : f.Quoted) {c : Char} {cs : List Char}
    (hc : c ≠ f.quote) (h : Sealed f (c::cs)) : Sealed f (f.quote::c::cs) := by
  intro read
  have hone : step (.body f read) f.quote=([],.closing f read false) := by
    simp [step,inside,hq.not_nul,hq.not_backslash,hf]
  have hback : step (.closing f read false) c=step (.body f (f.quote::read)) c := by
    simp [step,hc]
  have hr := h (f.quote::read)
  simp only [run] at hr
  simp only [run,hone,hback,List.nil_append,hr]
  simp

theorem Sealed.quotes {f : Form} (hf : f.triple=true) (hq : f.Quoted) {c : Char} {cs : List Char}
    (hc : c ≠ f.quote) (h : Sealed f (c::cs)) : Sealed f (f.quote::f.quote::c::cs) := by
  intro read
  have hone : step (.body f read) f.quote=([],.closing f read false) := by
    simp [step,inside,hq.not_nul,hq.not_backslash,hf]
  have htwo : step (.closing f read false) f.quote=([],.closing f read true) := by
    simp [step,hq.not_nul]
  have hback : step (.closing f read true) c=step (.body f (f.quote::f.quote::read)) c := by
    simp [step,hc]
  have hr := h (f.quote::f.quote::read)
  simp only [run] at hr
  simp only [run,hone,htwo,hback,List.nil_append,hr]
  simp

/-- The form of a literal between three quotes. -/
def Form.long : Form := { f with triple := true }

theorem run_code_long (q : Char) (hq : q = '"' ∨ q = '\'') (body post : List Char)
    (h : Sealed (Form.ofWord word q).long body) : run (.code word) (q::q::q::(body++q::q::q::post))=
      (.literal (Form.ofWord word q).long body::(run (.code []) post).1,
        (run (.code []) post).2) := by
  have h0 : q ≠ '\x00' := by rcases hq with rfl | rfl <;> decide
  have hb : q ≠ '\\' := by rcases hq with rfl | rfl <;> decide
  have hopen : step (.opened (.ofWord word q)) q=([],.opening (.ofWord word q)) := by
    simp [step,h0,Form.ofWord_quote]
  have hlong : step (.opening (.ofWord word q)) q=([],.body (Form.ofWord word q).long []) := by
    simp [step,h0,Form.ofWord_quote,Form.long]
  have hone : ∀ read,step (.body (Form.ofWord word q).long read) q=
      ([],.closing (Form.ofWord word q).long read false) := by
    intro read
    simp [step,inside,h0,hb,Form.ofWord_quote,Form.long]
  have htwo : ∀ read two,step (.closing (Form.ofWord word q).long read two) q=
      if two then ([.literal (Form.ofWord word q).long read.reverse],.code [])
      else ([],.closing (Form.ofWord word q).long read true) := by
    intro read two
    simp [step,h0,Form.ofWord_quote,Form.long]
  simp only [run,step_code_quote word q hq,hopen,hlong,List.nil_append]
  rw [run_append,h]
  simp [run,hone,htwo]

end Lib.Python
