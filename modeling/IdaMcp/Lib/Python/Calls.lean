import IdaMcp.Lib.Python.Script

/-!
# Outline and calls of a script

What a script does apart from its strings: the tokens with nothing between the
quotes. And what a function is called with, where the one argument of the call
is a string literal.
-/

namespace Lib.Python
variable {name t : List Char}

/-- The parts one after the other, each slot as the literal it is meant to be. -/
def readParts : Mode → List Part → List Token × Mode
  | m,[] => ([],m)
  | m,.text t::ps =>
    let head:=run m (newlines t)
    let rest:=readParts head.2 ps
    (head.1++rest.1,rest.2)
  | _,.slot s::ps =>
    let rest:=readParts (.code []) ps
    (.literal s.form (newlines s.inner)::rest.1,rest.2)

theorem Placed.run_render {m : Mode} {script : List Part} (h : Placed m script)
    (hw : ∀ s,.slot s ∈ script → s.Whole) :
    run m (newlines (render script))=readParts m script := by
  induction script generalizing m with
  | nil => rfl
  | cons p ps ih =>
    have hrest : ∀ s,.slot s ∈ ps → s.Whole := fun s hs => hw s (List.mem_cons_of_mem _ hs)
    cases p with
    | text t =>
      rw [render_text]
      rcases eq_or_ne ps [] with rfl | hne
      · rw [readParts,readParts,render,List.flatMap_nil,List.append_nil,List.append_nil]
      · rw [newlines_append _ _ (h.1 hne),run_append,ih h.2 hrest]
        rfl
    | slot s =>
      obtain ⟨⟨word,rfl,hf⟩,hb,hs,hp⟩:=h
      have hrun:=(run_slot_iff word s hf (render ps) hb hs).mpr (hw s List.mem_cons_self)
      rw [render,List.flatMap_cons]
      refine hrun.trans ?_
      rw [ih hp hrest]
      rfl

def Token.shape : Token → Token
  | .char c => .char c
  | .literal f _ => .literal f []

/-- The statements of a text whatever its strings say: the tokens without the
bodies of the literals, and where the text ends. -/
def outline (text : List Char) : List Token × Mode :=
  ((tokens text).1.map Token.shape,(tokens text).2)

/-- Two parts that differ in the text between quotes at most. -/
inductive Part.Like : Part → Part → Prop
  | text (t : List Char) : Part.Like (.text t) (.text t)
  | slot {s s' : Slot} (form : s.form=s'.form) : Part.Like (.slot s) (.slot s')

theorem readParts_like {a b : List Part} (h : List.Forall₂ Part.Like a b) (m : Mode) :
    (readParts m a).1.map Token.shape=(readParts m b).1.map Token.shape ∧
      (readParts m a).2=(readParts m b).2 := by
  induction h generalizing m with
  | nil => exact ⟨rfl,rfl⟩
  | cons hp _ ih =>
    cases hp with
    | text t =>
      obtain ⟨h1,h2⟩:=ih (run m (newlines t)).2
      simp only [readParts,List.map_append]
      exact ⟨congrArg _ h1,h2⟩
    | slot form =>
      obtain ⟨h1,h2⟩:=ih (.code [])
      simp only [readParts,List.map_cons]
      refine ⟨?_,h2⟩
      rw [h1,Token.shape,Token.shape,form]

/-- Where the reader of calls stands. -/
inductive Seen
  | word (w : List Char)
  /-- After an opening parenthesis right behind a word. -/
  | opened (w : List Char)
  /-- After a literal behind the parenthesis. -/
  | given (w : List Char) (form : Form) (body : List Char)
  deriving DecidableEq

variable {s s' : Seen}

def seeChar (w : List Char) (c : Char) : Seen :=
  if c = '(' then .opened w else .word (if isWordChar c then w++[c] else [])

/-- One token: the argument of a call that ends with it, and what was seen. -/
def see (name : List Char) : Seen → Token → List (Form × List Char) × Seen
  | .word w,.char c => ([],seeChar w c)
  | .word _,.literal _ _ => ([],.word [])
  | .opened _,.char c => ([],seeChar [] c)
  | .opened w,.literal f body => ([],.given w f body)
  | .given w f body,.char c => (if c = ')' ∧ w=name then [(f,body)] else [],seeChar [] c)
  | .given _ _ _,.literal _ _ => ([],.word [])

def scan (name : List Char) : Seen → List Token → List (Form × List Char) × Seen
  | s,[] => ([],s)
  | s,t::ts => ((see name s t).1++(scan name (see name s t).2 ts).1,
      (scan name (see name s t).2 ts).2)

/-- The literals that are the one argument of a call of the function. -/
def callArguments (name text : List Char) : List (Form × List Char) :=
  (scan name (.word []) (tokens text).1).1

theorem scan_append (name : List Char) (s : Seen) (a b : List Token) :
    scan name s (a++b)=((scan name s a).1++(scan name (scan name s a).2 b).1,
      (scan name (scan name s a).2 b).2) := by
  induction a generalizing s with
  | nil => rfl
  | cons t ts ih => simp only [List.cons_append,scan,ih,List.append_assoc]

theorem scan_given_other {w : List Char} (h : w≠name) (f : Form) (body : List Char) (c : Char)
    (ts : List Token) :
    scan name (.given w f body) (.char c::ts)=scan name (.word []) (.char c::ts) := by
  have hs : see name (.given w f body) (.char c)=see name (.word []) (.char c) := by
    simp [see,h]
  rw [scan,hs]
  rfl

theorem scan_given_call (name : List Char) (f : Form) (body : List Char) (ts : List Token) :
    scan name (.given name f body) (.char ')'::ts)=
      ((f,body)::(scan name (.word []) ts).1,(scan name (.word []) ts).2) := by
  have hs : see name (.given name f body) (.char ')')=([(f,body)],.word []) := by
    simp [see,seeChar,show isWordChar ')'=false from by decide]
  rw [scan,hs]
  rfl

/-- A fixed text without calls of the function: it leaves the reader outside of
literals and has the calls seen from one place to another. -/
structure Passes (name t : List Char) (s s' : Seen) : Prop where
  mode : (run (.code []) (newlines t)).2=.code []
  calls : scan name s (run (.code []) (newlines t)).1=([],s')
  last : t.getLast?≠some '\r'

def passes (name t : List Char) (s s' : Seen) : Bool :=
  decide ((run (.code []) (newlines t)).2=.code []) &&
    decide (scan name s (run (.code []) (newlines t)).1=([],s')) &&
    decide (t.getLast?≠some '\r')

theorem Passes.of_spelled {str : String} (hs : Spelled str t)
    (h : passes name t s s'=true) : Passes name str.toList s s' := by
  simp only [passes,Bool.and_eq_true,decide_eq_true_eq] at h
  obtain ⟨⟨hm,hc⟩,hl⟩:=h
  rw [hs.toList]
  exact ⟨hm,hc,hl⟩

theorem Passes.placed {ps : List Part} (h : Passes name t s s')
    (hp : Placed (.code []) ps) : Placed (.code []) (.text t::ps) := by
  refine ⟨fun _ => h.last,?_⟩
  rw [h.mode]
  exact hp

theorem Passes.scan_text {ps : List Part}
    (h : Passes name t s s') : scan name s (readParts (.code []) (.text t::ps)).1=
      scan name s' (readParts (.code []) ps).1 := by
  rw [readParts,h.mode,scan_append,h.calls]
  rfl

end Lib.Python
