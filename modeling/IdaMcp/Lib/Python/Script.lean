import IdaMcp.Lib.Python.Escape

/-!
# Scripts with strings put into them

A generated script is fixed text with slots, each a literal around some text
that is not known in advance. `Intact` says that every slot is read as the
literal it is meant to be and that the text around it is read as if nothing
else had been there; `intact_iff` reduces it to the slots one by one.
-/

namespace Lib.Python

structure Slot where
  form : Form
  /-- The text between the quotes. -/
  inner : List Char
  /-- What the body of the literal has to stand for. -/
  Means : List Char → Prop

def Slot.text (s : Slot) : List Char := s.form.fence++s.inner++s.form.fence

inductive Part where
  | text : List Char → Part
  | slot : Slot → Part

variable {pre post : List Part}

def Part.chars : Part → List Char
  | .text t => t
  | .slot s => s.text

def render (script : List Part) : List Char := script.flatMap Part.chars

/-- Every slot is one complete literal of the script and stands for what it is
meant to, the text before it ends outside of any literal, and the text after
it is read from there on as it would be on its own. -/
def Intact (script : List Part) : Prop :=
  ∀ pre s post,script=pre++.slot s::post →
    (∃ word,(tokens (render pre)).2=.code word) ∧
    tokens (render script)=
      ((tokens (render pre)).1++.literal s.form (newlines s.inner)::(tokens (render post)).1,
        (tokens (render post)).2) ∧
    s.Means (newlines s.inner)

/-- The literal a quote behind `word` opens has this form. -/
structure Fits (word : List Char) (f : Form) : Prop where
  quoted : f.Quoted
  form : f=if f.triple then (Form.ofWord word f.quote).long else Form.ofWord word f.quote

/-- The fixed text puts the reader where each slot needs it, if the slots before
are read as they should be. -/
def Placed : Mode → List Part → Prop
  | _,[] => True
  | m,.text t::ps => (ps ≠ [] → t.getLast? ≠ some '\r') ∧ Placed (run m (newlines t)).2 ps
  | m,.slot s::ps =>
    (∃ word,m=.code word ∧ Fits word s.form) ∧
    (∃ c cs,render ps=c::cs ∧ isBreak c=true) ∧
    (s.form.triple=true → Sealed s.form (newlines s.inner)) ∧ Placed (.code []) ps

/-- A slot on one line stays on its line and between its quotes. -/
def Slot.Whole (s : Slot) : Prop :=
  s.form.triple=false → unbroken s.form.quote (newlines s.inner)=true

/-- The slot is a literal of its own and stands for what it is meant to. -/
def Slot.Good (s : Slot) : Prop := s.Whole ∧ s.Means (newlines s.inner)

theorem render_append (a b : List Part) : render (a++b)=render a++render b :=
  List.flatMap_append

theorem render_text (t : List Char) (ps : List Part) : render (.text t::ps)=t++render ps := rfl

theorem Form.Quoted.not_newline {f : Form} (h : f.Quoted) : f.quote ≠ '\r' ∧ f.quote ≠ '\n' := by
  rcases h with h | h <;> rw [h] <;> decide

theorem unify_quote (q : Char) (hq : q ≠ '\r' ∧ q ≠ '\n') (k : Bool) (cs : List Char) :
    unify k (q::cs)=q::unify false cs := by
  simp [unify,hq.1,hq.2]

theorem newlines_slot (s : Slot) (hq : s.form.Quoted) (rest : List Char) :
    newlines (s.text++rest)=s.form.fence++newlines s.inner++s.form.fence++newlines rest := by
  have hn := hq.not_newline
  have hin : ∀ tail,unify false (s.inner++s.form.quote::tail)=
      newlines s.inner++s.form.quote::unify false tail := by
    intro tail
    rw [unify_append _ _ _ _ hn.1,unify_concat _ _ _ hn.1 hn.2]
    simp [newlines]
  cases ht : s.form.triple <;>
    simp [Slot.text,Form.fence,ht,newlines,unify_quote _ hn] <;>
    rw [hin] <;> simp [newlines,unify_quote _ hn]

theorem isBreak_newline (c : Char) (h : isBreak c=true) :
    isBreak (if c = '\r' then '\n' else c)=true := by
  split
  · decide
  · exact h

theorem run_slot_iff (word : List Char) (s : Slot) (hf : Fits word s.form) (rest : List Char)
    (hb : ∃ c cs,rest=c::cs ∧ isBreak c=true)
    (hs : s.form.triple=true → Sealed s.form (newlines s.inner)) :
    run (.code word) (newlines (s.text++rest))=
        (.literal s.form (newlines s.inner)::(run (.code []) (newlines rest)).1,
          (run (.code []) (newlines rest)).2) ↔
      s.Whole := by
  rw [newlines_slot s hf.quoted]
  cases ht : s.form.triple with
  | true =>
    have hform : s.form=(Form.ofWord word s.form.quote).long := by
      simpa [ht] using hf.form
    have hr := run_code_long word s.form.quote hf.quoted (newlines s.inner) (newlines rest)
      (hform ▸ hs ht)
    rw [← hform] at hr
    refine ⟨fun _ h => absurd (ht.symm.trans h) (by decide),fun _ => ?_⟩
    simpa [Form.fence,ht] using hr
  | false =>
    have hform : s.form=Form.ofWord word s.form.quote := by
      simpa [ht] using hf.form
    obtain ⟨c,cs,rfl,hc⟩ := hb
    obtain ⟨cs',hcs⟩ := newlines_cons c cs
    have hr := run_code_line_iff word s.form.quote hf.quoted (newlines s.inner)
      (if c = '\r' then '\n' else c) cs' (isBreak_newline c hc)
    rw [← hform,← hcs] at hr
    have hw : s.Whole ↔ unbroken s.form.quote (newlines s.inner)=true :=
      ⟨fun h => h ht,fun h _ => h⟩
    rw [hw,← hr]
    simp [Form.fence,ht]

theorem slot_no_cr (s : Slot) (hq : s.form.Quoted) : s.text.getLast? ≠ some '\r' := by
  have hn := hq.not_newline.1
  have hl : s.text.getLast?=some s.form.quote := by
    rw [Slot.text,List.getLast?_append]
    cases ht : s.form.triple <;> simp [Form.fence,ht]
  rw [hl]
  exact fun h => hn (Option.some.inj h)

theorem getLast?_append_ne {a b : List Char} {c : Char} (ha : a.getLast? ≠ some c)
    (hb : b.getLast? ≠ some c) : (a++b).getLast? ≠ some c := by
  rw [List.getLast?_append]
  cases h : b.getLast? with
  | none => simpa using ha
  | some d => simpa [h] using hb

theorem Placed.render_no_cr {m : Mode} (h : Placed m (pre++post))
    (hpost : post ≠ []) : (render pre).getLast? ≠ some '\r' := by
  induction pre generalizing m with
  | nil => simp [render]
  | cons p ps ih =>
    rw [render,List.flatMap_cons]
    cases p with
    | text t =>
      exact getLast?_append_ne (h.1 (List.append_ne_nil_of_right_ne_nil ps hpost)) (ih h.2)
    | slot s =>
      obtain ⟨⟨_,_,hf⟩,_,_,hp⟩ := h
      exact getLast?_append_ne (slot_no_cr s hf.quoted) (ih hp)

theorem isBreak_not_quote {c : Char} (h : isBreak c=true) {f : Form} (hq : f.Quoted) :
    c ≠ f.quote := by
  rintro rfl
  rcases hq with hq | hq <;> rw [hq] at h <;> exact absurd h (by decide)

theorem Placed.reach {m : Mode} {s : Slot} (h : Placed m (pre++.slot s::post))
    (hpre : ∀ s',.slot s' ∈ pre → s'.Whole) :
    ∃ word,(run m (newlines (render pre))).2=.code word ∧ Placed (.code word) (.slot s::post) := by
  induction pre generalizing m with
  | nil =>
    obtain ⟨word,rfl,_⟩ := h.1
    exact ⟨word,rfl,h⟩
  | cons p ps ih =>
    have hrest : ∀ s',.slot s' ∈ ps → s'.Whole := fun s' hs => hpre s' (List.mem_cons_of_mem _ hs)
    rw [render,List.flatMap_cons]
    cases p with
    | text t =>
      obtain ⟨word,hw,hp⟩ := ih h.2 hrest
      refine ⟨word,?_,hp⟩
      rw [Part.chars,newlines_append _ _ (h.1 (by simp)),run_append]
      exact hw
    | slot s' =>
      obtain ⟨⟨w,rfl,hf⟩,⟨c,cs,hc,hb⟩,hs,hp⟩ := h
      obtain ⟨word,hw,hp'⟩ := ih hp hrest
      replace hc : render (ps++.slot s::post)=c::cs := hc
      -- what follows the slot in `pre` already starts with the character after it
      have hnext : ∃ c cs,render ps=c::cs ∧ isBreak c=true := by
        cases hr : render ps with
        | cons d ds =>
          rw [render_append,hr] at hc
          exact ⟨d,ds,rfl,by rw [(List.cons.inj hc).1]; exact hb⟩
        | nil =>
          obtain ⟨_,_,hfs⟩ := hp'.1
          rw [render_append,hr,List.nil_append,render,List.flatMap_cons,Part.chars,Slot.text,
            Form.fence] at hc
          have hne := isBreak_not_quote hb hfs.quoted
          cases ht : s.form.triple <;> simp [ht] at hc <;> exact absurd hc.1.symm hne
      have hrun := (run_slot_iff w s' hf (render ps) hnext hs).mpr (hpre s' List.mem_cons_self)
      refine ⟨word,?_,hp'⟩
      exact (congrArg Prod.snd hrun).trans hw

theorem Placed.tokens_split (h : Placed (.code []) (pre++post)) (hpost : post ≠ []) :
    tokens (render (pre++post))=
      ((tokens (render pre)).1++(run (tokens (render pre)).2 (newlines (render post))).1,
        (run (tokens (render pre)).2 (newlines (render post))).2) := by
  rw [tokens,render_append,newlines_append _ _ (h.render_no_cr hpost),run_append]
  rfl

theorem intact_iff (script : List Part) (h : Placed (.code []) script) :
    Intact script ↔ ∀ s,.slot s ∈ script → s.Good := by
  have hslot : ∀ pre s post,script=pre++.slot s::post → (∀ s',.slot s' ∈ pre → s'.Whole) →
      (∃ word,(tokens (render pre)).2=.code word) ∧
      (tokens (render script)=((tokens (render pre)).1++
          .literal s.form (newlines s.inner)::(tokens (render post)).1,
          (tokens (render post)).2) ↔ s.Whole) := by
    rintro pre s post rfl hpre
    obtain ⟨word,hw,hp⟩ := h.reach hpre
    have hmode : (tokens (render pre)).2=.code word := hw
    obtain ⟨⟨word',hword,hf⟩,hb,hs,_⟩ := hp
    obtain rfl := Mode.code.inj hword
    refine ⟨⟨word,hmode⟩,?_⟩
    rw [h.tokens_split (List.cons_ne_nil _ _),hmode,← run_slot_iff word s hf (render post) hb hs,
      Prod.mk.injEq,
      List.append_cancel_left_eq,← Prod.mk.injEq]
    rfl
  constructor
  · intro hi
    -- by the length of the text before: what stands there has been read well
    have hall : ∀ n pre s post,pre.length=n → script=pre++.slot s::post → s.Whole := by
      intro n
      induction n using Nat.strongRecOn with
      | ind n ih =>
        intro pre s post hn hsc
        have hpre : ∀ s',.slot s' ∈ pre → s'.Whole := by
          intro s' hs'
          obtain ⟨a,b,rfl⟩ := List.append_of_mem hs'
          refine ih a.length ?_ a s' (b++.slot s::post) rfl ?_
          · rw [← hn,List.length_append,List.length_cons]
            omega
          · rw [hsc,List.append_assoc,List.cons_append]
        exact (hslot pre s post hsc hpre).2.mp (hi pre s post hsc).2.1
    intro s hs
    obtain ⟨pre,post,hsc⟩ := List.append_of_mem hs
    exact ⟨hall _ pre s post rfl hsc,(hi pre s post hsc).2.2⟩
  · intro hall pre s post hsc
    have hmem : ∀ s',.slot s' ∈ pre → s'.Whole := by
      intro s' hs'
      exact (hall s' (hsc ▸ List.mem_append_left _ hs')).1
    have hs := hall s (hsc ▸ List.mem_append_right _ List.mem_cons_self)
    obtain ⟨hw,hiff⟩ := hslot pre s post hsc hmem
    exact ⟨hw,hiff.mpr hs.1,hs.2⟩

/-- A text that starts by ending every word and leaves the reader outside of
literals, behind the word `w`. -/
structure Settles (t w : List Char) : Prop where
  starts : ∃ c cs,t=c::cs ∧ isBreak c=true
  mode : ∀ word,(run (.code word) (newlines t)).2=.code w
  last : t.getLast? ≠ some '\r'

def settles (t w : List Char) : Bool :=
  t.head?.any isBreak && decide ((run (.code []) (newlines t)).2=.code w) &&
    decide (t.getLast? ≠ some '\r')

theorem Settles.of_check {t w : List Char} (h : settles t w=true) : Settles t w := by
  simp only [settles,Bool.and_eq_true,decide_eq_true_eq] at h
  obtain ⟨⟨hb,hm⟩,hl⟩ := h
  cases t with
  | nil => simp at hb
  | cons c cs =>
    have hc : isBreak c=true := by simpa using hb
    refine ⟨⟨c,cs,rfl,hc⟩,fun word => ?_,hl⟩
    obtain ⟨cs',hcs⟩ := newlines_cons c cs
    rw [hcs] at hm ⊢
    rw [run_code_break word _ _ (isBreak_newline c hc)]
    exact hm

/-- The characters of a string that is put together from literals. -/
inductive Spelled : String → List Char → Prop where
  | literal (cs : List Char) : Spelled (String.ofList cs) cs
  | append {a b : String} {cs ds : List Char} (ha : Spelled a cs) (hb : Spelled b ds) :
      Spelled (a++b) (cs++ds)

theorem Spelled.toList {s : String} {cs : List Char} (h : Spelled s cs) : s.toList=cs := by
  induction h with
  | literal cs => exact String.toList_ofList
  | append _ _ ha hb => rw [String.toList_append,ha,hb]

theorem Settles.of_spelled {s : String} {cs w : List Char} (hs : Spelled s cs)
    (h : settles cs w=true) : Settles s.toList w := by
  rw [hs.toList]
  exact .of_check h

section Chain
variable {t w : List Char} {ps : List Part} (ht : Settles t w) (hp : Placed (.code w) ps)
include ht hp

theorem Settles.placed (word : List Char) : Placed (.code word) (.text t::ps) := by
  refine ⟨fun _ => ht.last,?_⟩
  rw [ht.mode]
  exact hp

theorem Settles.placed_slot (s : Slot) (word : List Char) (hf : Fits word s.form)
    (hs : s.form.triple=true → Sealed s.form (newlines s.inner)) :
    Placed (.code word) (.slot s::.text t::ps) := by
  obtain ⟨c,cs,hc,hb⟩ := ht.starts
  refine ⟨⟨word,rfl,hf⟩,⟨c,cs++render ps,?_,hb⟩,hs,ht.placed hp []⟩
  rw [render_text,hc,List.cons_append]

theorem Settles.placed_word (u word : List Char) (hu : ∀ c ∈ u,isWordChar c=true)
    (h0 : '\x00' ∉ u) : Placed (.code word) (.text u::.text t::ps) := by
  have hr : '\r' ∉ u := fun h => absurd (hu _ h) (by decide)
  obtain ⟨ts,hrun⟩ := run_code_words word u hu h0
  refine ⟨fun _ h => hr (List.mem_of_getLast? h),?_⟩
  rw [newlines_of_not_mem u hr,hrun]
  exact ht.placed hp _

end Chain

theorem digits_word (n : Nat) : (∀ c ∈ Nat.toDigits 10 n,isWordChar c=true) ∧
    '\x00' ∉ Nat.toDigits 10 n := by
  have hd : ∀ c ∈ Nat.toDigits 10 n,c.isDigit=true := fun c hc =>
    Nat.isDigit_of_mem_toDigits (by decide) (by decide) hc
  refine ⟨fun c hc => ?_,fun h => absurd (hd _ h) (by decide)⟩
  simp [isWordChar,Char.isAlphanum,hd c hc]

end Lib.Python
