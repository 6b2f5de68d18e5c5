import IdaMcp.Scripts.Debug
import IdaMcp.Scripts.Literals

/-!
# The literals of the debug scripts

What Python reads between double quotes when a string is put there as it is or
with its double quotes escaped: the string itself exactly when it stays on one
line and no backslash in it makes an escape with the character behind it.
-/

namespace Scripts
open Lib.Python
variable (g : Bool)

/-- The text between the quotes: with `g` a double quote is escaped. -/
def guarded (g : Bool) (s : List Char) : List Char :=
  s.flatMap fun c => if g=true ∧ c = '"' then ['\\','"'] else [c]

theorem guarded_quote (cs : List Char) : guarded true ('"'::cs) = '\\' :: '"'::guarded true cs :=
    rfl

theorem guarded_cons (c : Char) (cs : List Char) (h : ¬(g=true ∧ c = '"')) :
    guarded g (c::cs)=c::guarded g cs := by
  rw [guarded,List.flatMap_cons,if_neg h]
  rfl

variable (s : List Char)

theorem guarded_false : guarded false s=s := by
  simp [guarded]

/-- The string is read as itself. -/
structure Exact (g : Bool) (s : List Char) : Prop where
  noLineFeed : '\n' ∉ s
  noReturn : '\r' ∉ s
  noQuote : g=false → '"' ∉ s
  inert : inert s=true

instance (g : Bool) (s : List Char) : Decidable (Exact g s) :=
  decidable_of_iff ('\n' ∉ s ∧ '\r' ∉ s ∧ (g=false → '"' ∉ s) ∧ inert s=true)
    ⟨fun ⟨a,b,c,d⟩ => ⟨a,b,c,d⟩,fun h => ⟨h.1,h.2,h.3,h.4⟩⟩

/-- How the text behind the first character of a string goes on. -/
inductive Head (g : Bool) (k : Bool) (c : Char) (cs t : List Char) : Prop where
  | quote (hg : g=true) (hc : c = '"') (ht : t = '\\' :: '"'::unify false (guarded g cs))
  | return (hc : c = '\r') (ht : t = '\n'::unify true (guarded g cs))
  | joined (hk : k=true) (hc : c = '\n') (ht : t=unify false (guarded g cs))
  | plain (hg : ¬(g=true ∧ c = '"')) (hr : c ≠ '\r') (ht : t=c::unify false (guarded g cs))

theorem head_guarded (g k : Bool) (c : Char) (cs : List Char) :
    Head g k c cs (unify k (guarded g (c::cs))) := by
  by_cases hq : g=true ∧ c = '"'
  · obtain ⟨rfl,rfl⟩ := hq
    exact .quote rfl rfl (by simp [guarded_quote,unify])
  rw [guarded_cons g c cs hq]
  by_cases hr : c = '\r'
  · subst hr
    exact .return rfl (by simp [unify])
  by_cases hn : k=true ∧ c = '\n'
  · exact .joined hn.1 hn.2 (by simp [unify,hn.1,hn.2])
  · exact .plain hq hr (by rw [unify,if_neg hr,if_neg hn])

theorem unescape_quote (t : List Char) :
    unescape ('\\' :: '"'::t)=(unescape t).map ('"'::·) :=
      StandsFor.escape ['"'] '"' (fun _ => rfl) t

theorem guarded_length (k : Bool) (j : Nat) (v : List Char)
    (h : unescapeFrom j (unify k (guarded g s))=some v) : v.length ≤ s.length := by
  induction hn : s.length using Nat.strongRecOn generalizing s k j v with
  | ind n ih =>
    cases s with
    | nil =>
      have hv : v=[] := by cases j <;> exact (Option.some.inj h).symm
      rw [hv]
      exact Nat.zero_le n
    | cons c cs =>
      rw [List.length_cons] at hn
      have ihc := fun k j v h => ih cs.length (by omega) cs k j v h rfl
      have hplain : ∀ d k,d ≠ '\\' → unescapeFrom j (d::unify k (guarded g cs))=some v →
          v.length ≤ n := by
        intro d k hd h
        cases j with
        | succ j =>
          have := ihc k j v h
          omega
        | zero =>
          rw [unescapeFrom,if_neg hd] at h
          obtain ⟨v',hv',rfl⟩ := Option.map_eq_some_iff.mp h
          have := ihc k 0 v' hv'
          rw [List.length_cons]
          omega
      rcases head_guarded g k c cs with ⟨_,_,ht⟩ | ⟨_,ht⟩ | ⟨_,_,ht⟩ | ⟨_,_,ht⟩
      · rw [ht] at h
        cases j with
        | zero =>
          have h' : unescape ('\\' :: '"'::unify false (guarded g cs))=some v := h
          rw [unescape_quote] at h'
          obtain ⟨v',hv',rfl⟩ := Option.map_eq_some_iff.mp h'
          have := ihc false 0 v' hv'
          rw [List.length_cons]
          omega
        | succ j =>
          cases j with
          | zero =>
            rw [unescapeFrom,unescapeFrom,if_neg (by decide)] at h
            obtain ⟨v',hv',rfl⟩ := Option.map_eq_some_iff.mp h
            have := ihc false 0 v' hv'
            rw [List.length_cons]
            omega
          | succ j =>
            have := ihc false j v h
            omega
      · rw [ht] at h
        exact hplain '\n' true (by decide) h
      · rw [ht] at h
        have := ihc false j v h
        omega
      · rw [ht] at h
        by_cases hb : c = '\\'
        · subst hb
          cases j with
          | succ j =>
            have := ihc false j v h
            omega
          | zero =>
            rw [unescapeFrom,if_pos rfl] at h
            obtain ⟨⟨e,m⟩,he,h⟩ := Option.bind_eq_some_iff.mp h
            obtain ⟨v',hv',rfl⟩ := Option.map_eq_some_iff.mp h
            show (e++v').length ≤ n
            rw [List.length_append]
            have hv := ihc false m v' hv'
            have hescape : ∀ d t,isEscape d=true → unify false (guarded g cs)=d::t →
                e.length+v'.length ≤ n := by
              intro d t hd ht
              rw [ht] at he
              have hl := (escapeAt_length hd he).1
              omega
            cases cs with
            | nil => cases he
            | cons d ds =>
              rcases head_guarded g false d ds with ⟨_,_,ht⟩ | ⟨_,ht⟩ | ⟨hk,_⟩ | ⟨_,_,ht⟩
              · exact hescape _ _ (by decide) ht
              · exact hescape _ _ (by decide) ht
              · cases hk
              · cases hd : isEscape d with
                | true => exact hescape _ _ hd ht
                | false =>
                  rw [ht] at he hv'
                  rw [escapeAt_other d _ hd] at he
                  obtain ⟨rfl,rfl⟩ := Prod.mk.inj (Option.some.inj he)
                  rw [List.length_cons] at hn
                  have := ih ds.length (by omega) ds false 0 v' hv' rfl
                  simp only [List.length_cons,List.length_nil]
                  omega
        · exact hplain c false hb h

theorem Exact.cons {g : Bool} {c : Char} {cs : List Char} (h : Exact g cs) (hn : c ≠ '\n')
    (hr : c ≠ '\r') (hq : g=false → c ≠ '"') (hb : c ≠ '\\') : Exact g (c::cs) := by
  refine ⟨?_,?_,fun hg => ?_,?_⟩
  · exact List.not_mem_cons_of_ne_of_not_mem hn.symm h.noLineFeed
  · exact List.not_mem_cons_of_ne_of_not_mem hr.symm h.noReturn
  · exact List.not_mem_cons_of_ne_of_not_mem (hq hg).symm (h.noQuote hg)
  · rw [inert_cons c cs hb]
    exact h.inert

theorem Exact.escape {g : Bool} {d : Char} {ds : List Char} (h : Exact g ds)
    (hd : isEscape d=false) (hr : d ≠ '\r') : Exact g ('\\'::d::ds) := by
  have hn : d ≠ '\n' := by
    rintro rfl
    exact absurd hd (by decide)
  have hq : d ≠ '"' := by
    rintro rfl
    exact absurd hd (by decide)
  have hmem : ∀ c : Char,c ≠ '\\' → d ≠ c → c ∉ ds → c ∉ '\\'::d::ds := by
    intro c hc hdc hcs
    exact List.not_mem_cons_of_ne_of_not_mem hc (List.not_mem_cons_of_ne_of_not_mem hdc.symm hcs)
  refine ⟨hmem _ (by decide) hn h.noLineFeed,hmem _ (by decide) hr h.noReturn,
    fun hg => hmem _ (by decide) hq (h.noQuote hg),?_⟩
  simp [inert_escape,hd,h.inert]

theorem exact_of_guarded (k : Bool) (v : List Char) (hu : unbroken '"' (unify k (guarded g s))=true)
    (h : unescape (unify k (guarded g s))=some v) (hl : v.length=s.length) : Exact g s := by
  induction hn : s.length using Nat.strongRecOn generalizing s k v with
  | ind n ih =>
    cases s with
    | nil => exact ⟨List.not_mem_nil,List.not_mem_nil,fun _ => List.not_mem_nil,rfl⟩
    | cons c cs =>
      rw [List.length_cons] at hn hl
      rcases head_guarded g k c cs with ⟨hg,hc,ht⟩ | ⟨_,ht⟩ | ⟨_,_,ht⟩ | ⟨hg,hr,ht⟩
      · rw [ht] at hu h
        rw [unbroken_escape,Bool.and_eq_true] at hu
        rw [unescape_quote] at h
        obtain ⟨v',hv',rfl⟩ := Option.map_eq_some_iff.mp h
        rw [List.length_cons] at hl
        have he := ih cs.length (by omega) cs false v' hu.2 hv' (by omega) rfl
        refine he.cons ?_ ?_ (fun hf => ?_) ?_
        · rw [hc]; decide
        · rw [hc]; decide
        · rw [hf] at hg; cases hg
        · rw [hc]; decide
      · -- a line end outside of an escape ends the literal
        rw [ht,unbroken_cons _ _ _ (by decide)] at hu
        simp at hu
      · rw [ht] at h
        have := guarded_length g cs false 0 v h
        omega
      · rw [ht] at hu h
        by_cases hb : c = '\\'
        · subst hb
          cases cs with
          | nil => simp [guarded,unify,unbroken] at hu
          | cons d ds =>
            rw [List.length_cons] at hn hl
            -- a backslash that makes an escape loses a character
            have hshort : ∀ e k',isEscape e=true →
                unify false (guarded g (d::ds))=e::unify k' (guarded g ds) → False := by
              intro e k' he hd
              rw [hd] at h
              simp only [unescape] at h
              rw [unescapeFrom,if_pos rfl] at h
              obtain ⟨⟨w,m⟩,hw,h⟩ := Option.bind_eq_some_iff.mp h
              obtain ⟨v',hv',rfl⟩ := Option.map_eq_some_iff.mp h
              obtain ⟨hw1,hm⟩ := escapeAt_length he hw
              obtain ⟨j,rfl⟩ : ∃ j,m=j+1 := ⟨m-1,by omega⟩
              have hv : v'.length ≤ ds.length := guarded_length g ds k' j v' hv'
              have hlen : (w++v').length=ds.length+1+1 := hl
              rw [List.length_append] at hlen
              omega
            rcases head_guarded g false d ds with ⟨_,_,hd⟩ | ⟨_,hd⟩ | ⟨hk,_⟩ | ⟨hgd,hdr,hd⟩
            · rw [hd,unbroken_escape,unbroken_cons _ _ _ (by decide)] at hu
              simp at hu
            · exact (hshort _ _ (by decide) hd).elim
            · cases hk
            · cases he : isEscape d with
              | true => exact (hshort _ _ he hd).elim
              | false =>
                rw [hd,unbroken_escape,Bool.and_eq_true] at hu
                have hin : unescape (['\\',d]++unify false (guarded g ds))=some v := by
                  rw [hd] at h
                  exact h
                rw [unescape_inert _ _ (by simp [inert_escape,he,inert])] at hin
                obtain ⟨v',hv',rfl⟩ := Option.map_eq_some_iff.mp hin
                simp only [List.length_append,List.length_cons,List.length_nil] at hl
                exact (ih ds.length (by omega) ds false v' hu.2 hv' (by omega) rfl).escape he hdr
        · rw [unbroken_cons _ _ _ hb] at hu
          simp only [Bool.and_eq_true,bne_iff_ne] at hu
          obtain ⟨⟨⟨_,hq⟩,hnl⟩,hu'⟩ := hu
          rw [unescape_plain c _ hb] at h
          obtain ⟨v',hv',rfl⟩ := Option.map_eq_some_iff.mp h
          rw [List.length_cons] at hl
          exact (ih cs.length (by omega) cs false v' hu' hv' (by omega) rfl).cons hnl hr
            (fun _ => hq) hb

theorem guarded_of_exact (h0 : '\x00' ∉ s) (h : Exact g s) :
    unbroken '"' (guarded g s)=true ∧ unescape (guarded g s)=some s := by
  induction s using inert.induct with
  | case1 => exact ⟨rfl,rfl⟩
  | case2 d ds ih =>
    have hi := h.inert
    simp only [inert_escape,Bool.and_eq_true,Bool.not_eq_true'] at hi
    obtain ⟨hd,hds⟩ := hi
    have hsub : ∀ c,c ∉ '\\'::d::ds → c ∉ ds := fun c hc hm =>
      hc (List.mem_cons_of_mem _ (List.mem_cons_of_mem _ hm))
    have hd0 : d ≠ '\x00' := by
      rintro rfl
      exact h0 (by simp)
    have hdq : d ≠ '"' := by
      rintro rfl
      exact absurd hd (by decide)
    obtain ⟨hu,hv⟩ := ih (hsub _ h0)
      ⟨hsub _ h.noLineFeed,hsub _ h.noReturn,fun hg => hsub _ (h.noQuote hg),hds⟩
    rw [guarded_cons g '\\' _ (fun hc => absurd hc.2 (by decide)),
      guarded_cons g d ds (fun hc => hdq hc.2),unbroken_escape]
    refine ⟨by simp [hd0,hu],?_⟩
    have hin := unescape_inert ['\\',d] (guarded g ds) (by simp [inert_escape,hd,inert])
    rw [hv] at hin
    exact hin
  | case3 c cs hc ih =>
    have hi := h.inert
    by_cases hb : c = '\\'
    · subst hb
      cases cs with
      | nil => simp [inert] at hi
      | cons d ds => exact absurd rfl (hc d ds rfl)
    rw [inert_cons c cs hb] at hi
    have hsub : ∀ d,d ∉ c::cs → d ∉ cs := fun d hd hm => hd (List.mem_cons_of_mem _ hm)
    have hne : ∀ d,d ∉ c::cs → c ≠ d := fun d hd he => hd (he ▸ List.mem_cons_self)
    obtain ⟨hu,hv⟩ := ih (hsub _ h0)
      ⟨hsub _ h.noLineFeed,hsub _ h.noReturn,fun hg => hsub _ (h.noQuote hg),hi⟩
    by_cases hq : g=true ∧ c = '"'
    · obtain ⟨rfl,rfl⟩ := hq
      rw [guarded_quote,unbroken_escape,unescape_quote,hv]
      exact ⟨by simp [hu],rfl⟩
    · have hcq : c ≠ '"' := by
        cases g with
        | true => exact fun he => hq ⟨rfl,he⟩
        | false => exact hne _ (h.noQuote rfl)
      rw [guarded_cons g c cs hq,unbroken_cons _ _ _ hb,unescape_plain c _ hb,hv]
      exact ⟨by simp [hne _ h0,hcq,hne _ h.noLineFeed,hu],rfl⟩

theorem guarded_no_cr (h : '\r' ∉ s) : '\r' ∉ guarded g s := by
  intro hm
  obtain ⟨c,hc,hm⟩ := List.mem_flatMap.mp hm
  split at hm
  · simp at hm
  · rw [List.mem_singleton] at hm
    exact h (hm ▸ hc)

theorem guarded_iff (h0 : '\x00' ∉ s) : (unbroken '"' (newlines (guarded g s))=true ∧
      unescape (newlines (guarded g s))=some s) ↔ Exact g s := by
  constructor
  · rintro ⟨hu,hv⟩
    exact exact_of_guarded g s false s hu hv rfl
  · intro h
    rw [newlines_of_not_mem _ (guarded_no_cr g s h.noReturn)]
    exact guarded_of_exact g s h0 h

theorem good_iff (s : Slot) (v : String) (hf : s.form=stringForm)
    (hm : s.Means=fun body => stringForm.value? body=some v.toList) :
    s.Good ↔ unbroken '"' (newlines s.inner)=true ∧
      unescape (newlines s.inner)=some v.toList := by
  have hw : s.Whole ↔ unbroken '"' (newlines s.inner)=true := by
    rw [Slot.Whole,hf]
    exact ⟨fun h => h rfl,fun h _ => h⟩
  rw [Slot.Good,hw,hm]
  rfl

theorem quoteEscaped_iff (s : String) (h0 : NulFree s) :
    (quoteEscaped s).Good ↔ Exact true s.toList := by
  have hin : (quoteEscaped s).inner=guarded true s.toList := by
    simp [quoteEscaped,replaceChar,guarded]
  rw [good_iff _ s rfl rfl,hin,guarded_iff true s.toList h0]

theorem bare_iff (s : String) (h0 : NulFree s) :
    (bare s).Good ↔ Exact false s.toList := by
  have hin : (bare s).inner=guarded false s.toList := (guarded_false s.toList).symm
  rw [good_iff _ s rfl rfl,hin,guarded_iff false s.toList h0]

theorem removeBlanks_length : (replaceChar ' ' [] s).length ≤ s.length := by
  induction s with
  | nil => exact Nat.le_refl _
  | cons c cs ih =>
    rw [replaceChar,List.flatMap_cons,List.length_append,List.length_cons]
    change _+(replaceChar ' ' [] cs).length ≤ _
    split <;> simp only [List.length_nil,List.length_singleton] <;> omega

theorem removeBlanks_eq_iff :
    (replaceChar ' ' [] s).length=s.length ↔ ' ' ∉ s := by
  induction s with
  | nil => simp [replaceChar]
  | cons c cs ih =>
    have hle := removeBlanks_length cs
    rw [replaceChar,List.flatMap_cons,List.length_append,List.length_cons]
    change _+(replaceChar ' ' [] cs).length=_ ↔ _
    split
    · rename_i hc
      subst hc
      simp only [List.length_nil,List.mem_cons,true_or,not_true_eq_false,iff_false]
      omega
    · rename_i hc
      rw [List.length_singleton,List.mem_cons,not_or,← ih]
      constructor
      · intro h
        exact ⟨fun he => hc he.symm,by omega⟩
      · intro h
        omega

theorem removeBlanks_self (h : ' ' ∉ s) : replaceChar ' ' [] s=s := by
  induction s with
  | nil => rfl
  | cons c cs ih =>
    obtain ⟨hc,hcs⟩ := List.ne_and_not_mem_of_not_mem_cons h
    rw [replaceChar,List.flatMap_cons,if_neg (fun he => hc he.symm)]
    exact congrArg (c::·) (ih hcs)

theorem cleanHex_iff (s : String) (h0 : NulFree s) :
    (cleanHex s).Good ↔ Exact false s.toList ∧ ' ' ∉ s.toList := by
  rw [good_iff _ s rfl rfl]
  have hin : (cleanHex s).inner=replaceChar ' ' [] s.toList := rfl
  rw [hin]
  constructor
  · rintro ⟨hu,hv⟩
    have hlen := guarded_length false (replaceChar ' ' [] s.toList) false 0 s.toList (by
      rw [guarded_false]
      exact hv)
    have hle := removeBlanks_length s.toList
    have hb := (removeBlanks_eq_iff s.toList).mp (by omega)
    rw [removeBlanks_self _ hb] at hu hv
    refine ⟨(guarded_iff false s.toList h0).mp ?_,hb⟩
    rw [guarded_false]
    exact ⟨hu,hv⟩
  · rintro ⟨he,hb⟩
    have h := (guarded_iff false s.toList h0).mpr he
    rw [guarded_false] at h
    rw [removeBlanks_self _ hb]
    exact h

theorem unbroken_append (q : Char) (a b : List Char) (h : unbroken q a=true) :
    unbroken q (a++b)=unbroken q b := by
  induction a using unbroken.induct with
  | case1 => rfl
  | case2 d ds ih =>
    rw [unbroken_escape,Bool.and_eq_true] at h
    rw [List.cons_append,List.cons_append,unbroken_escape,h.1,Bool.true_and,ih h.2]
  | case3 c cs hc ih =>
    by_cases hb : c = '\\'
    · subst hb
      cases cs with
      | nil => simp [unbroken] at h
      | cons d ds => exact absurd rfl (hc d ds rfl)
    · rw [unbroken_cons _ _ _ hb,Bool.and_eq_true] at h
      rw [List.cons_append,unbroken_cons _ _ _ hb,h.1,Bool.true_and,ih h.2]

/-- What the message needs of its own text. -/
structure MessageStart (start : String) : Prop where
  unbroken : unbroken '"' start.toList=true
  inert : inert start.toList=true
  noBrace : ∀ c ∈ start.toList,isBrace c=false
  noReturn : '\r' ∉ start.toList
  nonempty : start.toList ≠ []

theorem noBrace_of_all {t : List Char} (h : t.all (fun c => !isBrace c)=true) :
    ∀ c ∈ t,isBrace c=false :=
  fun c hc => by simpa using List.all_eq_true.mp h c hc

theorem messageStart_remote : MessageStart "Failed to load remote debugger '" :=
  ⟨by decide,by decide,noBrace_of_all (by decide),by decide,by decide⟩

theorem messageStart_local : MessageStart "Failed to load debugger '" :=
  ⟨by decide,by decide,noBrace_of_all (by decide),by decide,by decide⟩

def messageTail : List Char := messageField.toList++['\x7d',')']

theorem messageTail_chunks : chunksFrom (some []) [] messageTail=
    some [.field messageField.toList,.text [')']] := by decide

theorem text_of_values {cs vs : List Chunk} {v : List Char}
    (h : cs.mapM Chunk.value?=some (.text v::vs)) :
    ∃ w rest,cs=.text w::rest ∧ unescape w=some v := by
  cases cs with
  | nil => simp at h
  | cons c rest =>
    simp only [List.mapM_cons,Option.bind_eq_bind,Option.bind_eq_some_iff] at h
    obtain ⟨x,hx,xs,_,he⟩ := h
    obtain ⟨rfl,_⟩ := List.cons.inj (Option.some.inj he)
    cases c with
    | text w =>
      obtain ⟨v',hv,hx'⟩ := Option.map_eq_some_iff.mp hx
      exact ⟨w,rest,rfl,hv.trans (congrArg some (Chunk.text.inj hx'))⟩
    | field e => exact nomatch Option.some.inj hx

section Message
variable {start name : String} (hs : MessageStart start) (he : Exact false name.toList)
  (h0 : NulFree name)
include hs he

theorem newlines_message :
    newlines (failMessage start name).inner=(failMessage start name).inner := by
  refine newlines_of_not_mem _ fun h => ?_
  have hend : '\r' ∉ messageEnd.toList := by decide
  have htail : '\r' ∉ messageField.toList++['\x7d',')'] := by decide
  simp only [failMessage,List.mem_append,List.mem_cons] at h
  rcases h with ((h | h) | h) | h | h
  · exact hs.noReturn h
  · exact he.noReturn h
  · exact hend h
  · exact absurd h (by decide)
  · exact htail (by simpa using h)

include h0

theorem failMessage_whole : (failMessage start name).Whole := by
  intro _
  rw [newlines_message hs he]
  have hname := (guarded_of_exact false name.toList h0 he).1
  rw [guarded_false] at hname
  have hin : (failMessage start name).inner=
      start.toList++(name.toList++(messageEnd.toList ++ '\x7b'::messageTail)) := by
    simp [failMessage,messageTail]
  rw [hin]
  show Lib.Python.unbroken '"' _=true
  rw [unbroken_append _ _ _ hs.unbroken,unbroken_append _ _ _ hname]
  decide

theorem failMessage_iff :
    (failMessage start name).Good ↔ ∀ c ∈ name.toList,isBrace c=false := by
  have hw := failMessage_whole hs he h0
  have hin : (failMessage start name).inner=
      (start.toList++name.toList++messageEnd.toList) ++ '\x7b'::messageTail := by
    simp [failMessage,messageTail]
  have hz : messageTail.head? ≠ some '\x7b' := by decide
  have hend : ∀ c ∈ messageEnd.toList,isBrace c=false := noBrace_of_all (by decide)
  have hm : (failMessage start name).Good ↔
      formatted? ((start.toList++name.toList++messageEnd.toList) ++ '\x7b'::messageTail)=
        some [.text (start.toList++name.toList++messageEnd.toList),.field messageField.toList,
          .text [')']] := by
    rw [Slot.Good,newlines_message hs he,← hin]
    exact ⟨fun h => h.2,fun h => ⟨hw,h⟩⟩
  rw [hm,formatted?]
  constructor
  · intro h
    obtain ⟨cs,hcs,hv⟩ := Option.bind_eq_some_iff.mp h
    obtain ⟨w,rest,rfl,hw⟩ := text_of_values hv
    have hlast : ∀ x,(start.toList++name.toList++messageEnd.toList).getLast?=some x →
        isBrace x=false := by
      intro x hx
      rw [List.getLast?_append_of_ne_nil _ (by decide)] at hx
      exact hend x (List.mem_of_getLast? hx)
    obtain ⟨hle,heq⟩ := chunksFrom_text _ [] _ _ _ hlast hz hcs
    have hlen := unescapeFrom_length 0 _ _ hw
    rw [List.length_nil,Nat.zero_add] at hle heq
    intro c hc
    exact heq (Nat.le_antisymm hle hlen) c (by simp [hc])
  · intro h
    have hall : ∀ c ∈ start.toList++name.toList++messageEnd.toList,isBrace c=false := by
      intro c hc
      simp only [List.mem_append] at hc
      rcases hc with (hc | hc) | hc
      · exact hs.noBrace c hc
      · exact h c hc
      · exact hend c hc
    have hne : (start.toList++name.toList++messageEnd.toList).reverse ≠ [] := by
      simp [hs.nonempty]
    have hflush : flush ((start.toList++name.toList++messageEnd.toList).reverse++[])=
        [.text (start.toList++name.toList++messageEnd.toList)] := by
      rw [List.append_nil,flush,if_neg hne,List.reverse_reverse]
    have hvalue : unescape (start.toList++name.toList++messageEnd.toList)=
        some (start.toList++name.toList++messageEnd.toList) := by
      have hlit : unescape messageEnd.toList=some messageEnd.toList := by decide
      rw [List.append_assoc,unescape_inert _ _ hs.inert,unescape_inert _ _ he.inert,hlit]
      rfl
    have hclose : unescape [')']=some [')'] := by decide
    rw [chunksFrom_plain _ _ _ hall,chunksFrom_open _ _ hz,messageTail_chunks,hflush]
    simp [Chunk.value?,-List.append_assoc,hvalue,hclose]

end Message

end Scripts
