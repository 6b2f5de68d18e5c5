import Mathlib.Data.List.Basic

/-!
# Replacing a text in a text

Every occurrence of a pattern, from the left and without overlap, is replaced.
The lemmas say how this goes through the parts of a text that the pattern
cannot touch.
-/

namespace Lib
variable {c : Char} {cs : List Char}

def replaceFrom (pat rep : List Char) : Nat → List Char → List Char
  | _,[] => []
  | 0,c::cs =>
    if pat.isPrefixOf (c::cs) then rep++replaceFrom pat rep (pat.length-1) cs
    else c::replaceFrom pat rep 0 cs
  | k+1,_::cs => replaceFrom pat rep k cs

/-- Python's `str.replace`, for a pattern that is not empty. -/
def replaceAll (pat rep cs : List Char) : List Char := replaceFrom pat rep 0 cs

section
variable {pat : List Char} (rep : List Char)

theorem replaceFrom_drop (k : Nat) (cs : List Char) :
    replaceFrom pat rep k cs=replaceAll pat rep (cs.drop k) := by
  induction k generalizing cs with
  | zero => rfl
  | succ k ih =>
    cases cs with
    | nil => rfl
    | cons c cs => exact ih cs

theorem replaceAll_hit (hp : pat≠[]) (cs : List Char) :
    replaceAll pat rep (pat++cs)=rep++replaceAll pat rep cs := by
  obtain ⟨p,ps,rfl⟩:=List.exists_cons_of_ne_nil hp
  have hpre : (p::ps).isPrefixOf (p::(ps++cs))=true :=
    List.isPrefixOf_iff_prefix.mpr (List.prefix_append (p::ps) cs)
  rw [List.cons_append,replaceAll,replaceFrom,if_pos hpre,replaceFrom_drop,List.length_cons,
    Nat.add_sub_cancel,List.drop_left]

theorem replaceAll_miss (h : ¬pat <+: c::cs) :
    replaceAll pat rep (c::cs)=c::replaceAll pat rep cs := by
  rw [replaceAll,replaceFrom,if_neg (fun hb => h (List.isPrefixOf_iff_prefix.mp hb))]
  rfl

@[elab_as_elim] theorem occurrences {motive : List Char → Prop} (hp : pat≠[])
    (nil : motive []) (hit : ∀ cs,motive cs → motive (pat++cs))
    (miss : ∀ c cs,¬pat <+: c::cs → motive cs → motive (c::cs)) (cs : List Char) :
    motive cs := by
  induction hn : cs.length using Nat.strongRecOn generalizing cs with
  | ind n ih =>
    cases cs with
    | nil => exact nil
    | cons c cs =>
      by_cases h : pat <+: c::cs
      · obtain ⟨rest,hr⟩:=h
        rw [← hr]
        apply hit
        refine ih rest.length ?_ rest rfl
        have hl:=congrArg List.length hr
        rw [List.length_append] at hl
        have h1:=List.length_pos_iff.mpr hp
        omega
      · refine miss c cs h (ih cs.length ?_ cs rfl)
        rw [← hn]
        exact Nat.lt_succ_self _

theorem replaceAll_before {p : Char} {ps : List Char} (xs ys : List Char) (h : p∉xs) :
    replaceAll (p::ps) rep (xs++ys)=xs++replaceAll (p::ps) rep ys := by
  induction xs with
  | nil => rfl
  | cons x xs ih =>
    have hx : ¬p::ps <+: x::(xs++ys) := by
      intro hpre
      obtain ⟨hpx,-⟩:=List.cons_prefix_cons.mp hpre
      exact h (hpx ▸ List.mem_cons_self)
    rw [List.cons_append,replaceAll_miss rep hx,ih fun hm => h (List.mem_cons_of_mem x hm)]
    rfl

theorem prefix_of_not_mem (xs : List Char) {ys : List Char} (hc : c∉pat) (h : pat <+: xs++c::ys) :
    pat <+: xs := by
  induction xs generalizing pat with
  | nil =>
    cases pat with
    | nil => exact List.nil_prefix
    | cons p ps =>
      obtain ⟨rfl,-⟩:=List.cons_prefix_cons.mp h
      exact absurd List.mem_cons_self hc
  | cons x xs ih =>
    cases pat with
    | nil => exact List.nil_prefix
    | cons p ps =>
      obtain ⟨rfl,ht⟩:=List.cons_prefix_cons.mp h
      exact List.cons_prefix_cons.mpr ⟨rfl,ih (fun hm => hc (List.mem_cons_of_mem p hm)) ht⟩

theorem replaceAll_across (hp : pat≠[]) (hc : c∉pat) (xs ys : List Char) :
    replaceAll pat rep (xs++c::ys)=replaceAll pat rep xs++c::replaceAll pat rep ys := by
  refine occurrences hp ?_ ?_ ?_ xs
  · have hm : ¬pat <+: c::ys := by
      intro h
      exact hp (List.prefix_nil.mp (prefix_of_not_mem [] hc h))
    exact replaceAll_miss rep hm
  · intro cs ih
    rw [List.append_assoc,replaceAll_hit rep hp,replaceAll_hit rep hp,ih,List.append_assoc]
  · intro x cs hm ih
    have hm' : ¬pat <+: x::(cs++c::ys) := fun h => hm (prefix_of_not_mem (x::cs) hc h)
    rw [List.cons_append,replaceAll_miss rep hm',ih,replaceAll_miss rep hm]
    rfl

theorem replaceAll_absent (hp : pat≠[]) (cs : List Char) (h : ¬pat <:+: cs) :
    replaceAll pat rep cs=cs := by
  revert h
  refine occurrences hp (fun _ => rfl) ?_ ?_ cs
  · intro cs _ h
    exact absurd (List.prefix_append pat cs).isInfix h
  · intro c cs hm ih h
    rw [replaceAll_miss rep hm,ih fun hi => h (hi.trans (List.suffix_cons c cs).isInfix)]

theorem mem_replaceAll (hp : pat≠[]) (hc : c∉pat) (h : c∈cs) : c∈replaceAll pat rep cs := by
  obtain ⟨xs,ys,rfl⟩:=List.append_of_mem h
  rw [replaceAll_across rep hp hc]
  exact List.mem_append_right _ List.mem_cons_self

theorem of_mem_replaceAll (hp : pat≠[]) (h : c∈replaceAll pat rep cs) : c∈rep ∨ c∈cs := by
  revert h
  refine occurrences hp .inr ?_ ?_ cs
  · intro cs ih h
    rw [replaceAll_hit rep hp] at h
    rcases List.mem_append.mp h with h | h
    · exact .inl h
    · exact (ih h).imp_right (List.mem_append_right pat)
  · intro x cs hm ih h
    rw [replaceAll_miss rep hm] at h
    rcases List.mem_cons.mp h with rfl | h
    · exact .inr List.mem_cons_self
    · exact (ih h).imp_right (List.mem_cons_of_mem x)

theorem rep_mem_replaceAll (hp : pat≠[]) (hc : c∈rep)
    (h : pat <:+: cs) : c∈replaceAll pat rep cs := by
  revert h
  refine occurrences hp ?_ ?_ ?_ cs
  · intro h
    exact absurd (List.infix_nil.mp h) hp
  · intro cs _ _
    rw [replaceAll_hit rep hp]
    exact List.mem_append_left _ hc
  · intro x cs hm ih h
    rw [replaceAll_miss rep hm]
    rcases List.infix_cons_iff.mp h with h | h
    · exact absurd h hm
    · exact List.mem_cons_of_mem x (ih h)

end

end Lib
