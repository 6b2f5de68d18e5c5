import IdaMcp.Lib.Text

/-!
# Tokens and the gaps between them

A text is cut at its separators and the empty parts are dropped. What was put
together from tokens, with separators between them, comes apart into the same
tokens; and what is no separator is in one of the tokens.
-/

namespace Lib
variable {α : Type} {sep : α → Bool}
variable {first : List α} {rest : List (List α × List α)}

/-- The parts between separators that are not empty. -/
def tokensOf (sep : α → Bool) (cs : List α) : List (List α) :=
  (cs.splitOnP sep).filter (!·.isEmpty)

/-- A token, and more of them with a gap in front of each. -/
def joined (first : List α) (rest : List (List α × List α)) : List α :=
  first++rest.flatMap fun p => p.1++p.2

theorem tokensOf_token {t : List α} (hne : t≠[]) (h : ∀ c∈t,sep c=false) :
    tokensOf sep t=[t] := by
  rw [tokensOf,List.splitOnP_eq_singleton h]
  cases t with
  | nil => exact absurd rfl hne
  | cons c cs => rfl

theorem tokensOf_append_cons {c : α} (h : sep c=true) (xs ys : List α) :
    tokensOf sep (xs++c::ys)=tokensOf sep xs++tokensOf sep ys := by
  rw [tokensOf,List.splitOnP_append_cons xs ys h,List.filter_append]
  rfl

theorem tokensOf_gap {gap : List α} (h : ∀ c∈gap,sep c=true) (cs : List α) :
    tokensOf sep (gap++cs)=tokensOf sep cs := by
  induction gap with
  | nil => rfl
  | cons c gap ih =>
    have ht:=tokensOf_append_cons (h c List.mem_cons_self) [] (gap++cs)
    rw [List.cons_append]
    exact ht.trans (ih fun x hx => h x (List.mem_cons_of_mem _ hx))

theorem tokensOf_joined (hf : first≠[] ∧ ∀ c∈first,sep c=false)
    (ht : ∀ p∈rest,p.2≠[] ∧ ∀ c∈p.2,sep c=false) (hg : ∀ p∈rest,p.1≠[] ∧ ∀ c∈p.1,sep c=true) :
    tokensOf sep (joined first rest)=first::rest.map Prod.snd := by
  induction rest generalizing first with
  | nil =>
    rw [joined,List.flatMap_nil,List.append_nil]
    exact tokensOf_token hf.1 hf.2
  | cons p rest ih =>
    have hrest:=ih (ht p List.mem_cons_self) (fun q hq => ht q (List.mem_cons_of_mem _ hq))
      fun q hq => hg q (List.mem_cons_of_mem _ hq)
    obtain ⟨hne,hsep⟩:=hg p List.mem_cons_self
    obtain ⟨c,gap,hp⟩:=List.exists_cons_of_ne_nil hne
    have hsplit : joined first (p::rest)=first++c::(gap++joined p.2 rest) := by
      rw [joined,List.flatMap_cons,hp,joined]
      simp only [List.cons_append,List.append_assoc]
    rw [hp] at hsep
    rw [hsplit,tokensOf_append_cons (hsep c List.mem_cons_self),tokensOf_token hf.1 hf.2,
      tokensOf_gap (fun x hx => hsep x (List.mem_cons_of_mem _ hx)),hrest]
    rfl

theorem head_joined (hf : first≠[]) : ∀ c∈(joined first rest).head?,c∈first := by
  intro c hc
  rw [joined,List.head?_append_of_ne_nil _ hf] at hc
  exact List.mem_of_mem_head? hc

theorem getLast_joined (ht : ∀ p∈rest,p.2≠[]) :
    ∀ c∈(joined first rest).getLast?,∃ t∈first::rest.map Prod.snd,c∈t := by
  intro c hc
  rcases List.eq_nil_or_concat rest with rfl | ⟨init,p,rfl⟩
  · rw [joined,List.flatMap_nil,List.append_nil] at hc
    exact ⟨first,List.mem_cons_self,List.mem_of_getLast? hc⟩
  · have hp:=ht p (by simp)
    rw [joined,List.concat_eq_append,List.flatMap_append,List.flatMap_singleton,← List.append_assoc,
      ← List.append_assoc,
      List.getLast?_append_of_ne_nil _ hp] at hc
    exact ⟨p.2,by simp,List.mem_of_getLast? hc⟩

theorem flatten_splitOnP (cs : List α) :
    (cs.splitOnP sep).flatten=cs.filter (!sep ·) := by
  induction cs with
  | nil => rfl
  | cons c cs ih =>
    rw [List.splitOnP_cons_eq_if_modifyHead]
    cases hs : sep c with
    | true => simp [hs,ih]
    | false =>
      obtain ⟨part,parts,hp⟩:=List.exists_cons_of_ne_nil (List.splitOnP_ne_nil sep cs)
      rw [hp] at ih ⊢
      rw [List.filter_cons_of_pos (by rw [hs]; rfl),← ih]
      rfl

theorem exists_token {cs : List α} {c : α} (hc : c∈cs) (hs : sep c=false) :
    ∃ t∈tokensOf sep cs,c∈t := by
  have hm : c∈(cs.splitOnP sep).flatten := by
    rw [flatten_splitOnP]
    exact List.mem_filter.mpr ⟨hc,by rw [hs]; rfl⟩
  obtain ⟨t,ht,hct⟩:=List.mem_flatten.mp hm
  refine ⟨t,List.mem_filter.mpr ⟨ht,?_⟩,hct⟩
  cases t with
  | nil => cases hct
  | cons x xs => rfl

end Lib
