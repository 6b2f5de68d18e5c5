import Mathlib.Data.List.Basic

/-!
# Pages of a filtered list

One pass over the items counts those that are kept, skips the first of them up
to an offset and takes as many as a limit allows. What a page leaves is where
the next one starts, so pages that follow each other cover the list.
-/

namespace Lib

structure Page (β : Type) where
  items : List β
  total : Nat
  nextOffset : Option UInt64

/-- The state of the pass. -/
structure Pass (β : Type) where
  items : List β := []
  total : Nat := 0

variable {α β : Type}

def Pass.step (offset limit : UInt64) (keep : α → Bool) (render : α → β) (acc : Pass β) (x : α) :
    Pass β :=
  if keep x then
    let total:=acc.total+1
    if total ≤ offset.toNat then {acc with total}
    else if limit.toNat ≤ acc.items.length then {acc with total}
    else ⟨acc.items++[render x],total⟩
  else acc

def saturatingAdd (a : UInt64) (n : Nat) : UInt64 := UInt64.ofNat (min (a.toNat+n) (UInt64.size-1))

namespace Page

def ofPass (offset : UInt64) (pass : Pass β) : Page β :=
  let next:=saturatingAdd offset pass.items.length
  ⟨pass.items,pass.total,if next.toNat < pass.total then some next else none⟩

def of (keep : α → Bool) (render : α → β) (xs : List α) (offset limit : UInt64) : Page β :=
  ofPass offset (xs.foldl (Pass.step offset limit keep render) {})

/-- Pages one after the other, with limits of their own, until one says it is the last. -/
def crawl (fetch : UInt64 → UInt64 → Option (Page β)) (limits : Nat → UInt64) :
    (fuel k : Nat) → (offset : UInt64) → Option (List (Page β))
  | 0,_,_ => none
  | fuel+1,k,offset => match fetch offset (limits k) with
    | none => none
    | some page => match page.nextOffset with
      | none => some [page]
      | some next => (crawl fetch limits fuel (k+1) next).map (page::·)

end Page

/-- What the pass has taken from the kept items it has met. -/
def Pass.after (offset limit : UInt64) (render : α → β) (ys : List α) : Pass β :=
  ⟨((ys.drop offset.toNat).take limit.toNat).map render,ys.length⟩

theorem Pass.step_after (offset limit : UInt64) (keep : α → Bool) (render : α → β) (ys : List α)
    (x : α) : Pass.step offset limit keep render (Pass.after offset limit render ys) x=
      Pass.after offset limit render (ys++[x].filter keep) := by
  by_cases hk : keep x
  · have hf : [x].filter keep=[x] := by simp [hk]
    rw [Pass.step,if_pos hk,hf]
    simp only [Pass.after,List.length_append,List.length_singleton,List.length_map,
      List.length_take,List.length_drop]
    by_cases ho : ys.length+1 ≤ offset.toNat
    · have hd : (ys++[x]).drop offset.toNat=[] :=
        List.drop_eq_nil_of_le (by simpa using ho)
      have hd' : ys.drop offset.toNat=[] := List.drop_eq_nil_of_le (by omega)
      rw [if_pos ho,hd,hd']
    · have hd : (ys++[x]).drop offset.toNat=ys.drop offset.toNat++[x] :=
        List.drop_append_of_le_length (by omega)
      rw [if_neg ho,hd]
      by_cases hl : limit.toNat ≤ ys.length-offset.toNat
      · have ht : (ys.drop offset.toNat++[x]).take limit.toNat=
          (ys.drop offset.toNat).take limit.toNat :=
          List.take_append_of_le_length (by simpa using hl)
        rw [if_pos (by omega),ht]
      · have hlen : (ys.drop offset.toNat).length < limit.toNat := by
          rw [List.length_drop]
          omega
        have ht : (ys.drop offset.toNat++[x]).take limit.toNat=ys.drop offset.toNat++[x] :=
          List.take_of_length_le (by rw [List.length_append]; exact hlen)
        have ht' : (ys.drop offset.toNat).take limit.toNat=ys.drop offset.toNat :=
          List.take_of_length_le (Nat.le_of_lt hlen)
        rw [if_neg (by omega),ht,ht',List.map_append]
        rfl
  · have hf : [x].filter keep=[] := by simp [hk]
    rw [Pass.step,if_neg hk,hf,List.append_nil]

theorem Pass.foldl_after (offset limit : UInt64) (keep : α → Bool) (render : α → β)
    (ys xs : List α) :
    xs.foldl (Pass.step offset limit keep render) (Pass.after offset limit render ys)=
      Pass.after offset limit render (ys++xs.filter keep) := by
  induction xs generalizing ys with
  | nil => simp
  | cons x xs ih =>
    rw [List.foldl_cons,Pass.step_after,ih,List.append_assoc,← List.filter_append]
    rfl

theorem Page.of_eq (keep : α → Bool) (render : α → β) (xs : List α) (offset limit : UInt64) :
    Page.of keep render xs offset limit=
      ofPass offset (Pass.after offset limit render (xs.filter keep)) := by
  have hs : Pass.after offset limit render ([] : List α)={} := by simp [Pass.after]
  rw [Page.of,← hs,Pass.foldl_after,List.nil_append]

theorem Page.total_of_le (keep : α → Bool) (render : α → β) (xs : List α) (offset limit : UInt64) :
    (Page.of keep render xs offset limit).total ≤ xs.length := by
  rw [Page.of_eq]
  exact List.length_filter_le ..

theorem saturatingAdd_toNat {a : UInt64} {n : Nat} (h : a.toNat+n < UInt64.size) :
    (saturatingAdd a n).toNat=a.toNat+n := by
  have hm : min (a.toNat+n) (UInt64.size-1)=a.toNat+n := Nat.min_eq_left (by omega)
  rw [saturatingAdd,hm,UInt64.toNat_ofNat_of_lt' h]

theorem Page.crawl_rest {fetch : UInt64 → UInt64 → Option (Page β)} {all : List α}
    {render : α → β} (hall : all.length < UInt64.size) {limits : Nat → UInt64}
    (hfetch : ∀ offset k,
      fetch offset (limits k)=some (ofPass offset (Pass.after offset (limits k) render all)))
    (hlim : ∀ k,1 ≤ limits k) (fuel k : Nat) (offset : UInt64)
    (ho : offset.toNat ≤ all.length) (hfuel : all.length-offset.toNat < fuel) :
    ∃ pages,crawl fetch limits fuel k offset=some pages ∧
      pages.flatMap Page.items=(all.drop offset.toNat).map render ∧
      ∀ page∈pages,page.total=all.length := by
  induction fuel generalizing k offset with
  | zero => exact absurd hfuel (Nat.not_lt_zero _)
  | succ fuel ih =>
    have hl : 1 ≤ (limits k).toNat := UInt64.le_iff_toNat_le.mp (hlim k)
    -- the page and the place after it
    have hlen : (((all.drop offset.toNat).take (limits k).toNat).map render).length=
        min (limits k).toNat (all.length-offset.toNat) := by simp
    have hnext:=saturatingAdd_toNat (a := offset)
      (n := min (limits k).toNat (all.length-offset.toNat)) (by omega)
    rw [crawl,hfetch]
    simp only [ofPass,Pass.after,hlen]
    by_cases hlast : (saturatingAdd offset (min (limits k).toNat (all.length-offset.toNat))).toNat <
        all.length
    · rw [if_pos hlast]
      obtain ⟨pages,hp,hitems,htotal⟩:=ih (k+1) _ (Nat.le_of_lt hlast) (by omega)
      refine ⟨_,congrArg (Option.map _) hp,?_,?_⟩
      · have hmin : min (limits k).toNat (all.length-offset.toNat)=(limits k).toNat := by omega
        rw [List.flatMap_cons,hitems,hnext,hmin,← List.map_append,← List.drop_drop,
          List.take_append_drop]
      · intro page hm
        rcases List.mem_cons.mp hm with rfl | hm
        · rfl
        · exact htotal page hm
    · rw [if_neg hlast]
      refine ⟨_,rfl,?_,?_⟩
      · have ht : (all.drop offset.toNat).take (limits k).toNat=all.drop offset.toNat :=
          List.take_of_length_le (by rw [List.length_drop]; omega)
        simp [ht]
      · intro page hm
        rw [List.mem_singleton.mp hm]

end Lib
