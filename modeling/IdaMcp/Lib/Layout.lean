import Mathlib.Data.List.Basic
import Mathlib.Data.List.Nodup

/-!
# Tables laid out one after another

Elements are put at increasing offsets, each where the one before ends, and a
list is cut down to the first element of each key.
-/

namespace Lib

section
variable {α : Type} (next : Nat → α → Nat)

/-- Each element with its offset. `next o a` is where the element `a` at `o`
ends. -/
def place (o : Nat) : List α → List (Nat × α)
  | [] => []
  | a::as => (o,a)::place (next o a) as

def placeEnd (o : Nat) (as : List α) : Nat := as.foldl next o

theorem place_append (o : Nat) (as bs : List α) :
    place next o (as++bs)=place next o as++place next (placeEnd next o as) bs := by
  induction as generalizing o with
  | nil => rfl
  | cons a as ih =>
    rw [List.cons_append,place,place,ih]
    rfl

theorem place_snd (o : Nat) (as : List α) : (place next o as).map Prod.snd=as := by
  induction as generalizing o with
  | nil => rfl
  | cons a as ih => rw [place,List.map_cons,ih]

theorem mem_of_mem_place {next : Nat → α → Nat} {o p : Nat} {a : α} {as : List α}
    (h : (p,a)∈place next o as) : a∈as := by
  have hm:=List.mem_map_of_mem (f := Prod.snd) h
  rwa [place_snd] at hm

theorem exists_mem_place (o : Nat) {a : α} {as : List α} (h : a∈as) :
    ∃ p,(p,a)∈place next o as := by
  rw [← place_snd next o as] at h
  obtain ⟨⟨p,b⟩,hm,rfl⟩:=List.mem_map.mp h
  exact ⟨p,hm⟩

variable {next}
variable (grows : ∀ o a,o<next o a)
include grows

theorem le_of_mem_place {o p : Nat} {a : α} {as : List α} (h : (p,a)∈place next o as) : o ≤ p := by
  induction as generalizing o with
  | nil => cases h
  | cons b as ih =>
    rcases List.mem_cons.mp h with h | h
    · exact Nat.le_of_eq (congrArg Prod.fst h).symm
    · exact Nat.le_trans (Nat.le_of_lt (grows o b)) (ih h)

theorem le_placeEnd (o : Nat) (as : List α) : o ≤ placeEnd next o as := by
  induction as generalizing o with
  | nil => exact Nat.le_refl o
  | cons a as ih => exact Nat.le_trans (Nat.le_of_lt (grows o a)) (ih (next o a))

end

section
variable {α κ : Type} [DecidableEq κ] (key : α → κ)

def keepFirst (acc : List α) (x : α) : List α :=
  if acc.any (fun y => key y=key x) then acc else acc++[x]

def firsts (xs : List α) : List α := xs.foldl (keepFirst key) []

theorem firsts_spec (acc xs : List α) (hn : acc.Pairwise fun x y => key x≠key y) :
    (xs.foldl (keepFirst key) acc).Pairwise (fun x y => key x≠key y) ∧
      (∀ x ∈ xs.foldl (keepFirst key) acc,x∈acc ∨ x∈xs) ∧
      (∀ x,x∈acc ∨ x∈xs → ∃ y ∈ xs.foldl (keepFirst key) acc,key y=key x) := by
  induction xs generalizing acc with
  | nil =>
    refine ⟨hn,fun x hx => .inl hx,?_⟩
    rintro x (hx | hx)
    · exact ⟨x,hx,rfl⟩
    · cases hx
  | cons z xs ih =>
    rw [List.foldl_cons]
    by_cases hz : acc.any (fun y => key y=key z)=true
    · obtain ⟨y,hy,hk⟩:=List.any_eq_true.mp hz
      obtain ⟨h1,h2,h3⟩:=ih acc hn
      rw [keepFirst,if_pos hz]
      refine ⟨h1,fun x hx => (h2 x hx).imp id (List.mem_cons_of_mem z),?_⟩
      rintro x (hx | hx)
      · exact h3 x (.inl hx)
      · rcases List.mem_cons.mp hx with rfl | hx
        · obtain ⟨w,hw,he⟩:=h3 y (.inl hy)
          exact ⟨w,hw,he.trans (of_decide_eq_true hk)⟩
        · exact h3 x (.inr hx)
    · have hn' : (acc++[z]).Pairwise fun x y => key x≠key y := by
        refine List.pairwise_append.mpr ⟨hn,List.pairwise_singleton ..,?_⟩
        intro x hx y hy he
        rw [List.mem_singleton.mp hy] at he
        exact hz (List.any_eq_true.mpr ⟨x,hx,decide_eq_true he⟩)
      obtain ⟨h1,h2,h3⟩:=ih (acc++[z]) hn'
      rw [keepFirst,if_neg hz]
      refine ⟨h1,?_,?_⟩
      · intro x hx
        rcases h2 x hx with hx | hx
        · rcases List.mem_append.mp hx with hx | hx
          · exact .inl hx
          · exact .inr (List.mem_singleton.mp hx ▸ List.mem_cons_self)
        · exact .inr (List.mem_cons_of_mem z hx)
      · rintro x (hx | hx)
        · exact h3 x (.inl (List.mem_append_left _ hx))
        · rcases List.mem_cons.mp hx with rfl | hx
          · exact h3 x (.inl (List.mem_append_right _ List.mem_cons_self))
          · exact h3 x (.inr hx)

theorem firsts_distinct (xs : List α) : (firsts key xs).Pairwise fun x y => key x≠key y :=
  (firsts_spec key [] xs .nil).1

theorem mem_of_mem_firsts {xs : List α} {x : α} (h : x∈firsts key xs) : x∈xs :=
  ((firsts_spec key [] xs .nil).2.1 x h).resolve_left List.not_mem_nil

theorem firsts_keys [BEq κ] [LawfulBEq κ] (xs : List α) :
    (firsts key xs).map key=(xs.map key).eraseDups := by
  have hgen : ∀ acc : List α,(xs.foldl (keepFirst key) acc).map key=
      acc.map key++((xs.map key).filter fun k => k∉acc.map key).eraseDups := by
    induction xs with
    | nil => exact fun acc => (List.append_nil _).symm
    | cons z xs ih =>
      intro acc
      rw [List.foldl_cons,ih,List.map_cons,List.filter_cons,keepFirst]
      by_cases hz : key z∈acc.map key
      · have hany : acc.any (fun y => key y=key z)=true := by
          obtain ⟨y,hy,he⟩:=List.mem_map.mp hz
          exact List.any_eq_true.mpr ⟨y,hy,decide_eq_true he⟩
        rw [if_pos hany,if_neg (by simpa using hz)]
      · have hany : ¬acc.any (fun y => key y=key z)=true := by
          intro ha
          obtain ⟨y,hy,he⟩:=List.any_eq_true.mp ha
          exact hz (List.mem_map.mpr ⟨y,hy,of_decide_eq_true he⟩)
        rw [if_neg hany,if_pos (by simpa using hz),List.eraseDups_cons,List.filter_filter,
          List.map_append,List.append_assoc,List.map_singleton,List.singleton_append]
        refine congrArg (acc.map key++key z::·.eraseDups) (List.filter_congr fun k _ => ?_)
        by_cases hk : k=key z <;> simp [hk]
  refine (hgen []).trans ?_
  simp

end

section
variable {κ β : Type} [DecidableEq κ]

def put (d : List (κ × β)) (k : κ) (v : β) : List (κ × β) :=
  if d.any (fun e => e.1=k) then d.map fun e => if e.1=k then (k,v) else e else d++[(k,v)]

def putAll (d es : List (κ × β)) : List (κ × β) := es.foldl (fun d e => put d e.1 e.2) d

theorem mem_put {d : List (κ × β)} {k : κ} {v : β} {e : κ × β} (h : e∈put d k v) :
    e=(k,v) ∨ e.1≠k ∧ e∈d := by
  rw [put] at h
  split at h
  · obtain ⟨x,hx,rfl⟩:=List.mem_map.mp h
    by_cases hk : x.1=k
    · rw [if_pos hk]
      exact .inl rfl
    · rw [if_neg hk]
      exact .inr ⟨hk,hx⟩
  · next hn =>
    rcases List.mem_append.mp h with h | h
    · refine .inr ⟨?_,h⟩
      intro hk
      exact hn (List.any_eq_true.mpr ⟨e,h,decide_eq_true hk⟩)
    · exact .inl (List.mem_singleton.mp h)

theorem mem_putAll {d es : List (κ × β)} {e : κ × β} (h : e∈putAll d es) :
    e∈es ∨ e∈d ∧ ∀ x ∈ es,x.1≠e.1 := by
  induction es generalizing d with
  | nil => exact .inr ⟨h,fun x hx => by cases hx⟩
  | cons x es ih =>
    rcases ih (show e∈putAll (put d x.1 x.2) es from h) with h | ⟨h,hn⟩
    · exact .inl (List.mem_cons_of_mem x h)
    · rcases mem_put h with rfl | ⟨hne,h⟩
      · exact .inl List.mem_cons_self
      · refine .inr ⟨h,?_⟩
        intro y hy
        rcases List.mem_cons.mp hy with rfl | hy
        · exact hne.symm
        · exact hn y hy

theorem keys_put (d : List (κ × β)) (k : κ) (v : β) :
    (put d k v).map Prod.fst=
      if k∈d.map Prod.fst then d.map Prod.fst else d.map Prod.fst++[k] := by
  have hany : d.any (fun e => e.1=k)=true ↔ k∈d.map Prod.fst := by
    rw [List.any_eq_true,List.mem_map]
    constructor
    · rintro ⟨e,he,hk⟩
      exact ⟨e,he,of_decide_eq_true hk⟩
    · rintro ⟨e,he,hk⟩
      exact ⟨e,he,decide_eq_true hk⟩
  rw [put]
  by_cases h : k∈d.map Prod.fst
  · rw [if_pos h,if_pos (hany.mpr h),List.map_map]
    apply List.map_congr_left
    intro e _
    by_cases hk : e.1=k
    · rw [Function.comp_apply,if_pos hk,hk]
    · rw [Function.comp_apply,if_neg hk]
  · rw [if_neg h,if_neg (fun ha => h (hany.mp ha)),List.map_append]
    rfl

theorem keys_putAll {d d' es es' : List (κ × β)} (hd : d.map Prod.fst=d'.map Prod.fst)
    (he : es.map Prod.fst=es'.map Prod.fst) :
    (putAll d es).map Prod.fst=(putAll d' es').map Prod.fst := by
  induction es generalizing d d' es' with
  | nil =>
    cases es' with
    | nil => exact hd
    | cons x es' => cases he
  | cons x es ih =>
    cases es' with
    | nil => cases he
    | cons y es' =>
      obtain ⟨hxy,ht⟩:=List.cons.inj he
      have hput : (put d x.1 x.2).map Prod.fst=(put d' y.1 y.2).map Prod.fst := by
        rw [keys_put,keys_put,hd,hxy]
      have hrest:=ih hput ht
      exact hrest

end

end Lib
