import Mathlib.Data.List.Basic

/-!
# Collecting up to a number

A search that pushes what it finds until it has enough returns the first of all
there is to find: `capped n acc xs` is what stands after `xs` were met. Loops
that stop when they have enough are shown equal to it, one after the other.
-/

namespace Lib
variable {α β : Type}

def capped (n : Nat) (acc xs : List α) : List α := (acc++xs).take n

@[simp] theorem capped_nil {n : Nat} {acc : List α} (h : acc.length ≤ n) : capped n acc []=acc := by
  rw [capped,List.append_nil,List.take_of_length_le h]

theorem capped_full {n : Nat} {acc : List α} (h : acc.length ≤ n) (hf : n ≤ acc.length)
    (xs : List α) : capped n acc xs=acc := by
  have hn : acc.length=n := Nat.le_antisymm h hf
  rw [capped,← hn,List.take_left']
  rfl

theorem capped_push (n : Nat) (acc : List α) (x : α) (xs : List α) :
    capped n acc (x::xs)=capped n (acc++[x]) xs := by
  rw [capped,capped,List.append_assoc]
  rfl

theorem length_capped_le (n : Nat) (acc xs : List α) : (capped n acc xs).length ≤ n :=
  List.length_take_le ..

theorem capped_append (n : Nat) (acc xs ys : List α) :
    capped n (capped n acc xs) ys=capped n acc (xs++ys) := by
  rw [capped,capped,capped,← List.append_assoc]
  by_cases h : (acc++xs).length ≤ n
  · rw [List.take_of_length_le h]
  · have hl : ((acc++xs).take n).length=n := by rw [List.length_take]; omega
    have hr : (acc++xs++ys).take n=(acc++xs).take n :=
      List.take_append_of_le_length (Nat.le_of_lt (Nat.lt_of_not_le h))
    rw [List.take_left' hl,hr]

/-- A loop over candidates that pushes those with something to show. -/
def pushEach (n : Nat) (f : α → Option β) : List α → List β → List β
  | [],acc => acc
  | x::xs,acc =>
    if n ≤ acc.length then acc
    else match f x with
      | some y => pushEach n f xs (acc++[y])
      | none => pushEach n f xs acc

theorem pushEach_eq {n : Nat} {f : α → Option β} {xs : List α} {acc : List β} (h : acc.length ≤ n) :
    pushEach n f xs acc=capped n acc (xs.filterMap f) := by
  induction xs generalizing acc with
  | nil => rw [List.filterMap_nil,capped_nil h]; rfl
  | cons x xs ih =>
    rw [pushEach]
    by_cases hf : n ≤ acc.length
    · rw [if_pos hf,capped_full h hf]
    · rw [if_neg hf]
      cases hx : f x with
      | none =>
        dsimp only
        rw [ih h,List.filterMap_cons_none hx]
      | some y =>
        have hl : (acc++[y]).length ≤ n := by
          rw [List.length_append,List.length_singleton]
          omega
        dsimp only
        rw [ih hl,List.filterMap_cons_some hx,capped_push]

end Lib
