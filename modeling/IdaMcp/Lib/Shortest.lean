import Mathlib.Data.List.Sort
import Mathlib.Data.List.Nodup
import Mathlib.Order.Lattice
import Mathlib.Algebra.GroupWithZero.Nat

/-!
# As few as are needed

Elements with a weight are taken off a total, from the first of a list on,
until what is left fits a limit.
-/

namespace Lib

section
variable {α : Type} (w : α → Nat)

def weight (xs : List α) : Nat := (xs.map w).sum

@[simp] theorem weight_nil : weight w []=0 := rfl
@[simp] theorem weight_cons (x : α) (xs : List α) : weight w (x::xs)=w x+weight w xs := by
  simp [weight]
@[simp] theorem weight_append (xs ys : List α) : weight w (xs++ys)=weight w xs+weight w ys := by
  simp [weight]

def shortest (limit : Nat) : Nat → List α → List α
  | _,[] => []
  | total,x::xs => if total ≤ limit then [] else x::shortest limit (total-w x) xs

variable {w}

end

section Order
variable {α β : Type} [LinearOrder β] (key : α → β)

/-- The elements from the smallest key on. -/
def arranged (xs : List α) : List α := xs.insertionSort fun a b => key a ≤ key b

theorem arranged_pairwise (xs : List α) : (arranged key xs).Pairwise fun a b => key a ≤ key b := by
  have ht : Std.Total fun a b : α => key a ≤ key b := ⟨fun a b => le_total (key a) (key b)⟩
  have hr : IsTrans α fun a b : α => key a ≤ key b := ⟨fun a b c => le_trans⟩
  exact List.pairwise_insertionSort _ xs

theorem arranged_perm (xs : List α) : (arranged key xs).Perm xs := List.perm_insertionSort _ xs

end Order
end Lib
