import Mathlib.Logic.Relation

/-!
# No circular wait from ranks

Owners wait for locks and hold locks. If whoever waits for a lock holds only
locks of smaller rank, ranks grow strictly along the wait-for relation, so no
owner waits, directly or through others, for itself.
-/

namespace Lib.LockOrder
variable {ι μ : Type} (wants : ι → μ → Prop) (holds : ι → μ → Prop)

def Blocks (i j : ι) : Prop := ∃ m, wants i m ∧ holds j m

theorem rank_along {rank : μ → Nat}
    (hord : ∀ i m n, wants i m → holds i n → rank n < rank m) {i j : ι}
    (h : Relation.TransGen (Blocks wants holds) i j) :
    ∃ m n, wants i m ∧ holds j n ∧ rank m ≤ rank n := by
  induction h with
  | single h =>
    obtain ⟨m,hw,hh⟩:=h
    exact ⟨m,m,hw,hh,Nat.le_refl _⟩
  | @tail j k _ hjk ih =>
    obtain ⟨m,n,hw,hh,hle⟩:=ih
    obtain ⟨m',hw',hh'⟩:=hjk
    exact ⟨m,m',hw,hh',Nat.le_trans hle (Nat.le_of_lt (hord j m' n hw' hh))⟩

theorem no_circular_wait (rank : μ → Nat)
    (hord : ∀ i m n, wants i m → holds i n → rank n < rank m) (i : ι) :
    ¬Relation.TransGen (Blocks wants holds) i i := by
  intro h
  obtain ⟨m,n,hw,hh,hle⟩:=rank_along wants holds hord h
  exact absurd (hord i m n hw hh) (Nat.not_lt.mpr hle)

end Lib.LockOrder
