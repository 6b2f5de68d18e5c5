import IdaMcp.Lib.Moves
import Mathlib.Algebra.GroupWithZero.Nat

/-!
# Little-endian words in a byte memory

A word is the number its bytes spell, the lowest first, and storing one is a
move of a constant into each of its bytes.
-/

namespace Lib

/-- The word of `n` bytes at `o`. -/
def word (n : Nat) (mem : Nat → UInt8) (o : Nat) : Nat :=
  match n with
  | 0 => 0
  | n+1 => (mem o).toNat+256*word n mem (o+1)

def store (n v o : Nat) : List (Move Nat UInt8) :=
  (List.range n).map fun i => ⟨o+i,.value (UInt8.ofNat (v/256^i))⟩

theorem word_lt (n : Nat) (mem : Nat → UInt8) (o : Nat) : word n mem o<256^n := by
  induction n generalizing o with
  | zero => exact Nat.one_pos
  | succ n ih =>
    have hb:=(mem o).toNat_lt
    have hi:=ih (o+1)
    rw [word,Nat.pow_succ]
    omega

theorem byte_word (n : Nat) (mem : Nat → UInt8) (o i : Nat) (h : i<n) :
    UInt8.ofNat (word n mem o/256^i)=mem (o+i) := by
  induction n generalizing o i with
  | zero => omega
  | succ n ih =>
    rw [word]
    cases i with
    | zero =>
      rw [Nat.pow_zero,Nat.div_one,Nat.add_zero]
      apply UInt8.toNat_inj.mp
      rw [UInt8.toNat_ofNat',Nat.add_mul_mod_self_left]
      exact Nat.mod_eq_of_lt (mem o).toNat_lt
    | succ i =>
      have hd : ((mem o).toNat+256*word n mem (o+1))/256^(i+1)=word n mem (o+1)/256^i := by
        rw [Nat.pow_succ',← Nat.div_div_eq_div_mul,Nat.add_mul_div_left _ _ (by decide),
          Nat.div_eq_of_lt (mem o).toNat_lt,Nat.zero_add]
      rw [hd,ih (o+1) i (by omega),Nat.add_assoc o 1 i,Nat.add_comm 1 i]

theorem word_eq_iff (n : Nat) (mem mem' : Nat → UInt8) (o : Nat) :
    word n mem o=word n mem' o ↔ ∀ i < n,mem (o+i)=mem' (o+i) := by
  constructor
  · intro h i hi
    rw [← byte_word n mem o i hi,← byte_word n mem' o i hi,h]
  · intro h
    induction n generalizing o with
    | zero => rfl
    | succ n ih =>
      have ht:=ih (o+1) fun i hi => by
        have hs:=h (i+1) (by omega)
        rwa [Nat.add_comm i 1,← Nat.add_assoc] at hs
      rw [word,word,ht,show mem o=mem' o from h 0 (Nat.succ_pos n)]

theorem word_mod (m n : Nat) (mem : Nat → UInt8) (o : Nat) :
    word (m+n) mem o%256^m=word m mem o := by
  induction m generalizing o with
  | zero => rw [Nat.pow_zero,Nat.mod_one]; rfl
  | succ m ih =>
    have hb:=(mem o).toNat_lt
    rw [Nat.add_right_comm,word,word,← ih (o+1),Nat.pow_succ',Nat.mod_mul,
      Nat.add_mul_mod_self_left,Nat.mod_eq_of_lt hb,Nat.add_mul_div_left _ _ (by decide),
      Nat.div_eq_of_lt hb,Nat.zero_add]

theorem mem_store {n v o : Nat} {m : Move Nat UInt8} :
    m ∈ store n v o ↔ ∃ i < n,m=⟨o+i,.value (UInt8.ofNat (v/256^i))⟩ := by
  rw [store,List.mem_map]
  constructor
  · rintro ⟨i,hi,rfl⟩
    exact ⟨i,List.mem_range.mp hi,rfl⟩
  · rintro ⟨i,hi,rfl⟩
    exact ⟨i,List.mem_range.mpr hi,rfl⟩

theorem store_ordered (n v o : Nat) : Move.Ordered id (store n v o) := by
  rw [Move.Ordered,store,List.pairwise_map]
  exact (List.pairwise_lt_range (n := n)).imp fun h => Nat.add_lt_add_left h o

/-- Python's `range(start, stop, step)`. -/
def offsets (start stop step : Nat) : List Nat :=
  (List.range ((stop-start+step-1)/step)).map (start+step*·)

theorem mem_offsets {start stop step o : Nat} (hs : 0<step) :
    o ∈ offsets start stop step ↔ start ≤ o ∧ o<stop ∧ (o-start)%step=0 := by
  rw [offsets,List.mem_map]
  constructor
  · rintro ⟨i,hi,rfl⟩
    have hlt:=List.mem_range.mp hi
    have hm : step*(i+1) ≤ stop-start+step-1 := by
      rw [Nat.mul_comm]
      exact (Nat.le_div_iff_mul_le hs).mp hlt
    rw [Nat.mul_add,Nat.mul_one] at hm
    refine ⟨Nat.le_add_right _ _,by omega,?_⟩
    rw [Nat.add_sub_cancel_left,Nat.mul_mod_right]
  · rintro ⟨hle,hlt,hm⟩
    have hd:=Nat.div_add_mod (o-start) step
    refine ⟨(o-start)/step,?_,by omega⟩
    rw [List.mem_range]
    apply (Nat.le_div_iff_mul_le hs).mpr
    rw [Nat.mul_comm,Nat.mul_succ]
    omega

theorem offsets_apart (start stop step : Nat) :
    (offsets start stop step).Pairwise fun o p => o+step ≤ p := by
  rw [offsets,List.pairwise_map]
  refine (List.pairwise_lt_range (n := (stop-start+step-1)/step)).imp ?_
  intro i j hij
  have hm:=Nat.mul_le_mul_left step hij
  rw [Nat.mul_succ] at hm
  omega

end Lib
