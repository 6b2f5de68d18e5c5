import Mathlib.Data.List.Basic

/-!
# Hexadecimal numerals

A numeral with leading zeros has one value, so a number can be read back from
its digits; and a text that is put together from parts without a separator
comes apart at the first separator in one way only.
-/

namespace Lib

def digitValue (c : Char) : Nat :=
  if c.toNat < 58 then c.toNat-48 else c.toNat-87

def hexValue (ds : List Char) : Nat := ds.foldl (fun n c => 16*n+digitValue c) 0

theorem digitValue_digitChar : ∀ n < 16,digitValue (Nat.digitChar n)=n := by decide

theorem hexValue_concat (ds : List Char) (c : Char) :
    hexValue (ds++[c])=16*hexValue ds+digitValue c := by
  rw [hexValue,List.foldl_append]
  rfl

@[simp] theorem hexValue_toDigits (n : Nat) : hexValue (Nat.toDigits 16 n)=n := by
  induction n using Nat.strongRecOn with
  | ind n ih =>
    rw [Nat.toDigits_eq_if (by decide)]
    split
    · next h =>
      change 16*0+digitValue _=n
      rw [digitValue_digitChar n h]
      omega
    · next h =>
      rw [hexValue_concat,ih (n/16) (by omega),digitValue_digitChar _ (by omega)]
      omega

@[simp] theorem hexValue_zeros (k : Nat) (ds : List Char) :
    hexValue (List.replicate k '0'++ds)=hexValue ds := by
  induction k with
  | zero => rfl
  | succ k ih => exact ih

theorem mem_toDigits {n : Nat} {c : Char} (h : c∈Nat.toDigits 16 n) :
    ∃ d < 16,c=Nat.digitChar d := by
  induction n using Nat.strongRecOn with
  | ind n ih =>
    rw [Nat.toDigits_eq_if (by decide)] at h
    split at h
    · next hn => exact ⟨n,hn,List.mem_singleton.mp h⟩
    · next hn =>
      rcases List.mem_append.mp h with h | h
      · exact ih (n/16) (by omega) h
      · exact ⟨n%16,by omega,List.mem_singleton.mp h⟩

theorem not_mem_toDigits {c : Char} (h : ∀ d < 16,c≠Nat.digitChar d) (n : Nat) :
    c∉Nat.toDigits 16 n := fun hm => by
  obtain ⟨d,hd,hc⟩:=mem_toDigits hm
  exact h d hd hc

theorem split_unique {α : Type} {a : α} {xs ys us vs : List α} (hx : a∉xs) (hy : a∉ys)
    (h : xs++a::us=ys++a::vs) : xs=ys ∧ us=vs := by
  induction xs generalizing ys with
  | nil =>
    cases ys with
    | nil => exact ⟨rfl,(List.cons.inj h).2⟩
    | cons y ys => exact absurd ((List.cons.inj h).1 ▸ List.mem_cons_self) hy
  | cons x xs ih =>
    cases ys with
    | nil => exact absurd ((List.cons.inj h).1 ▸ List.mem_cons_self) hx
    | cons y ys =>
      obtain ⟨rfl,ht⟩:=List.cons.inj h
      obtain ⟨rfl,hu⟩:=ih (fun hm => hx (List.mem_cons_of_mem _ hm))
        (fun hm => hy (List.mem_cons_of_mem _ hm)) ht
      exact ⟨rfl,hu⟩

end Lib
