import Mathlib.Data.List.AList

/-!
# Finite maps with distinct keys

Mathlib's association lists as finite maps, under the usual names: one lookup
equation for each update, a filter, and the sum of a measure over the values.
The order of the entries stands for nothing; what depends on an order takes
it as an input of its own.
-/

namespace Lib

abbrev Map (α β : Type) := AList fun _ : α => β

namespace Map
variable {α β : Type}

def keysOf (m : Map α β) : List α := m.entries.map Sigma.fst
def size (m : Map α β) : Nat := m.entries.length

/-- The entries that pass `f`. -/
def keep (m : Map α β) (f : α → β → Bool) : Map α β :=
  ⟨m.entries.filter fun e => f e.1 e.2,m.nodupKeys.sublist List.filter_sublist⟩

/-- The sum of a measure over the values. -/
def sum (m : Map α β) (f : β → Nat) : Nat :=
  m.entries.foldr (fun e n => f e.2+n) 0

theorem size_eq_sum (m : Map α β) : m.size=m.sum fun _ => 1 := by
  simp only [size,sum]
  induction m.entries with
  | nil => rfl
  | cons e es ih => rw [List.length_cons,List.foldr_cons,ih]; omega

theorem foldr_add (f : β → Nat) (c n : Nat) (es : List ((_ : α) × β)) :
    es.foldr (fun e n => f e.2+n) (c+n)=c+es.foldr (fun e n => f e.2+n) n := by
  induction es with
  | nil => rfl
  | cons e es ih => rw [List.foldr_cons,List.foldr_cons,ih]; omega

@[simp] theorem sum_empty (f : β → Nat) : Map.sum (∅ : Map α β) f=0 := rfl

theorem keysOf_pick_none (m : Map α β) (pick : Nat) (h : m.keysOf[pick%m.size]?=none) :
    m.size=0 := by
  have hl : m.keysOf.length=m.size := List.length_map ..
  rw [List.getElem?_eq_none_iff,hl] at h
  rcases Nat.eq_zero_or_pos m.size with h0 | h0
  · exact h0
  · exact absurd (Nat.mod_lt pick h0) (Nat.not_lt.mpr h)

variable [DecidableEq α] (m : Map α β)

def get (a : α) : Option β := AList.lookup a m
def insert (a : α) (b : β) : Map α β := AList.insert a b m
def remove (a : α) : Map α β := AList.erase a m

@[simp] theorem get_empty (a : α) : Map.get (∅ : Map α β) a=none := rfl

theorem get_insert (a x : α) (b : β) : (m.insert a b).get x=if x=a then some b else m.get x := by
  by_cases h : x=a
  · subst h
    simp [get,insert]
  · rw [if_neg h]
    exact AList.lookup_insert_ne h

theorem get_remove (a x : α) : (m.remove a).get x=if x=a then none else m.get x := by
  by_cases h : x=a
  · subst h
    simp [get,remove]
  · rw [if_neg h]
    exact AList.lookup_erase_ne h

@[simp] theorem get_insert_self (a : α) (b : β) : (m.insert a b).get a=some b := by
  rw [get_insert,if_pos rfl]

@[simp] theorem get_remove_self (a : α) : (m.remove a).get a=none := by
  rw [get_remove,if_pos rfl]

theorem get_eq_some_iff (a : α) (b : β) : m.get a=some b ↔ Sigma.mk a b∈m.entries :=
  AList.mem_lookup_iff

theorem mem_keysOf (a : α) : a∈m.keysOf ↔ ∃ b, m.get a=some b := by
  simp only [keysOf,List.mem_map,get_eq_some_iff]
  constructor
  · rintro ⟨⟨x,b⟩,hm,rfl⟩
    exact ⟨b,hm⟩
  · rintro ⟨b,hm⟩
    exact ⟨⟨a,b⟩,hm,rfl⟩

theorem size_eq_zero_iff : m.size=0 ↔ ∀ a, m.get a=none := by
  constructor
  · intro h a
    cases hg : m.get a with
    | none => rfl
    | some b =>
      have hm:=(m.get_eq_some_iff a b).mp hg
      rw [List.length_eq_zero_iff.mp h] at hm
      cases hm
  · intro h
    refine List.length_eq_zero_iff.mpr (List.eq_nil_iff_forall_not_mem.mpr fun e he => ?_)
    have hg:=(m.get_eq_some_iff e.1 e.2).mpr he
    rw [h] at hg
    cases hg

/-- Any position picked from a map that is not empty names one of its keys. -/
theorem keysOf_pick (pick : Nat) {a : α} (h : m.keysOf[pick%m.size]?=some a) :
    ∃ b, m.get a=some b :=
  (m.mem_keysOf a).mp (List.mem_of_getElem? h)

theorem get_keep (f : α → β → Bool) (a : α) (b : β) :
    (m.keep f).get a=some b ↔ m.get a=some b ∧ f a b=true := by
  rw [get_eq_some_iff,get_eq_some_iff]
  exact List.mem_filter

theorem keysOf_insert {m : Map α β} {a : α} (h : a∉m.keysOf) (b : β) :
    (m.insert a b).keysOf=a::m.keysOf := by
  have he : (m.insert a b).keysOf=a::m.keysOf.erase a := AList.keys_insert ..
  rw [he,List.erase_of_not_mem h]

theorem keysOf_remove (a : α) : (m.remove a).keysOf=m.keysOf.erase a :=
  AList.keys_erase ..

theorem get_foldl_remove (ids : List α) (m : Map α β) (a : α) :
    (ids.foldl remove m).get a=if a∈ids then none else m.get a := by
  induction ids generalizing m with
  | nil => simp
  | cons x xs ih =>
    rw [List.foldl_cons,ih,get_remove]
    by_cases hx : a=x
    · simp [hx]
    · simp [hx]

theorem sum_insert (a : α) (b : β) (f : β → Nat) : (m.insert a b).sum f=f b+(m.remove a).sum f := by
  simp only [sum,insert,AList.entries_insert,List.foldr_cons]
  rfl

theorem sum_of_get {m : Map α β} {a : α} {b : β} (h : m.get a=some b) (f : β → Nat) :
    m.sum f=f b+(m.remove a).sum f := by
  have hk : a∈m.entries.keys := (m.mem_keysOf a).mpr ⟨b,h⟩
  obtain ⟨c,xs,ys,-,he,hd⟩:=List.exists_of_kerase hk
  have hc : Sigma.mk a c∈m.entries := by rw [he]; simp
  have hb : c=b := by
    have hl:=(m.get_eq_some_iff a c).mpr hc
    rw [h] at hl
    exact (Option.some.inj hl).symm
  subst hb
  change m.entries.foldr _ 0=f c+(List.kerase a m.entries).foldr _ 0
  rw [hd]
  conv => lhs; rw [he]
  rw [List.foldr_append,List.foldr_append,List.foldr_cons,foldr_add]

theorem remove_of_get_none {m : Map α β} {a : α} (h : m.get a=none) : m.remove a=m :=
  AList.ext (List.kerase_of_notMem_keys (AList.lookup_eq_none.mp h))

theorem sum_remove_le (a : α) (f : β → Nat) : (m.remove a).sum f ≤ m.sum f := by
  cases h : m.get a with
  | some b => rw [sum_of_get h f]; omega
  | none => rw [remove_of_get_none h]

theorem sum_le_sum {f g : β → Nat} (h : ∀ a b, m.get a=some b → f b ≤ g b) : m.sum f ≤ m.sum g := by
  have hm : ∀ e∈m.entries, f e.2 ≤ g e.2 :=
    fun e he => h e.1 e.2 ((m.get_eq_some_iff e.1 e.2).mpr he)
  simp only [sum]
  generalize m.entries=es at hm
  induction es with
  | nil => exact Nat.le_refl _
  | cons e es ih =>
    rw [List.foldr_cons,List.foldr_cons]
    exact Nat.add_le_add (hm e List.mem_cons_self) (ih fun x hx => hm x (List.mem_cons_of_mem _ hx))

theorem sum_insert_le (a : α) (b : β) (f : β → Nat) : (m.insert a b).sum f ≤ f b+m.sum f := by
  rw [sum_insert]
  have h:=m.sum_remove_le a f
  omega

end Map

end Lib
