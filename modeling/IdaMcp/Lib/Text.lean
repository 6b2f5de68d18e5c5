import Mathlib.Data.List.Basic
import Mathlib.Data.List.DropRight
import Mathlib.Data.List.Infix

/-!
# Blanks and numerals in a text

`trim` takes the blanks of Unicode off both ends. A numeral is read with an
optional plus sign, digits of either case, and a bound on its value: what does
not fit in sixty-four bits is no numeral.
-/

namespace Lib
variable {cs : List Char} {radix : Nat} {c : Char}

def isBlank (c : Char) : Bool :=
  let n:=c.toNat
  (9 ≤ n && n ≤ 13) || n==32 || n==0x85 || n==0xa0 || n==0x1680 || (0x2000 ≤ n && n ≤ 0x200a) ||
    n==0x2028 || n==0x2029 || n==0x202f || n==0x205f || n==0x3000

def trim (cs : List Char) : List Char := (cs.dropWhile isBlank).rdropWhile isBlank

/-- The value of a digit of either case. -/
def digitOf (radix : Nat) (c : Char) : Option Nat :=
  let n:=c.toNat
  let v:=if 48 ≤ n ∧ n ≤ 57 then n-48 else if 97 ≤ n ∧ n ≤ 122 then n-87
    else if 65 ≤ n ∧ n ≤ 90 then n-55 else radix
  if v < radix then some v else none

def digitsOf (radix : Nat) : List Char → Option (List Nat)
  | [] => some []
  | c::cs => match digitOf radix c,digitsOf radix cs with
    | some d,some ds => some (d::ds)
    | _,_ => none

def ofDigits (radix : Nat) (ds : List Nat) : Nat := ds.foldl (fun n d => radix*n+d) 0

def unplus (cs : List Char) : List Char := if cs.head?=some '+' then cs.tail else cs

/-- Models `from_str_radix` of an unsigned number of sixty-four bits. -/
def fromStrRadix (radix : Nat) (cs : List Char) : Option UInt64 :=
  match digitsOf radix (unplus cs) with
  | some (d::ds) =>
    let n:=ofDigits radix (d::ds)
    if n < UInt64.size then some (UInt64.ofNat n) else none
  | _ => none

/-- The parts between the separators, without the separators. -/
def splitOn (sep : Char) : List Char → List (List Char)
  | [] => [[]]
  | c::cs =>
    if c=sep then []::splitOn sep cs
    else match splitOn sep cs with
      | part::parts => (c::part)::parts
      | [] => [[c]]

/-- Models `str::contains` of a text. -/
def textContains (needle cs : List Char) : Bool := cs.tails.any needle.isPrefixOf

theorem textContains_iff {needle : List Char} : textContains needle cs=true ↔ needle <:+: cs := by
  simp [textContains,List.infix_iff_prefix_suffix,List.mem_tails,and_comm]

theorem trim_eq_self (h : ∀ c∈cs,isBlank c=false) : trim cs=cs := by
  have hd : cs.dropWhile isBlank=cs :=
    List.dropWhile_eq_self_iff.mpr fun hl => by rw [h _ (List.getElem_mem hl)]; decide
  rw [trim,hd,List.rdropWhile_eq_self_iff]
  intro hne
  rw [h _ (List.getLast_mem hne)]
  decide

theorem trim_padded {before after : List Char} (hb : ∀ c∈before,isBlank c=true)
    (ha : ∀ c∈after,isBlank c=true) (hh : ∀ c∈cs.head?,isBlank c=false)
    (hl : ∀ c∈cs.getLast?,isBlank c=false) : trim (before++cs++after)=cs := by
  cases cs with
  | nil =>
    have hd : (before++after).dropWhile isBlank=[] :=
      List.dropWhile_eq_nil_iff.mpr fun c hc => (List.mem_append.mp hc).elim (hb c) (ha c)
    rw [trim,List.append_nil,hd]
    rfl
  | cons c cs =>
    have hd : (before++c::cs++after).dropWhile isBlank=c::cs++after := by
      rw [List.append_assoc,List.dropWhile_append_of_pos hb,List.cons_append]
      exact List.dropWhile_cons_of_neg (by rw [hh c rfl]; decide)
    have hr : (c::cs++after).rdropWhile isBlank=(c::cs).rdropWhile isBlank := by
      rw [List.rdropWhile,List.reverse_append,
        List.dropWhile_append_of_pos fun x hx => ha x (List.mem_reverse.mp hx)]
      rfl
    rw [trim,hd,hr,List.rdropWhile_eq_self_iff]
    intro hne
    rw [hl _ (List.getLast?_eq_getLast_of_ne_nil hne)]
    decide

theorem trim_line {a b : Char} (ha : isBlank a=false) (hb : isBlank b=false) (cs : List Char) :
    trim (a::(cs++[b])++['\n'])=a::(cs++[b]) := by
  refine trim_padded (List.forall_mem_nil _) (List.forall_mem_singleton.mpr (by decide)) ?_ ?_
  · rintro c ⟨⟩
    exact ha
  · intro c hc
    rw [← List.cons_append,List.getLast?_concat] at hc
    cases hc
    exact hb

/-- Models `read_line`: up to the next newline, and what comes after it. -/
def readLine (cs : List Char) : List Char × List Char :=
  match cs.dropWhile (· ≠ '\n') with
  | [] => (cs,[])
  | newline::rest => (cs.takeWhile (· ≠ '\n')++[newline],rest)

theorem readLine_append (h : '\n'∉cs) (rest : List Char) :
    readLine (cs++ '\n'::rest)=(cs++['\n'],rest) := by
  have hp : ∀ c∈cs,decide (c ≠ '\n')=true := by
    intro c hc
    exact decide_eq_true fun he => h (he ▸ hc)
  rw [readLine,List.dropWhile_append_of_pos hp,List.takeWhile_append_of_pos hp]
  simp

theorem trim_trim (cs : List Char) : trim (trim cs)=trim cs := by
  have hd : (trim cs).dropWhile isBlank=trim cs := by
    refine List.dropWhile_eq_self_iff.mpr fun hl => ?_
    have hp : trim cs <+: cs.dropWhile isBlank := List.rdropWhile_prefix _ _
    have hl' : 0 < (cs.dropWhile isBlank).length := hl.trans_le hp.length_le
    have he : (trim cs)[0]=(cs.dropWhile isBlank)[0] := hp.getElem hl
    rw [he]
    exact List.dropWhile_get_zero_not _ _ hl'
  conv => lhs; rw [trim,hd]
  exact List.rdropWhile_idempotent _ _

/-- The text of a numeral in the radix, and its value. -/
def Numeral (radix : Nat) (cs : List Char) (a : UInt64) : Prop :=
  ∃ ds, digitsOf radix (unplus cs)=some ds ∧ ds≠[] ∧ a.toNat=ofDigits radix ds

theorem fromStrRadix_eq_some_iff (radix : Nat) (cs : List Char) (a : UInt64) :
    fromStrRadix radix cs=some a ↔ Numeral radix cs a := by
  unfold fromStrRadix Numeral
  constructor
  · intro h
    split at h
    next d ds hm =>
      dsimp only at h
      split at h
      next hlt =>
        refine ⟨d::ds,hm,nofun,?_⟩
        rw [← Option.some.inj h]
        exact UInt64.toNat_ofNat_of_lt' hlt
      · cases h
    · cases h
  · rintro ⟨ds,hm,hne,ha⟩
    rw [hm]
    cases ds with
    | nil => exact absurd rfl hne
    | cons d ds =>
      dsimp only
      rw [← ha,if_pos a.toNat_lt,UInt64.ofNat_toNat]

theorem mem_digitsOf {ds : List Nat} (h : digitsOf radix cs=some ds)
    (hc : c∈cs) : (digitOf radix c).isSome=true := by
  induction cs generalizing ds with
  | nil => cases hc
  | cons x cs ih =>
    rw [digitsOf] at h
    split at h
    next d ds' hd hds =>
      rcases List.mem_cons.mp hc with rfl | hc
      · rw [hd]
        rfl
      · exact ih hds hc
    · cases h

theorem Numeral.mem {a : UInt64} (h : Numeral radix cs a)
    (hc : c∈cs) : c = '+' ∨ (digitOf radix c).isSome=true := by
  obtain ⟨ds,hm,-,-⟩:=h
  unfold unplus at hm
  split at hm
  next hp =>
    cases cs with
    | nil => cases hc
    | cons x cs =>
      obtain rfl:=Option.some.inj hp
      rcases List.mem_cons.mp hc with rfl | hc
      · exact .inl rfl
      · exact .inr (mem_digitsOf hm hc)
  next => exact .inr (mem_digitsOf hm hc)

theorem Numeral.ne_nil {a : UInt64} : ¬Numeral radix [] a := by
  rintro ⟨ds,hm,hne,-⟩
  exact hne (Option.some.inj hm).symm

theorem digitsOf_append {es : List Char} {ds fs : List Nat} (hc : digitsOf radix cs=some ds)
    (he : digitsOf radix es=some fs) : digitsOf radix (cs++es)=some (ds++fs) := by
  induction cs generalizing ds with
  | nil => cases hc; exact he
  | cons c cs ih =>
    rw [digitsOf] at hc
    split at hc
    next d ds' hd hds =>
      cases hc
      rw [List.cons_append,digitsOf,hd,ih hds]
      rfl
    · cases hc

theorem digitOf_digitChar : ∀ radix ≤ 16,∀ d < radix,digitOf radix (Nat.digitChar d)=some d := by
  decide

theorem digitsOf_toDigits (h2 : 2 ≤ radix) (h16 : radix ≤ 16) (n : Nat) :
    ∃ ds,digitsOf radix (Nat.toDigits radix n)=some ds ∧ ds≠[] ∧ ofDigits radix ds=n := by
  induction n using Nat.strongRecOn with
  | ind n ih =>
    rw [Nat.toDigits_eq_if h2]
    split
    · next h =>
      refine ⟨[n],?_,nofun,by simp [ofDigits]⟩
      rw [digitsOf,digitOf_digitChar radix h16 n h]
      rfl
    · next h =>
      have hpos : 0 < n := by omega
      obtain ⟨ds,hd,hne,hv⟩:=ih (n/radix) (Nat.div_lt_self hpos h2)
      have hlast : digitsOf radix [Nat.digitChar (n%radix)]=some [n%radix] := by
        rw [digitsOf,digitOf_digitChar radix h16 _ (Nat.mod_lt _ (by omega))]
        rfl
      refine ⟨ds++[n%radix],digitsOf_append hd hlast,by simp,?_⟩
      rw [ofDigits,List.foldl_append]
      change radix*ofDigits radix ds+n%radix=n
      rw [hv]
      exact Nat.div_add_mod n radix

theorem digitOf_range (h : (digitOf radix c).isSome=true) :
    (48 ≤ c.toNat ∧ c.toNat ≤ 57) ∨ (97 ≤ c.toNat ∧ c.toNat ≤ 122) ∨
      (65 ≤ c.toNat ∧ c.toNat ≤ 90) := by
  unfold digitOf at h
  dsimp only at h
  by_cases h1 : 48 ≤ c.toNat ∧ c.toNat ≤ 57
  · exact .inl h1
  by_cases h2 : 97 ≤ c.toNat ∧ c.toNat ≤ 122
  · exact .inr (.inl h2)
  by_cases h3 : 65 ≤ c.toNat ∧ c.toNat ≤ 90
  · exact .inr (.inr h3)
  rw [if_neg h1,if_neg h2,if_neg h3,if_neg (Nat.lt_irrefl _)] at h
  cases h

theorem unplus_of_digits (h : ∀ c∈cs,(digitOf radix c).isSome=true) : unplus cs=cs := by
  refine if_neg fun hp => ?_
  have hm:=digitOf_range (h _ (List.mem_of_mem_head? hp))
  revert hm
  decide

theorem fromStrRadix_toDigits (h2 : 2 ≤ radix) (h16 : radix ≤ 16) (n : Nat) :
    fromStrRadix radix (Nat.toDigits radix n)=
      if n < UInt64.size then some (UInt64.ofNat n) else none := by
  obtain ⟨ds,hd,hne,hv⟩:=digitsOf_toDigits h2 h16 n
  rw [fromStrRadix,unplus_of_digits fun c hc => mem_digitsOf hd hc,hd]
  cases ds with
  | nil => exact absurd rfl hne
  | cons d ds =>
    dsimp only
    rw [hv]

theorem digit_of_mem_toDigits (h2 : 2 ≤ radix) (h16 : radix ≤ 16) {n : Nat}
    (hc : c∈Nat.toDigits radix n) : (digitOf radix c).isSome=true := by
  obtain ⟨ds,hd,-,-⟩:=digitsOf_toDigits h2 h16 n
  exact mem_digitsOf hd hc

theorem isBlank_of_digit (h : (digitOf radix c).isSome=true) : isBlank c=false := by
  have hr:=digitOf_range h
  simp only [isBlank,Bool.or_eq_false_iff,Bool.and_eq_false_iff,decide_eq_false_iff_not,
    beq_eq_false_iff_ne]
  omega

theorem fromStrRadix_eq_none (hc : c∈cs) (hp : c≠ '+')
    (hd : digitOf radix c=none) : fromStrRadix radix cs=none := by
  cases h : fromStrRadix radix cs with
  | none => rfl
  | some a =>
    rcases ((fromStrRadix_eq_some_iff radix cs a).mp h).mem hc with h | h
    · exact absurd h hp
    · rw [hd] at h
      cases h

end Lib
