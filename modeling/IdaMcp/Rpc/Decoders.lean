import IdaMcp.Ida.Database

/-!
# Decoders of one field

An address text has four readers and the bytes of a patch have two, written
apart from each other. For each text and each value: when do they agree?
-/

/-- Models `parse_address_value` of `src/idat_compat.rs`, lines 662-676. -/
def Compat.parseAddressValue (v : Lib.Json) : Option UInt64 := Rpc.parseAddressValue v

namespace Rpc
open Lib
variable {cs : List Char} {c : Char} {vs : List Json} {out : List UInt8}

/-- With marks for four bases, as the server and the handlers read. -/
def baseText (cs : List Char) : Option UInt64 :=
  if marked 'x' 'X' cs then fromStrRadix 16 (cs.drop 2)
  else if marked 'b' 'B' cs then fromStrRadix 2 (cs.drop 2)
  else if marked 'o' 'O' cs then fromStrRadix 8 (cs.drop 2)
  else fromStrRadix 10 cs

theorem parseAddressValue_str (s : String) :
    parseAddressValue (.str s)=addressText (trim s.toList) := rfl

theorem toOption_parseAddressStr (s : String) :
    (Ida.parseAddressStr s).toOption=baseText (trim s.toList) := by
  cases h : baseText (trim s.toList) with
  | none =>
    rw [baseText] at h
    simp only [Ida.parseAddressStr,h]
    rfl
  | some a =>
    rw [baseText] at h
    simp only [Ida.parseAddressStr,h]
    rfl

theorem toOption_parseAddress (s : String) :
    (parseAddress s).toOption=baseText ((trim s.toList).filter (· ≠ '_')) := by
  cases h : baseText ((trim s.toList).filter (· ≠ '_')) with
  | none =>
    rw [baseText] at h
    simp only [parseAddress,h]
    rfl
  | some a =>
    rw [baseText] at h
    simp only [parseAddress,h]
    rfl

theorem addressText_marked
    (h : marked 'b' 'B' cs=true ∨ marked 'o' 'O' cs=true) : addressText cs=none := by
  have hcs : ∃ c,(c= 'b' ∨ c= 'B' ∨ c= 'o' ∨ c= 'O') ∧ ∃ rest,cs= '0'::c::rest := by
    rcases h with h | h <;> obtain ⟨rest,rfl | rfl⟩:=eq_of_marked h
    · exact ⟨'b',by decide,rest,rfl⟩
    · exact ⟨'B',by decide,rest,rfl⟩
    · exact ⟨'o',by decide,rest,rfl⟩
    · exact ⟨'O',by decide,rest,rfl⟩
  obtain ⟨c,hc,rest,rfl⟩:=hcs
  have hx : marked 'x' 'X' ('0'::c::rest)=false := by
    rcases hc with rfl | rfl | rfl | rfl <;> rfl
  have hd : c≠ '+' ∧ digitOf 10 c=none := by rcases hc with rfl | rfl | rfl | rfl <;> decide
  rw [addressText,if_neg (by rw [hx]; decide)]
  exact fromStrRadix_eq_none (List.mem_cons_of_mem _ List.mem_cons_self) hd.1 hd.2

theorem addressText_unmarked (hb : marked 'b' 'B' cs=false)
    (ho : marked 'o' 'O' cs=false) : addressText cs=baseText cs := by
  rw [addressText,baseText,hb,ho]
  rfl

theorem foreign_underscore : Foreign '_' := foreign_of (by decide) (by decide)

theorem Foreign.fromStrRadix (h : Foreign c) {radix : Nat}
    (hc : c∈cs) : Lib.fromStrRadix radix cs=none :=
  fromStrRadix_eq_none hc h.unsigned (h.digit radix)

theorem Foreign.marked {lower upper : Char} (h : Foreign c) {radix : Nat} (hc : c∈cs)
    (hm : marked lower upper cs=true) (hl : (digitOf 36 lower).isSome=true)
    (hu : (digitOf 36 upper).isSome=true) : Lib.fromStrRadix radix (cs.drop 2)=none :=
  h.fromStrRadix (mem_drop_of_marked hm hc (h.ne (by decide)) (h.ne hl) (h.ne hu))

theorem Foreign.baseText (h : Foreign c) (hc : c∈cs) : baseText cs=none := by
  rw [Rpc.baseText]
  split
  · next hm => exact h.marked hc hm (by decide) (by decide)
  split
  · next hm => exact h.marked hc hm (by decide) (by decide)
  split
  · next hm => exact h.marked hc hm (by decide) (by decide)
  · exact h.fromStrRadix hc

theorem Foreign.addressText (h : Foreign c) (hc : c∈cs) : addressText cs=none := by
  rw [Rpc.addressText]
  split
  · next hm => exact h.marked hc hm (by decide) (by decide)
  · exact h.fromStrRadix hc

/-- The worker, the compatibility worker, the server and the handlers. -/
def AddressesAgree (s : String) : Prop :=
  Compat.parseAddressValue (.str s)=parseAddressValue (.str s) ∧
    (parseAddress s).toOption=parseAddressValue (.str s) ∧
    (Ida.parseAddressStr s).toOption=parseAddressValue (.str s)

/-- Only the server takes underscores, and only it and the handlers take marks for bases two and
eight: the readers agree on what the server rejects and on texts with neither. -/
theorem addressesAgree_iff (s : String) :
    AddressesAgree s ↔ (parseAddress s).toOption=none ∨
      '_' ∉trim s.toList ∧ marked 'b' 'B' (trim s.toList)=false ∧
        marked 'o' 'O' (trim s.toList)=false := by
  have hcompat : Compat.parseAddressValue (.str s)=parseAddressValue (.str s) := rfl
  simp only [AddressesAgree,hcompat,true_and]
  rw [toOption_parseAddress,toOption_parseAddressStr,parseAddressValue_str]
  generalize trim s.toList=cs
  by_cases hu : '_' ∈cs
  · -- only the server reads the text at all
    simp [foreign_underscore.addressText hu,foreign_underscore.baseText hu,hu]
  · have hf : cs.filter (· ≠ '_')=cs := List.filter_eq_self.mpr fun c hc => by
      simp only [ne_eq,decide_not,Bool.not_eq_true',decide_eq_false_iff_not]
      rintro rfl
      exact hu hc
    rw [hf,and_self]
    by_cases hb : marked 'b' 'B' cs=true
    · simp [addressText_marked (.inl hb),hb]
    by_cases ho : marked 'o' 'O' cs=true
    · simp [addressText_marked (.inr ho),ho]
    · rw [Bool.not_eq_true] at hb ho
      simp [addressText_unmarked hb ho,hu,hb,ho]

/-- Models `0b11` is three to two of the four and nothing to the others. -/
theorem addresses_disagree : ¬AddressesAgree "0b11" := by
  rw [AddressesAgree]
  intro h
  have hs : (Ida.parseAddressStr "0b11").toOption=some 3 := by decide +kernel
  have hv : parseAddressValue (.str "0b11")=none := by decide +kernel
  rw [hs,hv] at h
  cases h.2.2

/-- The byte that an element of an array stands for: a number or an address text, up to 255. -/
inductive DenotesByte : Json → UInt8 → Prop
  | number {v : Json} {n : Nat} (h : v.asU64=some n) (hn : n ≤ 255) : DenotesByte v (UInt8.ofNat n)
  | text {s : String} {a : UInt64} (h : parseAddress s=.ok a) (ha : a.toNat ≤ 255) :
    DenotesByte (.str s) (UInt8.ofNat a.toNat)

theorem byteOf_eq_ok {n : Nat} {b : UInt8} : byteOf n=.ok b ↔ n ≤ 255 ∧ UInt8.ofNat n=b := by
  unfold byteOf
  split
  · next h => exact ⟨fun h' => (by cases h'),fun h' => absurd h (Nat.not_lt.mpr h'.1)⟩
  · next h => exact ⟨fun h' => ⟨Nat.le_of_not_lt h,Except.ok.inj h'⟩,fun h' => congrArg _ h'.2⟩

/-- What the server makes of one element. -/
def itemByte : Json → Result UInt8
  | .number n => byteOfNumber (.number n)
  | .str s => do
    let a ← parseAddress s
    byteOf a.toNat
  | _ => .error (.invalidParams "bytes must be numbers or strings")

theorem itemBytes_cons (v : Json) (vs : List Json) : itemBytes (v::vs)=(do
    let b ← itemByte v
    let bs ← itemBytes vs
    return b::bs) := by
  cases v with
  | str s => cases h : parseAddress s <;> simp [itemBytes,itemByte,h,bind,Except.bind]
  | _ => rfl

theorem itemByte_eq_ok {v : Json} {b : UInt8} : itemByte v=.ok b ↔ DenotesByte v b := by
  cases v with
  | number n =>
    change byteOfNumber (.number n)=.ok b ↔ _
    rw [byteOfNumber]
    cases hn : (Json.number n).asU64 with
    | none =>
      refine ⟨fun h => (by cases h),fun h => ?_⟩
      cases h with
      | number h _ => rw [hn] at h; cases h
    | some k =>
      dsimp only
      rw [byteOf_eq_ok]
      constructor
      · rintro ⟨hk,rfl⟩
        exact .number hn hk
      · intro h
        cases h with
        | number h hk =>
          rw [hn] at h
          cases h
          exact ⟨hk,rfl⟩
  | str s =>
    change (parseAddress s >>= fun a => byteOf a.toNat)=.ok b ↔ _
    cases ha : parseAddress s with
    | error e =>
      refine ⟨fun h => (by cases h),fun h => ?_⟩
      cases h with
      | number h _ => cases h
      | text h _ => rw [ha] at h; cases h
    | ok a =>
      change byteOf a.toNat=.ok b ↔ _
      rw [byteOf_eq_ok]
      constructor
      · rintro ⟨hk,rfl⟩
        exact .text ha hk
      · intro h
        cases h with
        | number h _ => cases h
        | text h hk =>
          rw [ha] at h
          cases h
          exact ⟨hk,rfl⟩
  | _ =>
    refine ⟨fun h => (by cases h),fun h => ?_⟩
    cases h with
    | number h _ => cases h

theorem itemBytes_eq_ok : itemBytes vs=.ok out ↔ List.Forall₂ DenotesByte vs out := by
  induction vs generalizing out with
  | nil =>
    rw [itemBytes,List.forall₂_nil_left_iff]
    exact ⟨fun h => (Except.ok.inj h).symm,fun h => congrArg _ h.symm⟩
  | cons v vs ih =>
    rw [itemBytes_cons]
    constructor
    · intro h
      cases hv : itemByte v with
      | error e => rw [hv] at h; cases h
      | ok b =>
        rw [hv] at h
        cases hvs : itemBytes vs with
        | error e => rw [hvs] at h; cases h
        | ok bs =>
          rw [hvs] at h
          cases h
          exact .cons (itemByte_eq_ok.mp hv) (ih.mp hvs)
    · intro h
      cases h with
      | cons hb hbs =>
        rw [itemByte_eq_ok.mpr hb,ih.mpr hbs]
        rfl

/-- What the worker makes of an array: its numbers, each reduced to a byte. -/
def numberBytes (vs : List Json) : List UInt8 := vs.filterMap fun v => v.asU64.map UInt8.ofNat

def IsByte (v : Json) : Prop := ∃ n,v.asU64=some n ∧ n ≤ 255

theorem numberBytes_denoted (h : ∀ v∈vs,IsByte v) :
    List.Forall₂ DenotesByte vs (numberBytes vs) := by
  induction vs with
  | nil => exact .nil
  | cons v vs ih =>
    obtain ⟨n,hn,hle⟩:=h v List.mem_cons_self
    have hb : numberBytes (v::vs)=UInt8.ofNat n::numberBytes vs := by
      rw [numberBytes,List.filterMap_cons_some (by rw [hn]; rfl)]
      rfl
    rw [hb]
    exact .cons (.number hn hle) (ih fun w hw => h w (List.mem_cons_of_mem _ hw))

theorem isByte_of_denoted (h : List.Forall₂ DenotesByte vs (numberBytes vs)) : ∀ v∈vs,IsByte v := by
  induction vs with
  | nil => exact fun _ hv => absurd hv List.not_mem_nil
  | cons v vs ih =>
    cases hv : v.asU64 with
    | none =>
      have hskip : numberBytes (v::vs)=numberBytes vs :=
        List.filterMap_cons_none (by rw [hv]; rfl)
      have hle : (numberBytes vs).length ≤ vs.length := List.length_filterMap_le ..
      have hlen:=h.length_eq
      rw [hskip,List.length_cons] at hlen
      omega
    | some n =>
      have hb : numberBytes (v::vs)=UInt8.ofNat n::numberBytes vs := by
        rw [numberBytes,List.filterMap_cons_some (by rw [hv]; rfl)]
        rfl
      rw [hb] at h
      obtain ⟨hd,ht⟩:=List.forall₂_cons.mp h
      refine List.forall_mem_cons.mpr ⟨⟨n,hv,?_⟩,ih ht⟩
      generalize UInt8.ofNat n=b at hd
      cases hd with
      | number hk hle =>
        rw [hv] at hk
        cases hk
        exact hle
      | text _ _ => cases hv

/-- One decoder accepts what the other does, with the same bytes, and an array only if its elements
are bytes, which are then the result. -/
def BytesExact (v : Json) : Prop :=
  (parsePatchBytes v).toOption=(valueToBytes v).toOption ∧
    ∀ vs,v=.arr vs → ∀ out,parsePatchBytes v=.ok out → List.Forall₂ DenotesByte vs out

/-- An array of byte numbers, or one that both decoders reject, or no array and no byte number. -/
def BytesPlain : Json → Prop
  | .number n => ∀ k,(Json.number n).asU64=some k → 255 < k
  | .arr vs => (∀ v∈vs,IsByte v) ∨
      (∀ v∈vs,v.asU64=none) ∧ ∃ v∈vs,∀ b,¬DenotesByte v b
  | _ => True

theorem parsePatchBytes_arr (vs : List Json) :
    parsePatchBytes (.arr vs)=
      if (numberBytes vs).isEmpty then .error noBytes else .ok (numberBytes vs) := rfl

theorem valueToBytes_arr_eq_ok :
    valueToBytes (.arr vs)=.ok out ↔ out≠[] ∧ List.Forall₂ DenotesByte vs out := by
  rw [← itemBytes_eq_ok]
  change (itemBytes vs >>= fun out => if out.isEmpty then .error noBytes else .ok out)=.ok out ↔ _
  cases hi : itemBytes vs with
  | error e => exact ⟨fun h => (by cases h),fun h => (by cases h.2)⟩
  | ok bs =>
    change (if bs.isEmpty then .error noBytes else .ok bs : Result (List UInt8))=.ok out ↔ _
    cases bs with
    | nil => exact ⟨fun h => (by cases h),fun h => absurd (Except.ok.inj h.2).symm h.1⟩
    | cons b bs => exact ⟨fun h => (by cases h; exact ⟨List.cons_ne_nil _ _,rfl⟩),fun h => h.2⟩

theorem exists_denoted (h : ∀ v∈vs,∃ b,DenotesByte v b) :
    ∃ out,List.Forall₂ DenotesByte vs out := by
  induction vs with
  | nil => exact ⟨[],.nil⟩
  | cons v vs ih =>
    obtain ⟨b,hb⟩:=h v List.mem_cons_self
    obtain ⟨bs,hbs⟩:=ih fun w hw => h w (List.mem_cons_of_mem _ hw)
    exact ⟨b::bs,.cons hb hbs⟩

theorem denoted_of_mem (h : List.Forall₂ DenotesByte vs out) {v : Json}
    (hv : v∈vs) : ∃ b,DenotesByte v b := by
  induction h with
  | nil => exact absurd hv List.not_mem_nil
  | cons hb _ ih =>
    rcases List.mem_cons.mp hv with rfl | hv
    · exact ⟨_,hb⟩
    · exact ih hv

theorem toOption_eq_none {α : Type} {r : Result α} (h : ∀ a,r≠.ok a) : r.toOption=none := by
  cases r with
  | error e => rfl
  | ok a => exact absurd rfl (h a)

theorem numberBytes_eq_nil_iff : numberBytes vs=[] ↔ ∀ v∈vs,v.asU64=none := by
  rw [numberBytes,List.filterMap_eq_nil_iff]
  exact forall₂_congr fun v _ => Option.map_eq_none_iff

theorem parsePatchBytes_rejects (h : numberBytes vs=[]) :
    parsePatchBytes (.arr vs)=.error noBytes := by
  rw [parsePatchBytes_arr,h]
  rfl

theorem parsePatchBytes_accepts (h : numberBytes vs≠[]) :
    parsePatchBytes (.arr vs)=.ok (numberBytes vs) := by
  rw [parsePatchBytes_arr,if_neg (fun he => h (List.isEmpty_iff.mp he))]

theorem plain_of_exact_arr (h : BytesExact (.arr vs)) : BytesPlain (.arr vs) := by
  obtain ⟨hsame,hdenote⟩:=h
  by_cases hn : numberBytes vs=[]
  · -- the worker rejects the array, so the server does
    have hno : ∀ out,valueToBytes (.arr vs)≠.ok out := fun out h => by
      rw [parsePatchBytes_rejects hn,h] at hsame
      cases hsame
    cases vs with
    | nil => exact .inl fun _ hv => absurd hv List.not_mem_nil
    | cons v vs =>
      refine .inr ⟨numberBytes_eq_nil_iff.mp hn,?_⟩
      apply Classical.byContradiction
      intro hall
      have hd : ∀ w∈v::vs,∃ b,DenotesByte w b := fun w hw =>
        Classical.byContradiction fun hb => hall ⟨w,hw,fun b h => hb ⟨b,h⟩⟩
      obtain ⟨out,hout⟩:=exists_denoted hd
      refine hno out (valueToBytes_arr_eq_ok.mpr ⟨?_,hout⟩)
      rintro rfl
      cases hout
  · exact .inl (isByte_of_denoted (hdenote vs rfl _ (parsePatchBytes_accepts hn)))

theorem exact_of_plain_arr (h : BytesPlain (.arr vs)) : BytesExact (.arr vs) := by
  rcases h with hbytes | ⟨hnone,v,hv,hno⟩
  · have hd:=numberBytes_denoted hbytes
    by_cases hn : numberBytes vs=[]
    · -- no element at all
      rw [hn] at hd
      cases hd
      exact ⟨rfl,fun _ _ _ h => (by cases h)⟩
    · have hv : valueToBytes (.arr vs)=.ok (numberBytes vs) := valueToBytes_arr_eq_ok.mpr ⟨hn,hd⟩
      refine ⟨by rw [parsePatchBytes_accepts hn,hv],fun ws hw out hout => ?_⟩
      cases hw
      rw [parsePatchBytes_accepts hn] at hout
      cases hout
      exact hd
  · have hp:=parsePatchBytes_rejects (numberBytes_eq_nil_iff.mpr hnone)
    have hs : (valueToBytes (.arr vs)).toOption=none := toOption_eq_none fun out h => by
      obtain ⟨b,hb⟩:=denoted_of_mem (valueToBytes_arr_eq_ok.mp h).2 hv
      exact hno b hb
    refine ⟨by rw [hp,hs]; rfl,fun ws hw out hout => ?_⟩
    rw [hp] at hout
    cases hout

theorem bytesExact_number_iff (n : JsonNumber) :
    BytesExact (.number n) ↔ BytesPlain (.number n) := by
  have hp : parsePatchBytes (.number n)=
      .error (.invalidParams "bytes must be a hex string or array of integers") := rfl
  have hv : valueToBytes (.number n)=(byteOfNumber (.number n)).map ([·]) := by
    change (byteOfNumber (.number n) >>= fun b => pure [b])=_
    cases byteOfNumber (.number n) <;> rfl
  have harr : ∀ vs,Json.number n≠.arr vs := fun vs h => by cases h
  have hiff : BytesExact (.number n) ↔ ∀ b,byteOfNumber (.number n)≠.ok b := by
    rw [BytesExact,hp,hv]
    cases byteOfNumber (.number n) with
    | error e => exact ⟨fun _ b h => (by cases h),fun _ => ⟨rfl,fun vs h => absurd h (harr vs)⟩⟩
    | ok b => exact ⟨fun h => (by cases h.1),fun h => absurd rfl (h b)⟩
  rw [hiff,BytesPlain,byteOfNumber]
  cases (Json.number n).asU64 with
  | none => exact ⟨fun _ k h => (by cases h),fun _ b h => (by cases h)⟩
  | some k =>
    dsimp only
    constructor
    · intro h j hj
      cases hj
      apply Nat.lt_of_not_le
      exact fun hle => h _ (byteOf_eq_ok.mpr ⟨hle,rfl⟩)
    · intro h b hb
      exact absurd (byteOf_eq_ok.mp hb).1 (Nat.not_le.mpr (h k rfl))

/-- Outside of arrays of byte numbers the decoders part ways: the worker drops what is no number and
reduces a number modulo 256, the server takes texts and single numbers. -/
theorem bytesExact_iff (v : Json) : BytesExact v ↔ BytesPlain v := by
  cases v with
  | arr vs => exact ⟨plain_of_exact_arr,exact_of_plain_arr⟩
  | number n => exact bytesExact_number_iff n
  | str s => exact iff_of_true ⟨rfl,fun vs h => (by cases h)⟩ trivial
  | _ => exact iff_of_true ⟨rfl,fun vs h => (by cases h)⟩ trivial

/-- Models `[256]` is written as a zero byte. -/
theorem bytes_reduced : parsePatchBytes (.arr [.ofNat 256])=.ok [0] ∧
    ¬BytesExact (.arr [.ofNat 256]) := by
  refine ⟨rfl,fun h => ?_⟩
  rcases plain_of_exact_arr h with h | ⟨h,_⟩
  · obtain ⟨n,hn,hle⟩:=h _ List.mem_cons_self
    cases hn
    exact absurd hle (by decide)
  · cases h _ List.mem_cons_self

end Rpc
