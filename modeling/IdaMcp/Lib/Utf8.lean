import Mathlib.Data.List.Basic

/-!
# Reading bytes as text

`fromUtf8Lossy` reads UTF-8 and puts a replacement character for every longest
run of bytes that could have begun a character but did not, as the Unicode
standard recommends. Bytes below 128 are the characters they stand for.
-/

namespace Lib

def replacement : Char := '�'

def isTail (b : UInt8) : Bool := 0x80 ≤ b && b ≤ 0xbf

/-- A number of tails: the character, or a replacement at the first byte that is none. -/
def takeTails : Nat → Nat → List UInt8 → Char × List UInt8
  | 0,v,bs => (Char.ofNat v,bs)
  | _+1,_,[] => (replacement,[])
  | n+1,v,b::bs =>
    if isTail b then takeTails n (64*v+b.toNat%64) bs else (replacement,b::bs)

/-- The bounds of the second byte of a longer character, and how many tails are behind it. -/
def secondOf (a : UInt8) : Option (UInt8 × UInt8 × Nat) :=
  if a=0xe0 then some (0xa0,0xbf,1)
  else if 0xe1 ≤ a ∧ a ≤ 0xec then some (0x80,0xbf,1)
  else if a=0xed then some (0x80,0x9f,1)
  else if 0xee ≤ a ∧ a ≤ 0xef then some (0x80,0xbf,1)
  else if a=0xf0 then some (0x90,0xbf,2)
  else if 0xf1 ≤ a ∧ a ≤ 0xf3 then some (0x80,0xbf,2)
  else if a=0xf4 then some (0x80,0x8f,2)
  else none

def takeSecond (lo hi : UInt8) (tails v : Nat) : List UInt8 → Char × List UInt8
  | [] => (replacement,[])
  | b::bs => if lo ≤ b ∧ b ≤ hi then takeTails tails (64*v+b.toNat%64) bs else (replacement,b::bs)

/-- One character, and the bytes behind it. -/
def takeChar (a : UInt8) (bs : List UInt8) : Char × List UInt8 :=
  if a < 0x80 then (Char.ofNat a.toNat,bs)
  else if 0xc2 ≤ a ∧ a ≤ 0xdf then takeTails 1 (a.toNat%32) bs
  else match secondOf a with
    | some (lo,hi,tails) => takeSecond lo hi tails (a.toNat%(if tails=1 then 16 else 8)) bs
    | none => (replacement,bs)

def takeChars : Nat → List UInt8 → List Char
  | n+1,a::bs =>
    let next:=takeChar a bs
    next.1::takeChars n next.2
  | _,_ => []

/-- Models `String::from_utf8_lossy`; every character takes a byte at least. -/
def fromUtf8Lossy (bs : List UInt8) : List Char := takeChars bs.length bs

example : fromUtf8Lossy [0x41,0xe2,0x82,0xac,0xe2,0x82,0x42]=['A','€',replacement,'B'] := by decide

theorem utf8EncodeChar_of_lt {c : Char} (h : c.toNat < 128) :
    String.utf8EncodeChar c=[UInt8.ofNat c.toNat] := by
  rw [String.utf8EncodeChar]
  exact if_pos (Nat.le_of_lt_succ h)

theorem byte_mem {s : String} {c : Char} (hc : c.toNat < 128) (h : c∈s.toList) :
    UInt8.ofNat c.toNat∈s.toByteArray.data.toList := by
  rw [← String.ofList_toList (s := s),String.toByteArray_ofList,List.utf8Encode,
    List.data_toByteArray,List.toList_toArray]
  exact List.mem_flatMap.mpr ⟨c,h,by rw [utf8EncodeChar_of_lt hc]; exact List.mem_cons_self⟩

theorem takeChar_ascii {c : Char} (h : c.toNat < 128) (bs : List UInt8) :
    takeChar (UInt8.ofNat c.toNat) bs=(c,bs) := by
  have hn : (UInt8.ofNat c.toNat).toNat=c.toNat :=
    UInt8.toNat_ofNat_of_lt' (Nat.lt_trans h (by decide))
  have hlt : UInt8.ofNat c.toNat < 0x80 := by
    rw [UInt8.lt_iff_toNat_lt,hn]
    exact h
  rw [takeChar,if_pos hlt,hn,Char.ofNat_toNat]

theorem fromUtf8Lossy_ascii {cs : List Char} (h : ∀ c∈cs,c.toNat < 128) :
    fromUtf8Lossy (cs.map fun c => UInt8.ofNat c.toNat)=cs := by
  rw [fromUtf8Lossy,List.length_map]
  induction cs with
  | nil => rfl
  | cons c cs ih =>
    rw [List.map_cons,List.length_cons,takeChars,takeChar_ascii (h c List.mem_cons_self)]
    exact congrArg (c::·) (ih fun x hx => h x (List.mem_cons_of_mem _ hx))

theorem flatMap_utf8EncodeChar {cs : List Char} (h : ∀ c∈cs,c.toNat < 128) :
    cs.flatMap String.utf8EncodeChar=cs.map fun c => UInt8.ofNat c.toNat := by
  induction cs with
  | nil => rfl
  | cons c cs ih =>
    rw [List.flatMap_cons,utf8EncodeChar_of_lt (h c List.mem_cons_self),
      ih fun x hx => h x (List.mem_cons_of_mem _ hx)]
    rfl

end Lib
