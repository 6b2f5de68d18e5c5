import Mathlib.Data.List.Nodup
import Mathlib.Algebra.Group.Int.Defs
import IdaMcp.Lib.Json

/-!
# Records in JSON

A record is read from an object, each field under its name or one of the other
names it goes by, or from an array in the order of the fields. A field that is
there under two names is an error, one that is missing is left to its type: an
optional field is then empty. A codec writes values of a type and reads back
what it has written.
-/

namespace Lib
variable {k : String} {v : Json}

structure Field where
  name : String
  aliases : List String := []
  /-- Whether an array may end before the field. -/
  default : Bool := false

variable {fs : List Field} {f : Field}

def Field.names (f : Field) : List String := f.name::f.aliases

/-- The value of each field, in their order; none where a field is missing. -/
abbrev Row := List (Option Json)

variable {r : Row}

namespace Field

def pick (f : Field) (v : Json) : Option (Option Json) :=
  match f.names.filterMap v.get? with
  | [] => some none
  | [x] => some (some x)
  | _ => none

def pickAll (v : Json) : List Field → Option Row
  | [] => some []
  | f::fs => match f.pick v,pickAll v fs with
    | some x,some xs => some (x::xs)
    | _,_ => none

def ofArray : List Field → List Json → Option Row
  | [],[] => some []
  | [],_::_ => none
  | f::fs,[] => if f.default then (ofArray fs []).map (none::·) else none
  | _::fs,x::xs => (ofArray fs xs).map (some x::·)

def row (fs : List Field) : Json → Option Row
  | .obj fields => pickAll (.obj fields) fs
  | .arr xs => ofArray fs xs
  | _ => none

/-- The fields that have a value, under their names. -/
def entries : List Field → Row → List (String × Json)
  | f::fs,some x::xs => (f.name,x)::entries fs xs
  | _::fs,none::xs => entries fs xs
  | _,_ => []

def write (fs : List Field) (r : Row) : Json := .ofFields (entries fs r)

end Field

namespace Field

/-- No two fields share a name. -/
def Distinct (fs : List Field) : Prop := (fs.flatMap names).Nodup

instance (fs : List Field) : Decidable (Distinct fs) :=
  inferInstanceAs (Decidable (fs.flatMap names).Nodup)

def find (k : String) (es : List (String × Json)) : Option Json :=
  (es.find? fun e => e.1==k).map Prod.snd

theorem find_eq_some_iff {es : List (String × Json)}
    (hn : (es.map Prod.fst).Nodup) : find k es=some v ↔ (k,v)∈es := by
  induction es with
  | nil => simp [find]
  | cons e es ih =>
    obtain ⟨x,w⟩:=e
    rw [List.map_cons,List.nodup_cons] at hn
    by_cases hx : x=k
    · subst hx
      have hne : (x,v)∉es := fun hm => hn.1 (List.mem_map.mpr ⟨_,hm,rfl⟩)
      simp [find,hne,eq_comm]
    · have hf : find k ((x,w)::es)=find k es := by simp [find,hx]
      rw [hf,ih hn.2]
      simp [Ne.symm hx]

theorem get?_ofFields_find {es : List (String × Json)} (hn : (es.map Prod.fst).Nodup) (k : String) :
    (Json.ofFields es).get? k=find k es := by
  have hr : (es.reverse.map Prod.fst).Nodup := by
    rw [List.map_reverse,List.nodup_reverse]
    exact hn
  rw [Json.get?_ofFields]
  apply Option.ext
  intro v
  change find k es.reverse=some v ↔ _
  rw [find_eq_some_iff hr,find_eq_some_iff hn,List.mem_reverse]

theorem mem_names {e : String × Json} (h : e∈entries fs r) : e.1∈fs.flatMap names := by
  induction fs generalizing r with
  | nil => cases r <;> cases h
  | cons f fs ih =>
    cases r with
    | nil => cases h
    | cons x xs =>
      rw [List.flatMap_cons,List.mem_append]
      cases x with
      | none => exact .inr (ih h)
      | some x =>
        rcases List.mem_cons.mp h with rfl | h
        · exact .inl List.mem_cons_self
        · exact .inr (ih h)

theorem find_other (h : k∉fs.flatMap names) : find k (entries fs r)=none := by
  rw [find,Option.map_eq_none_iff,List.find?_eq_none]
  intro e he hk
  exact h (beq_iff_eq.mp hk ▸ mem_names he)

theorem Distinct.tail (h : Distinct (f::fs)) : Distinct fs := by
  rw [Distinct,List.flatMap_cons] at h
  exact (List.nodup_append.mp h).2.1

theorem Distinct.apart (h : Distinct (f::fs)) (hk : k∈f.names) : k∉fs.flatMap names := by
  rw [Distinct,List.flatMap_cons] at h
  exact fun hm => (List.nodup_append.mp h).2.2 k hk k hm rfl

theorem nodup_entries (h : Distinct fs) (r : Row) : ((entries fs r).map Prod.fst).Nodup := by
  induction fs generalizing r with
  | nil => cases r <;> exact List.nodup_nil
  | cons f fs ih =>
    cases r with
    | nil => exact List.nodup_nil
    | cons x xs =>
      cases x with
      | none => exact ih h.tail xs
      | some x =>
        refine List.nodup_cons.mpr ⟨fun hm => ?_,ih h.tail xs⟩
        obtain ⟨e,he,hk⟩:=List.mem_map.mp hm
        have hf : e.1=f.name := hk
        exact h.apart (k := f.name) List.mem_cons_self (hf ▸ mem_names he)

theorem find_entries (h : Distinct fs) {x : Option Json} (hm : (f,x)∈fs.zip r) :
    find f.name (entries fs r)=x ∧ ∀ a∈f.aliases,find a (entries fs r)=none := by
  induction fs generalizing r with
  | nil => cases hm
  | cons g gs ih =>
    cases r with
    | nil => cases hm
    | cons y ys =>
      -- what the first field adds is found under its own name only
      have hskip : ∀ k,k≠g.name → find k (entries (g::gs) (y::ys))=find k (entries gs ys) := by
        intro k hk
        cases y with
        | none => rfl
        | some y => simp [entries,find,Ne.symm hk]
      rcases List.mem_cons.mp hm with heq | hm
      · cases heq
        constructor
        · cases x with
          | none => exact find_other (r := ys) (h.apart List.mem_cons_self)
          | some x => simp [entries,find]
        · intro a ha
          have hne : a≠f.name := by
            rintro rfl
            rw [Distinct,List.flatMap_cons] at h
            exact (List.nodup_cons.mp (List.nodup_append.mp h).1).1 ha
          rw [hskip a hne]
          exact find_other (h.apart (List.mem_cons_of_mem _ ha))
      · have hf : ∀ k∈f.names,k≠g.name := by
          rintro k hk rfl
          exact h.apart (k := g.name) List.mem_cons_self
            (List.mem_flatMap.mpr ⟨f,(List.of_mem_zip hm).1,hk⟩)
        have hi:=ih h.tail hm
        refine ⟨(hskip _ (hf _ List.mem_cons_self)).trans hi.1,fun a ha => ?_⟩
        exact (hskip _ (hf _ (List.mem_cons_of_mem _ ha))).trans (hi.2 a ha)

theorem pick_of {x : Option Json} (h : v.get? f.name=x)
    (ha : ∀ a∈f.aliases,v.get? a=none) : f.pick v=some x := by
  have he : f.aliases.filterMap v.get?=[] := List.filterMap_eq_nil_iff.mpr ha
  rw [pick,names]
  cases x with
  | none => rw [List.filterMap_cons_none h,he]
  | some x => rw [List.filterMap_cons_some h,he]

theorem pickAll_of (hl : r.length=fs.length)
    (h : ∀ f x,(f,x)∈fs.zip r → f.pick v=some x) : pickAll v fs=some r := by
  induction fs generalizing r with
  | nil => rw [List.length_eq_zero_iff.mp hl]; rfl
  | cons f fs ih =>
    cases r with
    | nil => cases hl
    | cons x xs =>
      have ht:=ih (Nat.succ.inj hl) fun g y hg => h g y (List.mem_cons_of_mem _ hg)
      rw [pickAll,h f x List.mem_cons_self,ht]

theorem row_entries (h : Distinct fs) (hl : r.length=fs.length) :
    row fs (.obj (entries fs r))=some r := by
  refine pickAll_of hl fun f x hm => ?_
  obtain ⟨hn,ha⟩:=find_entries h hm
  exact pick_of hn ha

theorem row_write (h : Distinct fs) (hl : r.length=fs.length) : row fs (write fs r)=some r := by
  refine pickAll_of hl fun f x hm => ?_
  obtain ⟨hn,ha⟩:=find_entries h hm
  have hg:=get?_ofFields_find (nodup_entries h r)
  exact pick_of ((hg f.name).trans hn) fun a hma => (hg a).trans (ha a hma)

end Field

/-- How the values of a type are written, none of them as `null`, and read back. -/
structure Codec (α : Type) where
  enc : α → Json
  dec : Json → Option α
  back : ∀ a,dec (enc a)=some a
  solid : ∀ a,enc a≠.null

namespace Codec
variable {α : Type} (c : Codec α)

/-- A field that has to be there. -/
def req : Option Json → Option α
  | some v => c.dec v
  | none => none

/-- An optional field: `null` is as good as nothing. -/
def opt : Option Json → Option (Option α)
  | none | some .null => some none
  | some v => (c.dec v).map some

def put : Option α → Json
  | some a => c.enc a
  | none => .null

@[simp] theorem opt_none : c.opt none=some none := rfl

@[simp] theorem req_enc (a : α) : c.req (some (c.enc a))=some a := c.back a

theorem opt_enc (a : α) : c.opt (some (c.enc a))=some (some a) := by
  have hs:=c.solid a
  have hb:=c.back a
  generalize c.enc a=v at hs hb
  cases v with
  | null => exact absurd rfl hs
  | _ => exact congrArg (Option.map some) hb

@[simp] theorem opt_put (x : Option α) : c.opt (some (c.put x))=some x := by
  cases x with
  | none => rfl
  | some a => exact c.opt_enc a

@[simp] theorem opt_map (x : Option α) : c.opt (x.map c.enc)=some x := by
  cases x with
  | none => rfl
  | some a => exact c.opt_enc a

def string : Codec String := ⟨.str,Json.asStr,fun _ => rfl,nofun⟩
def bool : Codec Bool := ⟨.bool,Json.asBool,fun _ => rfl,nofun⟩

def u64 : Codec UInt64 where
  enc n := .ofNat n.toNat
  dec v := v.asU64.map UInt64.ofNat
  back n := by
    rw [Json.ofNat,Json.asU64,if_pos n.toNat_lt]
    exact congrArg some UInt64.ofNat_toNat
  solid := nofun

def u32 : Codec UInt32 where
  enc n := .ofNat n.toNat
  dec v := match v.asU64 with
    | some n => if n < UInt32.size then some (UInt32.ofNat n) else none
    | none => none
  back n := by
    have hlt : n.toNat < UInt64.size := Nat.lt_trans n.toNat_lt (by decide)
    rw [Json.ofNat,Json.asU64,if_pos hlt]
    dsimp only
    rw [if_pos n.toNat_lt,UInt32.ofNat_toNat]
  solid := nofun

end Codec

def Json.ofInt : Int → Json
  | .ofNat n => .number (.nat n)
  | .negSucc n => .number (.neg n)

def Json.asInt : Json → Option Int
  | .number (.nat n) => some n
  | .number (.neg n) => some (.negSucc n)
  | _ => none

@[simp] theorem Json.asInt_ofInt (i : Int) : (Json.ofInt i).asInt=some i := by cases i <;> rfl

namespace Codec

def i64 : Codec Int64 where
  enc i := .ofInt i.toInt
  dec v := match v.asInt with
    | some i => if -2^63 ≤ i ∧ i < 2^63 then some (Int64.ofInt i) else none
    | none => none
  back i := by
    rw [Json.asInt_ofInt]
    dsimp only
    rw [if_pos ⟨i.le_toInt,i.toInt_lt⟩,Int64.ofInt_toInt]
  solid i := by cases h : i.toInt <;> rw [Json.ofInt] <;> exact nofun

def i32 : Codec Int32 where
  enc i := .ofInt i.toInt
  dec v := match v.asInt with
    | some i => if -2^31 ≤ i ∧ i < 2^31 then some (Int32.ofInt i) else none
    | none => none
  back i := by
    rw [Json.asInt_ofInt]
    dsimp only
    rw [if_pos ⟨i.le_toInt,i.toInt_lt⟩,Int32.ofInt_toInt]
  solid i := by cases h : i.toInt <;> rw [Json.ofInt] <;> exact nofun

def decAll (c : Codec α) : List Json → Option (List α)
  | [] => some []
  | v::vs => match c.dec v,decAll c vs with
    | some a,some as => some (a::as)
    | _,_ => none

theorem decAll_map (c : Codec α) (as : List α) : c.decAll (as.map c.enc)=some as := by
  induction as with
  | nil => rfl
  | cons a as ih => rw [List.map_cons,decAll,c.back,ih]

def list (c : Codec α) : Codec (List α) where
  enc as := .arr (as.map c.enc)
  dec v := match v with
    | .arr vs => c.decAll vs
    | _ => none
  back as := c.decAll_map as
  solid := nofun

end Codec

namespace Json

/-- A field of any value that has to be there, and an optional one. -/
def req : Option Json → Option Json := id

@[simp] theorem req_some (v : Json) : req (some v)=some v := rfl

def opt : Option Json → Option (Option Json)
  | none | some .null => some none
  | some v => some (some v)

/-- What is left of an optional value that was written. -/
def solid : Option Json → Option Json
  | some .null => none
  | x => x

def put : Option Json → Json
  | some v => v
  | none => .null

@[simp] theorem opt_none : opt none=some none := rfl

theorem opt_eq (x : Option Json) : opt x=some (solid x) := by
  cases x with
  | none => rfl
  | some v => cases v <;> rfl

@[simp] theorem opt_put (x : Option Json) : opt (some (put x))=some (solid x) := by
  cases x with
  | none => rfl
  | some v => exact opt_eq (some v)

end Json

end Lib
