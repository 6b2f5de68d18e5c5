import IdaMcp.Lib.Serde
import IdaMcp.Lib.Text

/-!
# Addresses, texts and bytes in a request (`src/rpc_dispatch.rs`, `src/server/mod.rs`)

A worker reads the values of a request with `parse_address_value` and its
companions; the server, where it has the worker at hand, with `value_to_addresses`
and its own. `fromStr` is `serde_json::from_str`, the reader of JSON texts.
-/

namespace Rpc
open Lib
variable {lower upper c : Char} {cs : List Char}

inductive ToolError
  /-- Models `parse_params`: what serde has to say. -/
  | undecoded
  | noDatabaseOpen
  | databaseAlreadyOpen (path : String)
  | openFailed (message : String)
  | databaseLocked (path : String)
  | invalidAddress (message : String)
  | invalidPath (path : String)
  | invalidParams (message : String)
  | invalidToolCategory (name : String)
  | invalidToolName (message : String)
  | addressOutOfRange (addr : UInt64)
  | functionNotFound (addr : UInt64)
  | functionNameNotFound (name : String)
  | decompilerUnavailable
  | timeout (secs : UInt64)
  | busy
  | idaError (message : String)
  | notSupported (message : String)
  | workerClosed
  deriving DecidableEq

def hexText (n : UInt64) : String := "0x"++String.ofList (Nat.toDigits 16 n.toNat)

/-- The texts of `src/error.rs`. -/
def ToolError.text : ToolError → String
  | .undecoded => "Invalid parameters: invalid params"
  | .noDatabaseOpen => "No database is currently open"
  | .databaseAlreadyOpen path => s!"A database is already open: {path}. Use close_idb first."
  | .openFailed message => s!"Failed to open database: {message}"
  | .databaseLocked path => s!"Database appears to be open in another instance: {path}"
  | .invalidAddress message => s!"Invalid address format: {message}"
  | .invalidPath path => s!"Invalid database path: {path}"
  | .invalidParams message => s!"Invalid parameters: {message}"
  | .invalidToolCategory name => s!"Invalid tool category: {name}"
  | .invalidToolName message => s!"Invalid tool name: {message}"
  | .addressOutOfRange addr => "Address "++hexText addr++" is outside valid range"
  | .functionNotFound addr => "Function not found at address "++hexText addr
  | .functionNameNotFound name => s!"Function not found: {name}"
  | .decompilerUnavailable => "Decompiler not available"
  | .timeout secs =>
    let n:=secs.toNat
    s!"Operation timed out after {n} seconds"
  | .busy => "Server is busy (request queue full). Please retry."
  | .idaError message => s!"IDA error: {message}"
  | .notSupported message => s!"Not supported: {message}"
  | .workerClosed => "Worker channel closed"

abbrev Result (α : Type) := Except ToolError α

def marked (lower upper : Char) (cs : List Char) : Bool :=
  ['0',lower].isPrefixOf cs || ['0',upper].isPrefixOf cs

/-- Lines 22-25 of `rpc_dispatch.rs`, of a text without blanks around it. -/
def addressText (cs : List Char) : Option UInt64 :=
  if marked 'x' 'X' cs then fromStrRadix 16 (cs.drop 2) else fromStrRadix 10 cs

/-- Lines 16-28. -/
def parseAddressValue (v : Json) : Option UInt64 :=
  match v.asU64,v.asStr with
  | some n,_ => some (UInt64.ofNat n)
  | none,some s => addressText (trim s.toList)
  | none,none => none

def parseAddressItems : Nat → List Json → Result (List UInt64)
  | _,[] => .ok []
  | i,v::vs => match parseAddressValue v with
    | some a => (parseAddressItems (i+1) vs).map (a::·)
    | none =>
      let item:=String.ofList v.print
      .error (.invalidAddress s!"invalid address at index {i}: {item}")

/-- Lines 32-49. -/
def parseAddressValues (v : Json) : Result (List UInt64) :=
  match v with
  | .arr vs => do
    let addrs ← parseAddressItems 0 vs
    if addrs.isEmpty then .error (.invalidAddress "empty address array") else .ok addrs
  | v => match parseAddressValue v with
    | some a => .ok [a]
    | none =>
      let value:=String.ofList v.print
      .error (.invalidAddress s!"invalid address: {value}")

/-- Lines 56-64. -/
def parseStringList (v : Json) : List String := (v.asArray.getD []).filterMap Json.asStr

variable (fromStr : String → Option Json)

/-- Lines 765-784, 830-847 and 858-875. -/
def parsePatterns (v : Json) : List String :=
  match v with
  | .arr vs => vs.filterMap Json.asStr
  | .str s =>
    if (trim s.toList).head?=some '[' then
      match fromStr s with
      | some (.arr vs) => vs.filterMap Json.asStr
      | _ => [s]
    else [s]
  | _ => []

def noBytes : ToolError := .invalidParams "no bytes provided"

def isSeparator (c : Char) : Bool :=
  c == ' ' || c == '\t' || c == '\n' || c == '\x0c' || c == '\r' || c == ',' || c == ':' ||
    c == '-' || c == '_'

/-- The digits of the tokens, each without its mark. -/
def tokenDigits : List (List Char) → Result (List Char)
  | [] => .ok []
  | token::tokens =>
    let cleaned:=if marked 'x' 'X' token then token.drop 2 else token
    match cleaned.find? fun c => (digitOf 16 c).isNone with
    | some c => .error (.invalidParams s!"invalid hex character: {c}")
    | none => (tokenDigits tokens).map (cleaned++·)

def bytePairs : List Char → List UInt8
  | a::b::cs => UInt8.ofNat (16*(digitOf 16 a).getD 0+(digitOf 16 b).getD 0)::bytePairs cs
  | _ => []

/-- Lines 77-119 of `rpc_dispatch.rs` and 247-292 of `server/mod.rs`. -/
def hexBytes (s : String) : Result (List UInt8) := do
  let cs:=trim s.toList
  if cs.isEmpty then .error noBytes
  else
    let digits ← tokenDigits ((cs.splitOnP isSeparator).filter (!·.isEmpty))
    if digits.isEmpty then .error noBytes
    else if digits.length%2≠0 then .error (.invalidParams "hex string has odd length")
    else .ok (bytePairs digits)

/-- Lines 66-124. -/
def parsePatchBytes (v : Json) : Result (List UInt8) :=
  match v with
  | .arr vs =>
    let out:=vs.filterMap fun v => v.asU64.map UInt8.ofNat
    if out.isEmpty then .error noBytes else .ok out
  | .str s => hexBytes s
  | _ => .error (.invalidParams "bytes must be a hex string or array of integers")

/-- Lines 156-169 of `server/mod.rs`. -/
def parseAddress (s : String) : Result UInt64 :=
  let cs:=(trim s.toList).filter (· ≠ '_')
  let parsed:=if marked 'x' 'X' cs then fromStrRadix 16 (cs.drop 2)
    else if marked 'b' 'B' cs then fromStrRadix 2 (cs.drop 2)
    else if marked 'o' 'O' cs then fromStrRadix 8 (cs.drop 2)
    else fromStrRadix 10 cs
  match parsed with
  | some a => .ok a
  | none => .error (.invalidAddress (String.ofList cs))

/-- Lines 178-188 and 211-221. -/
def itemStrings : List Json → Result (List String)
  | [] => .ok []
  | v::vs => match v with
    | .str s => (itemStrings vs).map (s::·)
    | .number n => (itemStrings vs).map (String.ofList n.text::·)
    | _ => .error (.idaError "expected string or number")

/-- Lines 193-206. -/
def listedStrings (cs : List Char) : Result (List String) :=
  if cs.contains ',' then
    .ok ((((splitOn ',' cs).map trim).filter (!·.isEmpty)).map String.ofList)
  else if cs.isEmpty then .error (.idaError "empty string")
  else .ok [String.ofList cs]

/-- Lines 171-225. -/
def valueToStrings (v : Json) : Result (List String) :=
  match v with
  | .str s =>
    let trimmed:=trim s.toList
    if trimmed.head?=some '[' then
      match fromStr (String.ofList trimmed) with
      | some (.arr vs) => itemStrings vs
      | _ => listedStrings trimmed
    else listedStrings trimmed
  | .number n => .ok [String.ofList n.text]
  | .arr vs => itemStrings vs
  | _ => .error (.idaError "expected string, number, or array")

def parseAll : List String → Result (List UInt64)
  | [] => .ok []
  | s::ss => do
    let a ← parseAddress s
    let as ← parseAll ss
    return a::as

/-- Lines 227-235. -/
def valueToAddresses (v : Json) : Result (List UInt64) := do
  let strings ← valueToStrings fromStr v
  if strings.isEmpty then .error (.invalidAddress "no addresses provided") else parseAll strings

/-- Lines 237-243. -/
def valueToSingleAddress (v : Json) : Result UInt64 := do
  let addrs ← valueToAddresses fromStr v
  match addrs.head? with
  | some a => .ok a
  | none => .error (.invalidAddress "empty address list")

def outOfRange : ToolError := .invalidParams "byte value out of range"

def byteOf (n : Nat) : Result UInt8 := if n > 255 then .error outOfRange else .ok (UInt8.ofNat n)

def byteOfNumber (v : Json) : Result UInt8 :=
  match v.asU64 with
  | some n => byteOf n
  | none => .error (.invalidParams "invalid byte")

/-- Lines 296-322. -/
def itemBytes : List Json → Result (List UInt8)
  | [] => .ok []
  | v::vs => do
    let b ← match v with
      | .number n => byteOfNumber (.number n)
      | .str s => do
        let a ← parseAddress s
        byteOf a.toNat
      | _ => .error (.invalidParams "bytes must be numbers or strings")
    let bs ← itemBytes vs
    return b::bs

/-- Lines 245-345. -/
def valueToBytes (v : Json) : Result (List UInt8) :=
  match v with
  | .str s => hexBytes s
  | .arr vs => do
    let out ← itemBytes vs
    if out.isEmpty then .error noBytes else .ok out
  | .number n => do
    let b ← byteOfNumber (.number n)
    return [b]
  | _ => .error (.invalidParams "expected hex string or array of bytes")

theorem eq_of_marked (h : marked lower upper cs=true) :
    ∃ rest,cs= '0'::lower::rest ∨ cs= '0'::upper::rest := by
  rw [marked,Bool.or_eq_true,List.isPrefixOf_iff_prefix,List.isPrefixOf_iff_prefix] at h
  rcases h with ⟨rest,h⟩ | ⟨rest,h⟩
  · exact ⟨rest,.inl h.symm⟩
  · exact ⟨rest,.inr h.symm⟩

theorem mem_drop_of_marked (h : marked lower upper cs=true) (hm : c∈cs) (h0 : c≠ '0') (hl : c≠lower)
    (hu : c≠upper) : c∈cs.drop 2 := by
  obtain ⟨rest,rfl | rfl⟩:=eq_of_marked h <;> simpa [h0,hl,hu] using hm

/-- A sign of no numeral, whatever the radix. -/
structure Foreign (c : Char) : Prop where
  unsigned : c≠ '+'
  digit : ∀ radix,digitOf radix c=none

theorem foreign_of (hp : c≠ '+') (hr : ¬((48 ≤ c.toNat ∧ c.toNat ≤ 57) ∨
    (97 ≤ c.toNat ∧ c.toNat ≤ 122) ∨ (65 ≤ c.toNat ∧ c.toNat ≤ 90))) : Foreign c := by
  refine ⟨hp,fun radix => ?_⟩
  cases hd : digitOf radix c with
  | none => rfl
  | some d =>
    have hs : (digitOf radix c).isSome=true := by rw [hd]; rfl
    exact absurd (digitOf_range hs) hr

theorem Foreign.ne {d : Char} (h : Foreign c) (hd : (digitOf 36 d).isSome=true) : c≠d := by
  rintro rfl
  rw [h.digit] at hd
  cases hd

theorem marked_digits {radix : Nat} (h : ∀ c∈cs,(digitOf radix c).isSome=true)
    (hl : digitOf radix lower=none)
    (hu : digitOf radix upper=none) : marked lower upper cs=false := by
  have hno : ∀ m,digitOf radix m=none → ['0',m].isPrefixOf cs=false := by
    intro m hm
    rw [Bool.eq_false_iff]
    intro hp
    obtain ⟨rest,hr⟩:=List.isPrefixOf_iff_prefix.mp hp
    have hd:=h m (by rw [← hr]; simp)
    rw [hm] at hd
    cases hd
  rw [marked,hno lower hl,hno upper hu]
  rfl

theorem parseAddress_toDigits (n : UInt64) :
    parseAddress (String.ofList (Nat.toDigits 10 n.toNat))=.ok n := by
  have hd : ∀ c∈Nat.toDigits 10 n.toNat,(digitOf 10 c).isSome=true :=
    fun c hc => digit_of_mem_toDigits (by decide) (by decide) hc
  have ht : trim (Nat.toDigits 10 n.toNat)=Nat.toDigits 10 n.toNat :=
    trim_eq_self fun c hc => isBlank_of_digit (hd c hc)
  have hf : (Nat.toDigits 10 n.toNat).filter (· ≠ '_')=Nat.toDigits 10 n.toNat := by
    refine List.filter_eq_self.mpr fun c hc => ?_
    simp only [ne_eq,decide_not,Bool.not_eq_true',decide_eq_false_iff_not]
    rintro rfl
    exact absurd (hd '_' hc) (by decide)
  rw [parseAddress,String.toList_ofList,ht,hf]
  have hx : marked 'x' 'X' (Nat.toDigits 10 n.toNat)=false :=
    marked_digits hd (by decide) (by decide)
  have hb : marked 'b' 'B' (Nat.toDigits 10 n.toNat)=false :=
    marked_digits hd (by decide) (by decide)
  have ho : marked 'o' 'O' (Nat.toDigits 10 n.toNat)=false :=
    marked_digits hd (by decide) (by decide)
  have hn : fromStrRadix 10 (Nat.toDigits 10 n.toNat)=some n := by
    rw [fromStrRadix_toDigits (by decide) (by decide),if_pos n.toNat_lt,UInt64.ofNat_toNat]
  simp only [hx,hb,ho,hn,Bool.false_eq_true,if_false]

theorem valueToAddresses_ofNat (n : UInt64) :
    valueToAddresses fromStr (.ofNat n.toNat)=.ok [n] := by
  have hs : valueToStrings fromStr (.ofNat n.toNat)=
      .ok [String.ofList (Nat.toDigits 10 n.toNat)] := rfl
  have hp:=parseAddress_toDigits n
  rw [valueToAddresses,hs]
  generalize String.ofList (Nat.toDigits 10 n.toNat)=s at hp
  change parseAll [s]=.ok [n]
  rw [parseAll,hp]
  rfl

theorem parseAddressValues_ne_nil {v : Json} {addrs : List UInt64}
    (h : parseAddressValues v=.ok addrs) : addrs≠[] := by
  rintro rfl
  unfold parseAddressValues at h
  split at h
  · next vs =>
    cases hp : parseAddressItems 0 vs with
    | error e => rw [hp] at h; cases h
    | ok as =>
      rw [hp] at h
      cases as with
      | nil => cases h
      | cons a as => cases h
  · split at h <;> cases h

end Rpc
