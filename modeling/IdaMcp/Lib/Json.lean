import Mathlib.Data.List.Basic

/-!
# JSON values and their text

A number is an integer, or a fraction or exponent form kept as its own text.
An object is its list of fields, in the order of their names where it is built
field by field. The text of a value has no blanks, and a string in it escapes
what it has to and nothing else.
-/

namespace Lib

/-- A decimal integer as JSON writes it: with no zero in front. -/
def natural? (digits : List Char) : Option Nat :=
  let n := Nat.ofDigitChars 10 digits 0
  if Nat.toDigits 10 n=digits then some n else none

def isNumberChar (c : Char) : Bool :=
  c.isDigit || c == '-' || c == '+' || c == '.' || c == 'e' || c == 'E'

def isExponent : List Char → Bool
  | [] => true
  | c::cs =>
    let digits := if cs.head?=some '+' ∨ cs.head?=some '-' then cs.tail else cs
    (c == 'e' || c == 'E') && !digits.isEmpty && digits.all Char.isDigit

/-- What stands behind the integer part of a number that is no integer. -/
def isFraction : List Char → Bool
  | [] => false
  | '.'::cs => !(cs.takeWhile Char.isDigit).isEmpty && isExponent (cs.dropWhile Char.isDigit)
  | cs => isExponent cs

def isNegative (text : List Char) : Bool := text.head?==some '-'
def unsigned (text : List Char) : List Char := if isNegative text then text.tail else text

def isDecimal (text : List Char) : Bool :=
  (natural? ((unsigned text).takeWhile Char.isDigit)).isSome &&
    isFraction ((unsigned text).dropWhile Char.isDigit) && text.all isNumberChar

/-- A number written with a fraction or an exponent. -/
structure Decimal where
  text : String
  wellFormed : isDecimal text.toList=true
  deriving Repr,DecidableEq

inductive JsonNumber where
  | nat : Nat → JsonNumber
  /-- The integer `-(n+1)`. -/
  | neg : Nat → JsonNumber
  | float : Decimal → JsonNumber
  deriving Repr,DecidableEq

inductive Json where
  | null : Json
  | bool : Bool → Json
  | number : JsonNumber → Json
  | str : String → Json
  | arr : List Json → Json
  | obj : List (String × Json) → Json

namespace Json

def get? : Json → String → Option Json
  | .obj fields,k => (fields.find? fun e => e.1==k).map Prod.snd
  | _,_ => none

def asStr : Json → Option String
  | .str s => some s
  | _ => none

def asBool : Json → Option Bool
  | .bool b => some b
  | _ => none

def asArray : Json → Option (List Json)
  | .arr xs => some xs
  | _ => none

def asU64 : Json → Option Nat
  | .number (.nat n) => if n < UInt64.size then some n else none
  | _ => none

/-- Puts a field at its place in the order of the names, over an old value. -/
def setField (k : String) (v : Json) : List (String × Json) → List (String × Json)
  | [] => [(k,v)]
  | e::es => if k < e.1 then (k,v)::e::es else if k=e.1 then (k,v)::es else e::setField k v es

def ofFields (fields : List (String × Json)) : Json :=
  .obj (fields.foldl (fun acc e => setField e.1 e.2 acc) [])

theorem get?_setField (k a : String) (v : Json) (fields : List (String × Json)) :
    (Json.obj (setField k v fields)).get? a=if k=a then some v else (Json.obj fields).get? a := by
  induction fields with
  | nil => by_cases h : k=a <;> simp [setField,get?,h]
  | cons e es ih =>
    simp only [get?] at ih ⊢
    unfold setField
    split
    · by_cases h : k=a <;> simp [h]
    split
    · next he =>
      subst he
      by_cases h : e.1=a <;> simp [h]
    · next hk =>
      by_cases h : e.1=a
      · subst h; simp [hk]
      · simp [h,ih]

theorem get?_ofFields (fields : List (String × Json)) (a : String) :
    (ofFields fields).get? a=(fields.reverse.find? fun e => e.1==a).map Prod.snd := by
  have hfold : ∀ acc,(Json.obj (fields.foldl (fun acc e => setField e.1 e.2 acc) acc)).get? a=
      ((fields.reverse.find? fun e => e.1==a).map Prod.snd).or ((Json.obj acc).get? a) := by
    induction fields with
    | nil => intro acc; rfl
    | cons e es ih =>
      intro acc
      rw [List.foldl_cons,ih,get?_setField,List.reverse_cons,List.find?_append]
      cases es.reverse.find? fun e => e.1==a with
      | some x => rfl
      | none => by_cases h : e.1=a <;> simp [h]
  rw [ofFields,hfold]
  cases fields.reverse.find? fun e => e.1==a <;> rfl

/-- `null` for what is missing. -/
def ofOption (v : Option String) : Json :=
  match v with
  | some s => .str s
  | none => .null

def ofNat (n : Nat) : Json := .number (.nat n)

end Json

def JsonNumber.text : JsonNumber → List Char
  | .nat n => Nat.toDigits 10 n
  | .neg n => '-'::Nat.toDigits 10 (n+1)
  | .float d => d.text.toList

/-- A character of the text: one of the value's own, or one of a string. -/
inductive Piece where
  | plain : Char → Piece
  | content : Char → Piece
  deriving Repr,DecidableEq

/-- A string escapes quotes, backslashes and control characters. -/
def escapeChar (c : Char) : List Char :=
  if c = '"' then ['\\','"']
  else if c = '\\' then ['\\','\\']
  else if c = '\x08' then ['\\','b']
  else if c = '\x0c' then ['\\','f']
  else if c = '\n' then ['\\','n']
  else if c = '\r' then ['\\','r']
  else if c = '\t' then ['\\','t']
  else if c.toNat < 32 then
    ['\\','u','0','0',Nat.digitChar (c.toNat/16),Nat.digitChar (c.toNat%16)]
  else [c]

def Piece.text : Piece → List Char
  | .plain c => [c]
  | .content c => escapeChar c

/-- The character that the text stands for. -/
def Piece.value : Piece → Char
  | .plain c => c
  | .content c => c

def stringPieces (s : String) : List Piece :=
  .plain '"'::(s.toList.map .content++[.plain '"'])

mutual
def Json.pieces : Json → List Piece
  | .null => ['n','u','l','l'].map .plain
  | .bool true => ['t','r','u','e'].map .plain
  | .bool false => ['f','a','l','s','e'].map .plain
  | .number n => n.text.map .plain
  | .str s => stringPieces s
  | .arr xs => .plain '['::itemPieces xs
  | .obj fields => .plain '\x7b'::fieldPieces fields
def itemPieces : List Json → List Piece
  | [] => [.plain ']']
  | [x] => x.pieces++[.plain ']']
  | x::y::xs => x.pieces++.plain ','::itemPieces (y::xs)
def fieldPieces : List (String × Json) → List Piece
  | [] => [.plain '\x7d']
  | [(k,x)] => stringPieces k++.plain ':'::(x.pieces++[.plain '\x7d'])
  | (k,x)::y::xs => stringPieces k++.plain ':'::(x.pieces++.plain ','::fieldPieces (y::xs))
end

/-- The compact text of a value. -/
def Json.print (v : Json) : List Char := v.pieces.flatMap Piece.text

end Lib
