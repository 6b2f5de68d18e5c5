import Mathlib.Order.Basic
import IdaMcp.Lib.Json

/-!
# The characters of a JSON text

Outside its strings a text has no quote, no backslash and no control character,
and in a string they are escaped: the text of a value is one line.
-/

namespace Lib

theorem isNumberChar_of_digit (c : Char) (h : c.isDigit=true) : isNumberChar c=true := by
  simp [isNumberChar,h]

theorem digit_of_toDigits (n : Nat) : ∀ c ∈ Nat.toDigits 10 n,c.isDigit=true :=
  fun _ hc => Nat.isDigit_of_mem_toDigits (by decide) (by decide) hc

theorem number_chars (n : JsonNumber) : ∀ c ∈ n.text,isNumberChar c=true := by
  intro c hc
  cases n with
  | nat n => exact isNumberChar_of_digit c (digit_of_toDigits n c hc)
  | neg n =>
    rcases List.mem_cons.mp hc with rfl | hc
    · decide
    · exact isNumberChar_of_digit c (digit_of_toDigits _ c hc)
  | float d =>
    have h := d.wellFormed
    simp only [isDecimal,Bool.and_eq_true,List.all_eq_true] at h
    exact h.2 c hc

/-- A character of the JSON text that belongs to no string is neither a quote
nor a backslash. -/
def Tame : Piece → Prop
  | .plain c => c ≠ '\\' ∧ c ≠ '\'' ∧ ¬c.toNat < 32
  | .content _ => True

theorem tame_of_numberChar (c : Char) (h : isNumberChar c=true) : Tame (.plain c) := by
  refine ⟨?_,?_,?_⟩
  · rintro rfl
    exact absurd h (by decide)
  · rintro rfl
    exact absurd h (by decide)
  · simp only [isNumberChar,Bool.or_eq_true,beq_iff_eq] at h
    rcases h with ((((h | rfl) | rfl) | rfl) | rfl) | rfl
    · have hd := (Char.isDigit_iff_toNat.mp h).1
      have h0 : '0'.toNat=48 := rfl
      omega
    all_goals decide

theorem tame_chars (cs : List Char) (h : ∀ c ∈ cs,Tame (.plain c)) :
    ∀ p ∈ cs.map Piece.plain,Tame p := by
  intro p hp
  obtain ⟨c,hc,rfl⟩ := List.mem_map.mp hp
  exact h c hc

theorem tame_word (cs : List Char)
    (h : cs.all (fun c => decide (c ≠ '\\' ∧ c ≠ '\'' ∧ ¬c.toNat < 32))=true) :
    ∀ p ∈ cs.map Piece.plain,Tame p := by
  refine tame_chars cs fun c hc => ?_
  have hd : c ≠ '\\' ∧ c ≠ '\'' ∧ ¬c.toNat < 32 := of_decide_eq_true (List.all_eq_true.mp h c hc)
  exact hd

theorem tame_stringPieces (s : String) : ∀ p ∈ stringPieces s,Tame p := by
  intro p hp
  simp only [stringPieces,List.mem_cons,List.mem_append,List.mem_map,List.not_mem_nil,
    or_false] at hp
  rcases hp with rfl | ⟨c,_,rfl⟩ | rfl
  · exact ⟨by decide,by decide,by decide⟩
  · trivial
  · exact ⟨by decide,by decide,by decide⟩

theorem tame_mark (c : Char) (h : c = '[' ∨ c = ']' ∨ c = '\x7b' ∨ c = '\x7d' ∨ c = ',' ∨ c = ':') :
    Tame (.plain c) := by
  rcases h with rfl | rfl | rfl | rfl | rfl | rfl <;> exact ⟨by decide,by decide,by decide⟩

mutual
theorem tame_pieces : ∀ (v : Json),∀ p ∈ v.pieces,Tame p
  | .null => tame_word ['n','u','l','l'] (by decide)
  | .bool true => tame_word ['t','r','u','e'] (by decide)
  | .bool false => tame_word ['f','a','l','s','e'] (by decide)
  | .number n => by
    rw [Json.pieces]
    exact tame_chars n.text fun c hc => tame_of_numberChar c (number_chars n c hc)
  | .str s => by
    rw [Json.pieces]
    exact tame_stringPieces s
  | .arr xs => by
    rw [Json.pieces]
    exact List.forall_mem_cons.mpr ⟨tame_mark _ (by decide),tame_itemPieces xs⟩
  | .obj xs => by
    rw [Json.pieces]
    exact List.forall_mem_cons.mpr ⟨tame_mark _ (by decide),tame_fieldPieces xs⟩
theorem tame_itemPieces : ∀ (xs : List Json),∀ p ∈ itemPieces xs,Tame p
  | [] => by
    rw [itemPieces]
    exact List.forall_mem_singleton.mpr (tame_mark _ (by decide))
  | [x] => by
    rw [itemPieces]
    exact List.forall_mem_append.mpr
      ⟨tame_pieces x,List.forall_mem_singleton.mpr (tame_mark _ (by decide))⟩
  | x::y::xs => by
    rw [itemPieces]
    exact List.forall_mem_append.mpr ⟨tame_pieces x,
      List.forall_mem_cons.mpr ⟨tame_mark _ (by decide),tame_itemPieces (y::xs)⟩⟩
theorem tame_fieldPieces : ∀ (xs : List (String × Json)),∀ p ∈ fieldPieces xs,Tame p
  | [] => by
    rw [fieldPieces]
    exact List.forall_mem_singleton.mpr (tame_mark _ (by decide))
  | [(k,x)] => by
    rw [fieldPieces]
    exact List.forall_mem_append.mpr ⟨tame_stringPieces k,
      List.forall_mem_cons.mpr ⟨tame_mark _ (by decide),List.forall_mem_append.mpr
        ⟨tame_pieces x,List.forall_mem_singleton.mpr (tame_mark _ (by decide))⟩⟩⟩
  | (k,x)::y::xs => by
    rw [fieldPieces]
    exact List.forall_mem_append.mpr ⟨tame_stringPieces k,
      List.forall_mem_cons.mpr ⟨tame_mark _ (by decide),List.forall_mem_append.mpr
        ⟨tame_pieces x,List.forall_mem_cons.mpr
          ⟨tame_mark _ (by decide),tame_fieldPieces (y::xs)⟩⟩⟩⟩
end

theorem getLast_itemPieces : ∀ xs : List Json,(itemPieces xs).getLast?=some (.plain ']')
  | [] => rfl
  | [x] => by
    rw [itemPieces,List.getLast?_append]
    rfl
  | x::y::xs => by
    rw [itemPieces,List.getLast?_append,List.getLast?_cons,getLast_itemPieces (y::xs)]
    rfl

theorem controls_of_all {cs : List Char} (h : cs.all (fun x => decide (32 ≤ x.toNat))=true) :
    ∀ x ∈ cs,32 ≤ x.toNat := fun x hx => of_decide_eq_true (List.all_eq_true.mp h x hx)

theorem escapeChar_controls (c : Char) : ∀ x ∈ escapeChar c,32 ≤ x.toNat := by
  have hd : ∀ n < 16,32 ≤ (Nat.digitChar n).toNat := by decide
  unfold escapeChar
  split_ifs with h1 h2 h3 h4 h5 h6 h7 h8
  · exact controls_of_all (by decide)
  · exact controls_of_all (by decide)
  · exact controls_of_all (by decide)
  · exact controls_of_all (by decide)
  · exact controls_of_all (by decide)
  · exact controls_of_all (by decide)
  · exact controls_of_all (by decide)
  · have ha:=hd (c.toNat/16) (by omega)
    have hb:=hd (c.toNat%16) (by omega)
    simp only [List.mem_cons,List.not_mem_nil,or_false]
    rintro x (rfl | rfl | rfl | rfl | rfl | rfl)
    · decide
    · decide
    · decide
    · decide
    · exact ha
    · exact hb
  · exact List.forall_mem_singleton.mpr (Nat.le_of_not_lt h8)

theorem text_controls (p : Piece) (h : Tame p) : ∀ c ∈ p.text,32 ≤ c.toNat := by
  cases p with
  | plain c => exact List.forall_mem_singleton.mpr (Nat.le_of_not_lt h.2.2)
  | content c => exact escapeChar_controls c

theorem text_no_cr (p : Piece) (h : Tame p) : '\r' ∉ p.text :=
  fun hc => absurd (text_controls p h _ hc) (by decide)

theorem print_controls (v : Json) : ∀ c ∈ v.print,32 ≤ c.toNat := by
  intro c hc
  obtain ⟨p,hp,hc⟩:=List.mem_flatMap.mp hc
  exact text_controls p (tame_pieces v p hp) c hc

theorem getLast_fieldPieces : ∀ xs : List (String × Json),
    (fieldPieces xs).getLast?=some (.plain '\x7d')
  | [] => rfl
  | [(k,x)] => by
    rw [fieldPieces,List.getLast?_append,List.getLast?_cons,List.getLast?_append]
    rfl
  | (k,x)::y::xs => by
    rw [fieldPieces,List.getLast?_append,List.getLast?_cons,List.getLast?_append,List.getLast?_cons,
      getLast_fieldPieces (y::xs)]
    rfl

theorem print_obj (fields : List (String × Json)) :
    ∃ cs,(Json.obj fields).print = '\x7b'::(cs++['\x7d']) := by
  obtain ⟨ps,hps⟩:=List.getLast?_eq_some_iff.mp (getLast_fieldPieces fields)
  refine ⟨ps.flatMap Piece.text,?_⟩
  rw [Json.print,Json.pieces,hps,List.flatMap_cons,List.flatMap_append]
  rfl

end Lib
